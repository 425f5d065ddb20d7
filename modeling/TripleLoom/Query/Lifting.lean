import TripleLoom.Query.Basic

/-!
# TripleLoom.Query.Lifting — expressions out of the output

The output of a query may hold expressions where a plan holds terms: in the positions of generated
triples and as the names of calls.  Lifting gives every such expression a variable, binds the
variable behind the select part, and puts it in the expression's place; constants and variables
stand for themselves.  Equal expressions share a variable, also those of other queries lifted with
the same table before.  Lifting goes on in passes until one of them has found nothing to lift.
-/

namespace TripleLoom

/-- The expressions lifted so far, the oldest first, and the number of the next variable. -/
structure Lifting where
  table : List (Expression × Variable)
  nextId : Nat
  deriving Inhabited

namespace Lifting

/-- The table without expressions whose first variable has the given number. -/
def startingAt (nextId : Nat) : Lifting := ⟨[], nextId⟩

/-- The variable of a number. -/
def freshVariable (id : Nat) : Variable := ⟨"__generate" ++ toString id⟩

/-- The variable that stands for an expression. -/
def variableFor? (l : Lifting) (e : Expression) : Option Variable := l.table.lookup e

/-- A table with one more expression, unless it is there already. -/
def lift (l : Lifting) (e : Expression) : Lifting :=
  match l.variableFor? e with
  | some _ => l
  | none => ⟨l.table ++ [(e, freshVariable l.nextId)], l.nextId + 1⟩

/-! ### Collecting the expressions -/

/-- Lifts the expression of a position, unless it is a constant or a variable. -/
def position (l : Lifting) : Position → Lifting
  | .expression (.iri _) | .expression (.literal _) | .expression (.var _) => l
  | .expression e => l.lift e
  | .list element => l.position element
  | .iri _ | .blank _ | .literal _ | .var _ => l

/-- Lifts the expressions of a triple. -/
def triple (l : Lifting) (t : GenerateTriple) : Lifting :=
  ((l.position t.subject).position t.predicate).position t.object

/-- Lifts the name of a call, unless it is an IRI or a variable. -/
def call (l : Lifting) (c : NamedCall) : Lifting :=
  match c.name with
  | .iri _ | .var _ => l
  | e => l.lift e

/-- Lifts the expressions of an element, but none of a query in it. -/
def element (l : Lifting) : Element → Lifting
  | .triples ts => ts.foldl triple l
  | .call c => l.call c
  | .query _ => l

/-- Lifts the names of the calls in an element, but nothing of a query in it. -/
def templateElement (l : Lifting) : TemplateElement → Lifting
  | .call c => l.call c
  | .text _ | .expression _ | .query _ => l

/-- Lifts the expressions of a form. -/
def form (l : Lifting) : Form → Lifting
  | .generate elements => elements.foldl element l
  | .template _ elements _ _ => elements.foldl templateElement l
  | .select .. => l

end Lifting

/-! ### Putting the variables in place -/

/-- A position with a term in place of its expression. -/
def Position.lifted (l : Lifting) : Position → Position
  | .expression (.iri i) => .iri i
  | .expression (.literal v) => .literal v
  | .expression (.var v) => .var v
  | .expression e =>
    match l.variableFor? e with
    | some v => .var v
    | none => .expression e
  | .list element => .list (element.lifted l)
  | .iri i => .iri i
  | .blank b => .blank b
  | .literal v => .literal v
  | .var v => .var v

/-- A triple with terms in place of its expressions. -/
def GenerateTriple.lifted (l : Lifting) (t : GenerateTriple) : GenerateTriple :=
  ⟨t.subject.lifted l, t.predicate.lifted l, t.object.lifted l⟩

/-- A call with an IRI or a variable as its name. -/
def NamedCall.lifted (l : Lifting) (c : NamedCall) : NamedCall :=
  match c.name with
  | .iri _ | .var _ => c
  | e =>
    match l.variableFor? e with
    | some v => { c with name := .var v }
    | none => c

/-- An element with terms in place of its expressions. -/
def Element.lifted (l : Lifting) : Element → Element
  | .triples ts => .triples (ts.map (·.lifted l))
  | .call c => .call (c.lifted l)
  | .query q => .query q

/-- An element whose call has an IRI or a variable as its name. -/
def TemplateElement.lifted (l : Lifting) : TemplateElement → TemplateElement
  | .call c => .call (c.lifted l)
  | e => e

/-- A form with terms in place of its expressions. -/
def Form.lifted (l : Lifting) : Form → Form
  | .generate elements => .generate (elements.map (·.lifted l))
  | .template before elements separator after =>
    .template before (elements.map (·.lifted l)) separator after
  | .select projection distinct reduced => .select projection distinct reduced

/-- Bindings with one more behind them, unless its variable is bound among them. -/
def addBinding (bindings : List (Variable × Expression)) (v : Variable) (e : Expression) :
    List (Variable × Expression) :=
  if bindings.any (·.1 == v) then bindings else bindings ++ [(v, e)]

/-- The query with its expressions lifted, and the table after it. The expressions that are new to
the table are bound behind the select part, in the order in which they were met. -/
def Query.lift (l : Lifting) (q : Query) : Lifting × Query :=
  let after := l.form q.form
  let fresh := after.table.drop l.table.length
  (after, { q with
    form := q.form.lifted after
    postSelect := fresh.foldl (fun bindings (e, v) => addBinding bindings v e) q.postSelect })

/-! ### Passes -/

/-- Whether a position holds an expression, constants and variables included. -/
def Position.isLiftable : Position → Bool
  | .expression _ => true
  | .list element => element.isLiftable
  | .iri _ | .blank _ | .literal _ | .var _ => false

/-- Whether a triple holds an expression. -/
def GenerateTriple.isLiftable (t : GenerateTriple) : Bool :=
  t.subject.isLiftable || t.predicate.isLiftable || t.object.isLiftable

/-- Whether the name of a call is neither an IRI nor a variable. -/
def NamedCall.isLiftable (c : NamedCall) : Bool :=
  match c.name with
  | .iri _ | .var _ => false
  | _ => true

/-- Whether an element holds an expression to lift, one of a query in it apart. -/
def Element.isLiftable : Element → Bool
  | .triples ts => ts.any (·.isLiftable)
  | .call c => c.isLiftable
  | .query _ => false

/-- Whether the name of the call in an element, if it is one, is to be lifted. -/
def TemplateElement.isLiftable : TemplateElement → Bool
  | .call c => c.isLiftable
  | .text _ | .expression _ | .query _ => false

/-- Whether there is anything to lift in a form. -/
def Form.isLiftable : Form → Bool
  | .generate elements => elements.any (·.isLiftable)
  | .template _ elements _ _ => elements.any (·.isLiftable)
  | .select .. => false

/-- The number of passes after which lifting is given up. -/
def Lifting.maxPasses : Nat := 32

/-- The query with its expressions lifted in passes, the last of which finds nothing to lift, and the
table after it; nothing if so many passes do not do. -/
def Query.liftWithin : Nat → Lifting → Query → Option (Lifting × Query)
  | 0, _, _ => none
  | passes + 1, l, q =>
    let (after, lifted) := q.lift l
    if q.form.isLiftable then lifted.liftWithin passes after else some (after, lifted)

end TripleLoom
