import TripleLoom.Plan.Basic
import TripleLoom.Query.Lifting

/-!
# TripleLoom.Plan.OfQuery — compiling queries

The expressions of a query's output are lifted, its clauses and modifiers become nodes, and
consecutive triples of its output one node; the queries in it are compiled in turn.  Variables and
lists are numbered on through everything that is compiled with one numbering, also where compiling
fails.
-/

namespace TripleLoom

/-- A fault of a query that keeps it from being compiled. -/
inductive PlanError where
  | listOutsideObjectPosition
  | nestedList
  | duplicateSignatureVariable (name : Variable)
  | embeddedExpression
  /-- Lifting found something to lift in each of its passes. -/
  | liftingUnfinished (passes : Nat)
  deriving DecidableEq, Repr

/-- The text of a fault. -/
def PlanError.message : PlanError → String
  | .listOutsideObjectPosition =>
    "LIST(...) may only be used in the object position of a generated triple"
  | .nestedList => "LIST(...) may not be nested"
  | .duplicateSignatureVariable v =>
    "The variable " ++ v.display ++ " is declared more than once in the query signature"
  | .embeddedExpression =>
    "An expression is used where only an IRI, a literal, or a variable is allowed"
  | .liftingUnfinished passes =>
    "Normalization of embedded expressions did not terminate after " ++ toString passes ++ " passes"

/-- The name of a fault's kind. -/
def PlanError.kind : PlanError → String
  | .listOutsideObjectPosition => "ListOutsideObjectPosition"
  | .nestedList => "NestedList"
  | .duplicateSignatureVariable _ => "DuplicateSignatureVariable"
  | .embeddedExpression => "EmbeddedExpression"
  | .liftingUnfinished _ => "NormalizationDidNotConverge"

/-- The numbers of the next lifted variable and of the next list. -/
structure Numbering where
  nextVariable : Nat
  nextList : Nat
  deriving DecidableEq, Repr, Inhabited

/-- The numbering of a fresh start. -/
def Numbering.start : Numbering := ⟨0, 0⟩

/-- A step of compiling: it may fail, and counts on in either case. -/
abbrev Build := ExceptT PlanError (StateM Numbering)

/-! ### The select part -/

/-- Whether a pattern is the one that is left out of a query. -/
def GraphPattern.isEmptyGroup (p : GraphPattern) : Bool := p = .bgp []

/-- The pattern of a query joined with its table of values. -/
def Query.wholePattern (q : Query) : GraphPattern :=
  let pattern := q.pattern.getD (.bgp [])
  match q.modifiers.values with
  | none => pattern
  | some table => if pattern.isEmptyGroup then .values table else .join pattern (.values table)

/-- The part of a query for a graph-pattern engine, if it can change the solutions at all. -/
def Query.selectPart (q : Query) : Option Select :=
  let m := q.modifiers
  let isSelect := match q.form with | .select .. => true | _ => false
  let (projection, distinct, reduced) := match q.form with
    | .select projection distinct reduced => (projection, distinct, reduced)
    | _ => (none, false, false)
  let group := if m.groupBy.isEmpty ∧ m.aggregates.isEmpty then none
    else some ⟨m.groupBy, m.aggregates⟩
  if q.pattern.all GraphPattern.isEmptyGroup ∧ m.isEmpty ∧
      projection.isNone ∧ !distinct ∧ !reduced then none
  else some {
    dataset := q.dataset
    base := q.base
    pattern := q.wholePattern
    group
    having := m.having
    projection
    keepInput := !isSelect && group.isNone
    orderBy := m.orderBy
    distinct
    reduced
    offset := m.offset
    limit := m.limit }

/-! ### Terms, calls and triples -/

/-- A position as a term of a template. -/
def TemplateTerm.ofPosition : Position → Build TemplateTerm
  | .iri i => pure (.iri i)
  | .blank b => pure (.blank b)
  | .literal l => pure (.literal l)
  | .var v => pure (.var v)
  | .list _ => throw .listOutsideObjectPosition
  | .expression _ => throw .embeddedExpression

/-- A call whose name is an IRI or a variable. -/
def CallPlan.ofCall (c : NamedCall) : Build CallPlan :=
  match c.name with
  | .iri i => pure ⟨.iri i, c.arguments⟩
  | .var v => pure ⟨.var v, c.arguments⟩
  | _ => throw .embeddedExpression

/-- The number of a new list. -/
def Build.listNumber : Build Nat := do
  let n ← get
  set { n with nextList := n.nextList + 1 }
  return n.nextList

namespace TriplesPlan

/-- The plan without triples. -/
def empty : TriplesPlan := ⟨[], []⟩

/-- A plan with one more triple. -/
def add (p : TriplesPlan) (t : GenerateTriple) : Build TriplesPlan := do
  let subject ← TemplateTerm.ofPosition t.subject
  let predicate ← TemplateTerm.ofPosition t.predicate
  match t.object with
  | .list (.list _) => throw .nestedList
  | .list element =>
    let element ← TemplateTerm.ofPosition element
    return { p with lists := p.lists ++ [⟨← Build.listNumber, subject, predicate, element⟩] }
  | object =>
    let object ← TemplateTerm.ofPosition object
    return { p with triples := p.triples ++ [⟨subject, predicate, object⟩] }

/-- The node of a plan, if it holds any triple. -/
def nodes (p : TriplesPlan) : List PlanNode :=
  if p.triples.isEmpty ∧ p.lists.isEmpty then [] else [.triples p]

end TriplesPlan

/-! ### Queries -/

/-- The first variable of a list that occurred in it before. -/
def firstRepeated? : List Variable → List Variable → Option Variable
  | _, [] => none
  | seen, v :: rest => if v ∈ seen then some v else firstRepeated? (v :: seen) rest

/-- Refuses a signature that names a variable twice. -/
def checkSignature (signature : Option (List Variable)) : Build Unit :=
  match firstRepeated? [] (signature.getD []) with
  | some v => throw (.duplicateSignatureVariable v)
  | none => pure ()

/-- Lifts the expressions of a query's output, from the next variable on. -/
def Build.lift (q : Query) : Build (Lifting × Query) := do
  let n ← get
  match q.liftWithin Lifting.maxPasses (.startingAt n.nextVariable) with
  | some (l, lifted) =>
    set { n with nextVariable := l.nextId }
    return (l, lifted)
  | none => throw (.liftingUnfinished Lifting.maxPasses)

mutual

/-- The plan of a query. -/
def Query.compile : Query → Build Plan
  | ⟨base, prefixes, name, signature, dataset, bindings, pattern, modifiers, form, postSelect⟩ => do
    let q : Query :=
      ⟨base, prefixes, name, signature, dataset, bindings, pattern, modifiers, form, postSelect⟩
    let (l, lifted) ← Build.lift q
    checkSignature signature
    let output ← form.compile l
    return {
      name, signature, base, prefixes
      bindings := bindings.map .clause
      select := lifted.selectPart.map .select
      postSelect := lifted.postSelect.map fun (v, e) => .clause (.bind e v)
      output }

/-- The output of a form whose expressions were lifted. -/
def Form.compile (l : Lifting) : Form → Build OutputPlan
  | .generate elements => do return .generate (← Element.compileAll l .empty elements)
  | .template before elements separator after => do
    return .template (.template ⟨before, ← TemplateElement.compileAll l elements, separator, after⟩)
  | .select projection _ _ => pure (.rows (projection.map fun items => items.map (·.name)))

/-- The nodes of some elements, behind the triples of those just before. -/
def Element.compileAll (l : Lifting) (before : TriplesPlan) : List Element → Build (List PlanNode)
  | [] => pure before.nodes
  | .triples ts :: rest => do
    Element.compileAll l (← (ts.map (·.lifted l)).foldlM TriplesPlan.add before) rest
  | .query q :: rest => do
    let plan ← q.compile
    return before.nodes ++ .plan plan :: (← Element.compileAll l .empty rest)
  | .call c :: rest => do
    let call ← CallPlan.ofCall (c.lifted l)
    return before.nodes ++ .call call :: (← Element.compileAll l .empty rest)

/-- The parts of some elements of a template. -/
def TemplateElement.compileAll (l : Lifting) : List TemplateElement → Build (List TemplatePart)
  | [] => pure []
  | .text s :: rest => do
    return .expression (.literal (.simple s)) :: (← TemplateElement.compileAll l rest)
  | .expression e :: rest => do return .expression e :: (← TemplateElement.compileAll l rest)
  | .query q :: rest => do
    let plan ← q.compile
    return .plan plan :: (← TemplateElement.compileAll l rest)
  | .call c :: rest => do
    let call ← CallPlan.ofCall (c.lifted l)
    return .call call :: (← TemplateElement.compileAll l rest)

end

/-- Compiles a query with a numbering, and the numbering after it. -/
def Plan.build (q : Query) (n : Numbering) : Except PlanError Plan × Numbering := q.compile n

/-- The plan of a query of its own. -/
def Plan.ofQuery? (q : Query) : Except PlanError Plan := (Plan.build q .start).1

end TripleLoom
