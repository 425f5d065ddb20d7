import TripleLoom.Proofs.Run.Binding
import TripleLoom.Run.Clause

/-!
# TripleLoom.Proofs.Pipeline.NestedLoops — what a pipeline of clauses means

Taken one after the other, clauses make lists of solutions of a solution: a `BIND` and a `SOURCE`
one, an `ITERATOR` one for each tuple.  The final solutions of a query are those of the loops over
all inputs, nested clause by clause, and its triples are the instances of its templates in each of
them, with blank nodes for its placeholders that no other solution has.  Nothing here speaks of
streams, batches or tasks.

An iterator function is deterministic if all its streams for some arguments give the same tuples
until they end, however they cut them into batches, and whether they end well or with an error.
-/

namespace TripleLoom

/-! ### Functions and documents -/

/-- The tuples that a stream gives until it ends or fails. -/
inductive TupleStream.Gives : TupleStream → List Tuple → Prop where
  | finished {s : TupleStream} (h : s.next = .finished) : Gives s []
  | failed {s : TupleStream} {e : FunctionError} (h : s.next = .failed e) : Gives s []
  | batch {s rest : TupleStream} {tuples : TupleBatch} {l : List Tuple}
    (h : s.next = .batch tuples rest) (hr : Gives rest l) : Gives s (tuples ++ l)

/-- What iterator functions produce of their arguments. -/
abbrev Production := Iri → List Term → List Tuple

/-- The iterator functions produce, in each of their invocations, what is given. -/
def FunctionRegistry.Produces (functions : FunctionRegistry) (produce : Production) : Prop :=
  ∀ name f, functions.iterator? name = some f → ∀ earlier arguments,
    match f earlier arguments with
    | .ok stream => ∀ tuples, stream.Gives tuples → tuples = produce name arguments
    | .error _ => produce name arguments = []

/-- The document of a URI: one in the accepted media type, or else any. -/
def Resolver.fetch? (resolver : Resolver) (uri : String) (accept : Option String) :
    Option Document :=
  match resolver uri accept, accept with
  | .found document, _ => some document
  | .missing, some _ =>
    match resolver uri none with
    | .found document => some document
    | .missing | .never => none
  | .missing, none | .never, _ => none

/-! ### Loops -/

section

variable (resolver : Resolver) (c : EvalContext) (produce : Production)

/-- The solutions that a clause makes of a solution. -/
def BindingClause.results (s : Solution) : BindingClause → List Solution
  | .bind e v => [s.bindValue v (e.value? c s)]
  | .source document accept v =>
    [s.bindValue v ((document.text? s).bind fun uri =>
      (resolver.fetch? uri (accept.bind (·.text? s) >>= mediaType?)).map Document.toTerm)]
  | .iterator name arguments vars =>
    match Expression.values? c s arguments with
    | none => []
    | some values => (produce name values).map (s.withTuple vars)

/-- The solutions that some clauses, one inside the other, make of a solution. -/
def nestedLoops : List BindingClause → Solution → List Solution
  | [], s => [s]
  | clause :: rest, s => (clause.results resolver c produce s).flatMap (nestedLoops rest)

end

/-- The expressions that a clause evaluates. -/
def BindingClause.expressions : BindingClause → List Expression
  | .bind e _ => [e]
  | .source .. => []
  | .iterator _ arguments _ => arguments

/-- Whether a clause can be run with some functions: its iterator function is known, and none of its
expressions calls `BNODE`. -/
def BindingClause.Runs (functions : FunctionRegistry) (clause : BindingClause) : Prop :=
  (∀ e ∈ clause.expressions, e.callsBnode = false) ∧
    match clause with
    | .iterator name .. => (functions.iterator? name).isSome = true
    | .bind .. | .source .. => True

theorem Expression.callBnode_eq_false {es : List Expression} :
    callBnode es = false ↔ ∀ e ∈ es, e.callsBnode = false := by
  induction es with
  | nil => simp [callBnode]
  | cons e rest ih => simp [callBnode, ih]

/-! ### Instances -/

/-- The term that a term of a template stands for, given the nodes of the labels. -/
def TemplateTerm.named? (naming : String → BlankNode) (s : Solution) : TemplateTerm → Option Term
  | .iri i => some (.iri i)
  | .blank b => some (.blank (naming b.label))
  | .literal l => some (.literal l)
  | .var v => s.get? v

/-- The triple that a template stands for, given the nodes of the labels. -/
def TripleTemplate.named? (naming : String → BlankNode) (s : Solution) (t : TripleTemplate) :
    Option Triple := do
  let subject ← t.subject.named? naming s
  let predicate ← t.predicate.named? naming s
  let object ← t.object.named? naming s
  Triple.ofTerms? subject predicate object

/-- The instances of some templates. -/
def instances (naming : String → BlankNode) (s : Solution) (templates : List TripleTemplate) :
    List Triple :=
  templates.filterMap (·.named? naming s)

/-- The label of a term of a template that is a placeholder. -/
def TemplateTerm.label? : TemplateTerm → Option String
  | .blank b => some b.label
  | .iri _ | .literal _ | .var _ => none

/-- The labels of the placeholders of a template. -/
def TripleTemplate.labels (t : TripleTemplate) : List String :=
  [t.subject, t.predicate, t.object].filterMap TemplateTerm.label?

/-- Solutions with nodes for some labels: fresh nodes, each for one label of one solution. -/
structure NamedApart (labels : List String) (named : List (Solution × (String → BlankNode))) :
    Prop where
  fresh : ∀ a ∈ named, ∀ l ∈ labels, ∃ n, a.2 l = .fresh n
  within : ∀ a ∈ named, ∀ l ∈ labels, ∀ l' ∈ labels, a.2 l = a.2 l' → l = l'
  across : named.Pairwise fun a b => ∀ l ∈ labels, ∀ l' ∈ labels, a.2 l ≠ b.2 l'

end TripleLoom
