import TripleLoom.Run.Context

/-!
# TripleLoom.Run.Output — triples, lists and texts of solutions

Every solution gets its instance of each triple, if the triple's terms are all bound and fit their
positions.  A list runs through all solutions of a fork: each solution contributes one node, whose
first value is the list's element and whose rest is the next solution's node.  A placeholder stands
for a blank node of the solution's own scope.
-/

namespace TripleLoom

/-- The term that a term of a template stands for in a solution. -/
def TemplateTerm.instantiate (c : Context) (s : Solution) : TemplateTerm → RunM (Option Term)
  | .iri i => return some (.iri i)
  | .blank b => return some (← c.mint b.label)
  | .literal l => return some (.literal l)
  | .var v => return s.get? v

/-- The triple that a template stands for in a solution. Its terms are found from the left up to
the first that is missing. -/
def TripleTemplate.instantiate (c : Context) (s : Solution) (t : TripleTemplate) :
    RunM (Option Triple) := do
  let some subject ← t.subject.instantiate c s | return none
  let some predicate ← t.predicate.instantiate c s | return none
  let some object ← t.object.instantiate c s | return none
  return Triple.ofTerms? subject predicate object

/-- The triple that leads to the first node of a list. -/
def ListTemplate.head (c : Context) (s : Solution) (node : Term) (t : ListTemplate) :
    RunM (Option Triple) := do
  let subject ← t.subject.instantiate c s
  let predicate ← t.predicate.instantiate c s
  match subject, predicate with
  | some subject, some predicate => return Triple.ofTerms? subject predicate node
  | _, _ => return none

/-- The triples that the solution at an index contributes to a list. -/
def ListTemplate.instantiate (fork c : Context) (index : Nat) (s : Solution) (t : ListTemplate) :
    RunM (List Triple) := do
  let nodes ← fork.listNodes t.id
  match nodes[index]?, nodes[index + 1]? with
  | some node, some next =>
    let head ← if index = 0 then t.head c s node else pure none
    let value ← t.element.instantiate c s
    let first := value.bind fun value => Triple.ofTerms? node (.iri (Iri.rdf "first")) value
    let rest := Triple.ofTerms? node (.iri (Iri.rdf "rest")) next
    return head.toList ++ first.toList ++ rest.toList
  | _, _ => return []

/-- The triples of the solution at an index, written into the fork's sink. -/
def TriplesPlan.writeOne (p : TriplesPlan) (fork c : Context) (index : Nat) (s : Solution) :
    RunM Unit := do
  p.triples.forM fun t => do
    match ← t.instantiate c s with
    | some triple => fork.write (.triple triple)
    | none => return
  p.lists.forM fun t => do
    (← t.instantiate fork c index s).forM fun triple => fork.write (.triple triple)

/-- The triples of some solutions with their contexts, from an index on. -/
def TriplesPlan.writeAll (p : TriplesPlan) (fork : Context) :
    Nat → List (Context × Solution) → RunM Unit
  | _, [] => return
  | index, (c, s) :: rest => do
    p.writeOne fork c index s
    p.writeAll fork (index + 1) rest

/-- The text of an optional expression in a solution: the lexical form if its value is a literal,
and nothing otherwise. -/
def Context.textOf (c : Context) (functions : FunctionRegistry) (e : Option Expression)
    (s : Solution) : RunM String := do
  match e with
  | none => return ""
  | some e =>
    match ← c.eval? functions e s with
    | some (.literal l) => return l.value
    | _ => return ""

/-- The name of the query to call for a solution, if it is an IRI. -/
def CallPlan.name? (p : CallPlan) (s : Solution) : Option Iri :=
  match p.name with
  | .iri i => some i
  | .var v => (s.get? v).bind Term.toIri?

end TripleLoom
