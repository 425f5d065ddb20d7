import TripleLoom.Expression.Eval
import TripleLoom.Lifecycle
import TripleLoom.Run.Error
import TripleLoom.Sink

/-!
# TripleLoom.Run.Context — where a piece of a run takes place

A context says into which sink a piece of a run writes, in which scope it names blank nodes, what
its base IRI is, and to which fork of the run it belongs.  Contexts are plain values.  What they
share is the state of the run: the scopes, the nodes of lists, the calls that were recorded, the
registered plans, the lifecycle, and the record of everything that happened.
-/

namespace TripleLoom

/-! ### Calls and plans -/

/-- A call of a named query, by its name and the values of its parameters. -/
structure CallKey where
  name : Iri
  parameters : List (Option Term)
  deriving DecidableEq, Repr

/-- The call that runs a plan for a solution. -/
def CallKey.ofSolution (name : Iri) (signature : Option (List Variable)) (s : Solution) :
    CallKey :=
  ⟨name, (signature.getD []).map s.get?⟩

/-- Plans by the names they are registered under. -/
structure QueryRegistry where
  plans : List (Iri × Plan)
  deriving Inhabited

namespace QueryRegistry

/-- The registry without plans. -/
def empty : QueryRegistry := ⟨[]⟩

/-- The plan of a name. -/
def get? (r : QueryRegistry) (name : Iri) : Option Plan := r.plans.lookup name

/-- Registers a plan unless its name is taken; gives the plan that has the name then. -/
def register (r : QueryRegistry) (name : Iri) (plan : Plan) : Plan × QueryRegistry :=
  match r.get? name with
  | some registered => (registered, r)
  | none => (plan, ⟨(name, plan) :: r.plans⟩)

/-- The names of all plans. -/
def names (r : QueryRegistry) : List Iri := r.plans.map (·.1)

/-- The number of plans. -/
def size (r : QueryRegistry) : Nat := r.plans.length

theorem get?_register (r : QueryRegistry) (name : Iri) (plan : Plan) :
    (r.register name plan).2.get? name = some (r.register name plan).1 := by
  unfold register
  split
  · next h => exact h
  · simp [get?]

end QueryRegistry

/-! ### The record -/

/-- The number of a sink: that of a run's own output, or of text gathered on the way. -/
abbrev SinkId := Nat

/-- Something that happened in a run. -/
inductive Event where
  | written (sink : SinkId) (call : SinkCall)
  | opened (uri : String) (accept : Option String)
  | parsed (text : String) (base : Option String)
  | invoked (function : Iri) (arguments : List Term)
  | evaluated (select : Select) (inline : Sequence)
  /-- A plan was started for a call: one of those that are made once, or any other. -/
  | started (call : CallKey) (plan : Plan) (once : Bool)
  /-- A call was left out because an equal one was recorded before. -/
  | skipped (call : CallKey)

namespace Event

/-- The call on a sink that an event is. -/
def writtenTo? (sink : SinkId) : Event → Option SinkCall
  | .written s call => if s = sink then some call else none
  | _ => none

/-- Whether an event is an invocation of a function. -/
def isInvocation (function : Iri) : Event → Bool
  | .invoked f _ => f == function
  | _ => false

/-- Whether an event is a call of the graph-pattern engine. -/
def isEvaluation : Event → Bool
  | .evaluated .. => true
  | _ => false

end Event

/-! ### State and contexts -/

/-- The state that all contexts of a run share. -/
structure RunState where
  scopes : Scopes
  /-- The nodes of the lists, by the fork and the list. -/
  lists : List ((Nat × Nat) × List Term)
  nextFork : Nat
  nextSink : Nat
  /-- The calls that were recorded. -/
  calls : List CallKey
  registry : QueryRegistry
  lifecycle : Lifecycle
  /-- Everything that happened, the newest first. -/
  record : List Event
  deriving Inhabited

/-- A computation on the state of a run. -/
abbrev RunM := StateM RunState

/-- Where a piece of a run takes place. -/
structure Context where
  sink : SinkId
  scope : ScopeId
  base : Option Iri
  fork : Nat
  /-- The number of solutions of the fork. -/
  size : Nat
  deriving Inhabited

namespace RunState

/-- A state in which nothing has happened. -/
def start (limit : Nat) : RunState := ⟨.empty, [], 0, 0, [], .empty, .start limit, []⟩

/-- The state for the next run: names, scopes and the record go on; calls and the lifecycle start
afresh. -/
def renew (s : RunState) (limit : Nat) : RunState :=
  { s with calls := [], lifecycle := .start limit }

/-- What was written into a sink, in order. -/
def output (s : RunState) (sink : SinkId) : List SinkCall :=
  (s.record.filterMap (·.writtenTo? sink)).reverse

/-- Whether the run is closed. -/
def isClosed (s : RunState) : Bool := s.lifecycle.closed

/-- The number of invocations of a function so far. -/
def invocations (s : RunState) (function : Iri) : Nat := s.record.countP (·.isInvocation function)

/-- The number of calls of the engine so far. -/
def evaluations (s : RunState) : Nat := s.record.countP (·.isEvaluation)

end RunState

namespace RunM

/-- Lets the scopes change. -/
def scopes {α : Type} (f : Scopes → α × Scopes) : RunM α := fun s =>
  let (a, scopes) := f s.scopes
  (a, { s with scopes })

/-- Lets the lifecycle change. -/
def lifecycle {α : Type} (f : Lifecycle → α × Lifecycle) : RunM α := fun s =>
  let (a, lifecycle) := f s.lifecycle
  (a, { s with lifecycle })

/-- Adds an event to the record. -/
def note (e : Event) : RunM Unit := modify fun s => { s with record := e :: s.record }

/-- A new sink. -/
def newSink : RunM SinkId := fun s => (s.nextSink, { s with nextSink := s.nextSink + 1 })

/-- A context of a new run that writes into a new sink. -/
def newContext : RunM Context := do
  let scope ← scopes Scopes.root
  let sink ← newSink
  fun s => (⟨sink, scope, none, s.nextFork, 1⟩, { s with nextFork := s.nextFork + 1 })

/-- Records a call; says whether it was new. -/
def recordCall (call : CallKey) : RunM Bool := fun s =>
  if call ∈ s.calls then (false, s) else (true, { s with calls := call :: s.calls })

/-- Registers a plan; gives the one that has the name then. -/
def register (name : Iri) (plan : Plan) : RunM Plan := fun s =>
  let (plan, registry) := s.registry.register name plan
  (plan, { s with registry })

/-- Closes the run. -/
def close : RunM Unit := modify fun s => { s with lifecycle := s.lifecycle.close }

end RunM

namespace Context

/-- A fork of a context for some solutions: it has a scope below the context's and lists of its
own. -/
def forkFor (c : Context) (size : Nat) : RunM Context := do
  let scope ← RunM.scopes (·.child c.scope)
  fun s => ({ c with scope, fork := s.nextFork, size }, { s with nextFork := s.nextFork + 1 })

/-- A context in a new scope without ancestors. -/
def inFreshScope (c : Context) : RunM Context :=
  return { c with scope := ← RunM.scopes Scopes.root }

/-- A context with the base IRI of a plan, if it has one. -/
def withBase (c : Context) (base : Option Iri) : Context := { c with base := base.or c.base }

/-- The nodes of a list in the context's fork: as many as the fork has solutions, and the empty
list. They are made when they are first asked for. -/
def listNodes (c : Context) (list : Nat) : RunM (List Term) := fun s =>
  match s.lists.lookup (c.fork, list) with
  | some nodes => (nodes, s)
  | none =>
    let (nodes, scopes) := s.scopes.allocateList c.size
    (nodes, { s with scopes, lists := ((c.fork, list), nodes) :: s.lists })

/-- The blank node of a label. -/
def mint (c : Context) (label : String) : RunM Term :=
  return .blank (← RunM.scopes (·.mint c.scope label))

/-- Writes into the context's sink. -/
def write (c : Context) (call : SinkCall) : RunM Unit := RunM.note (.written c.sink call)

/-- What the value of an expression depends on in a context. -/
def evalContext (c : Context) (functions : FunctionRegistry) : EvalContext :=
  ⟨functions, c.base, c.scope⟩

/-- The value of an expression in a context. -/
def eval? (c : Context) (functions : FunctionRegistry) (e : Expression) (s : Solution) :
    RunM (Option Term) :=
  RunM.scopes (e.eval (c.evalContext functions) s).run

/-- The values of some expressions in a context, none if one of them has none. -/
def evalAll? (c : Context) (functions : FunctionRegistry) (es : List Expression) (s : Solution) :
    RunM (Option (List Term)) :=
  RunM.scopes (Eval.each id (Expression.evalEach (c.evalContext functions) s es)).run

/-- Whether an expression holds in a context. -/
def holds? (c : Context) (functions : FunctionRegistry) (e : Expression) (s : Solution) :
    RunM (Option Bool) :=
  RunM.scopes (e.holds (c.evalContext functions) s).run

end Context

end TripleLoom
