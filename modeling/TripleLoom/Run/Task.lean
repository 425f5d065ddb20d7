import TripleLoom.Run.Clause
import TripleLoom.Run.Output

/-!
# TripleLoom.Run.Task — the work of a run

The work of a run is a tree of tasks.  A task runs a plan from one of its clauses on, or waits for
what it has asked for, or for the tasks below it: the branches of an iterator, one for each batch;
the queries and calls of a template, one for each solution; and the query inside a text.
`Task.act` is the next thing that a task itself does, up to the point where it has to wait again.
-/

namespace TripleLoom

/-- A plan and the context it runs in. -/
structure Frame where
  plan : Plan
  context : Context

/-- What the plan of a name is wanted for. -/
inductive Purpose where
  /-- To have it registered. -/
  | resolve
  /-- To run it for a solution of the caller; if it is to be run once, an equal call that was
  recorded stands for this one. -/
  | call (context : Context) (arguments : Option (List Expression)) (caller : Solution)
      (once : Bool)

/-- The solutions of a `GENERATE` form, each with the context of its own. -/
structure Generation where
  fork : Context
  contexts : List Context
  input : Sequence

/-- What the tasks below a `GENERATE` form are about. -/
inductive Stage where
  | idle
  /-- A query, for each solution. -/
  | nested
  /-- The plans of the names in some calls, which are made afterwards. -/
  | resolving (call : CallPlan) (calls : List (Iri × Solution))
  /-- Calls, after resolving their names with some outcome. -/
  | calling (resolved : Outcome)

/-- A `TEMPLATE` form at work. -/
structure Writing where
  context : Context
  plan : TemplatePlan
  /-- The variables that nested queries are given. -/
  input : Sequence
  isFirst : Bool
  /-- The solutions that are not yet written, the current one among them. -/
  solutions : List Solution
  /-- The text of the current solution so far and the parts still to come. -/
  current : Option (String × List TemplatePart)

/-- A piece of work. -/
inductive Task where
  | finished (outcome : Outcome)
  /-- To run the given clauses and what follows them in the plan. -/
  | clauses (frame : Frame) (nodes : List PlanNode) (input : Sequence)
  /-- To wait for the documents of a `SOURCE` clause. -/
  | fetching (frame : Frame) (nodes : List PlanNode) (name : Variable) (input : Sequence)
      (fetches : List Fetch)
  /-- To wait for the streams of an `ITERATOR` clause and for the branches of its batches. -/
  | iterating (frame : Frame) (nodes : List PlanNode) (iteration : Iteration)
      (branches : List Task) (error : Outcome)
  /-- To wait for a permit for the engine. -/
  | selecting (frame : Frame) (select : Select) (input : Sequence)
  /-- To wait for the engine. -/
  | evaluating (frame : Frame) (select : Select) (input : Sequence) (permit : Option Nat)
  /-- To bind what comes behind the select part, and to start the output. -/
  | assembling (frame : Frame) (input : Sequence)
  | generating (generation : Generation) (nodes : List PlanNode) (stage : Stage)
      (running : List Task) (error : Outcome)
  | writing (writing : Writing)
  /-- To wait for a query whose text goes into another text. -/
  | nesting (writing : Writing) (sink : SinkId) (inner : Task)
  /-- To find the plan of a name. -/
  | entering (name : Iri) (purpose : Purpose)
  /-- To wait for the document of a named query. -/
  | asking (name : Iri) (accept : Option String) (purpose : Purpose)

instance : Inhabited Task := ⟨.finished none⟩

namespace Task

/-- Whether a task is over. -/
def isFinished : Task → Bool
  | .finished _ => true
  | _ => false

/-- The outcome of a task that is over. -/
def outcome : Task → Outcome
  | .finished o => o
  | _ => none

/-- The first error of some tasks that are over. -/
def firstError (tasks : List Task) : Outcome := tasks.findSome? outcome

/-- The task that has failed. -/
def failed (e : RunError) : Task := .finished (some e)

/-- The task of running a plan for some solutions in a context. -/
def ofPlan (c : Context) (plan : Plan) (input : Sequence) : Task :=
  .clauses ⟨plan, c.withBase plan.base⟩ plan.bindings input

end Task

/-! ### Clauses and the select part -/

variable (setting : Setting)

/-- Goes on with the clauses of a plan. -/
def Frame.runClauses (f : Frame) (input : Sequence) : List PlanNode → RunM Task
  | .clause (.bind e v) :: rest => do
    return .clauses f rest (← f.context.bindAll setting.functions e v input)
  | .clause (.source document accept v) :: rest =>
    return .fetching f rest v (input.declare v)
      (input.solutions.map (Fetch.ofSolution document accept))
  | .clause (.iterator name arguments vars) :: rest => do
    match setting.functions.iterator? name with
    | none => return .failed (.unknownIteratorFunction name)
    | some function =>
      if (← get).isClosed then return .finished none
      else
        let iteration ← Iteration.start f.context setting.functions name function arguments
          vars input
        return .iterating f rest iteration [] none
  | node :: _ => return .failed (.unexpectedPlanNode node.kind)
  | [] =>
    match f.plan.select with
    | none => return .assembling f input
    | some (.select select) =>
      if setting.engine.isNone then return .failed .noGraphPatternEngine
      else return .selecting f select (if input.isEmpty then .unit else input)
    | some node => return .failed (.unexpectedPlanNode node.kind)

/-- Asks the engine, gives a permit back, and goes on with the solutions. -/
def Frame.evaluate (f : Frame) (select : Select) (input : Sequence) (permit : Option Nat) :
    RunM Task := do
  match setting.engine with
  | none => return .failed .noGraphPatternEngine
  | some engine =>
    let earlier := (← get).evaluations
    RunM.note (.evaluated select input)
    RunM.lifecycle fun l => ((), (permit.map l.release).getD l)
    match engine earlier select input with
    | .solutions result => return .assembling f result.restoreBlanks
    | .failed e => return .failed (.engine e)
    | .crashed => return .failed .breakdown

/-! ### Output -/

/-- The beginning of a `GENERATE` form. -/
def Frame.generate (f : Frame) (nodes : List PlanNode) (input : Sequence) : RunM Task := do
  let fork ← f.context.forkFor input.size
  let scopes ← RunM.scopes (·.children fork.scope input.size)
  return .generating ⟨fork, scopes.map fun scope => { fork with scope }, input⟩ nodes .idle [] none

/-- Starts the output of a plan. -/
def Frame.output (f : Frame) (input : Sequence) : RunM Task := do
  match f.plan.output with
  | .generate nodes => f.generate nodes input
  | .template (.template plan) =>
    return .writing ⟨f.context, plan, input, true, input.solutions, none⟩
  | .template node => return .failed (.unexpectedPlanNode node.kind)
  | .rows vars =>
    input.solutions.forM fun s => f.context.write (.solution (vars.getD input.vars) s)
    return .finished none

/-- Binds what comes behind the select part, and starts the output. -/
def Frame.assemble (f : Frame) (input : Sequence) : List PlanNode → RunM Task
  | .clause (.bind e v) :: rest => do
    f.assemble (← f.context.bindAll setting.functions e v input) rest
  | node :: _ => return .failed (.unexpectedPlanNode node.kind)
  | [] => f.output input

namespace Generation

/-- The solutions with their contexts. -/
def sites (g : Generation) : List (Context × Solution) := g.contexts.zip g.input.solutions

/-- Runs of a query for each solution, in the solution's own context. -/
def nestedRuns (g : Generation) (plan : Plan) : List Task :=
  g.sites.map fun (c, s) => .ofPlan c plan (g.input.withSolutions [s])

/-- The names to call and the solutions to call them for. -/
def calls (g : Generation) (call : CallPlan) : List (Iri × Solution) :=
  g.input.solutions.filterMap fun s => (call.name? s).map (·, s)

/-- Goes on with the elements of a form after those before them ended in some outcome. An element
that fails does not keep the others from being run. -/
def advance (g : Generation) (error : Outcome) : List PlanNode → RunM Task
  | [] => return .finished error
  | .triples plan :: rest => do
    plan.writeAll g.fork 0 g.sites
    return .generating g rest .idle [] error
  | .plan plan :: rest => return .generating g rest .nested (g.nestedRuns plan) error
  | .call call :: rest =>
    let calls := g.calls call
    return .generating g rest (.resolving call calls)
      ((calls.map (·.1)).eraseDups.map fun name => .entering name .resolve) error
  | node :: rest =>
    return .generating g rest .idle [] (error.or (some (.unexpectedPlanNode node.kind)))

/-- Goes on after all tasks below a form are over. -/
def collect (g : Generation) (nodes : List PlanNode) (running : List Task) (error : Outcome) :
    Stage → RunM Task
  | .idle => g.advance error nodes
  | .nested => return .generating g nodes .idle [] (error.or (Task.firstError running))
  | .resolving call calls =>
    return .generating g nodes (.calling (Task.firstError running))
      (calls.map fun (name, s) => .entering name (.call g.fork call.arguments s true)) error
  | .calling resolved =>
    return .generating g nodes .idle []
      (error.or (resolved.or (Task.firstError running)))

end Generation

namespace Writing

/-- Goes on with some more text and the parts behind it. -/
def resume (w : Writing) (text : String) (parts : List TemplatePart) : Task :=
  .writing { w with current := some (text, parts) }

/-- Goes on with a text: begins with a solution, writes one of its parts, or ends it. -/
def advance (w : Writing) : RunM Task := do
  match w.solutions, w.current with
  | [], _ => return .finished none
  | s :: _, none =>
    let opening := if w.isFirst then w.plan.before else w.plan.separator
    return w.resume (← w.context.textOf setting.functions opening s) w.plan.parts
  | s :: rest, some (text, []) =>
    let closing ← if rest.isEmpty then w.context.textOf setting.functions w.plan.after s
      else pure ""
    w.context.write (.text (text ++ closing))
    return .writing { w with isFirst := false, solutions := rest, current := none }
  | s :: _, some (text, .expression e :: parts) =>
    return w.resume (text ++ (← w.context.textOf setting.functions (some e) s)) parts
  | s :: _, some (text, .plan plan :: parts) =>
    let sink ← RunM.newSink
    return .nesting { w with current := some (text, parts) } sink
      (.ofPlan { w.context with sink } plan (w.input.withSolutions [s]))
  | s :: _, some (text, .call call :: parts) =>
    match call.name? s with
    | none => return w.resume text parts
    | some name =>
      let sink ← RunM.newSink
      return .nesting { w with current := some (text, parts) } sink
        (.entering name (.call { w.context with sink } call.arguments s false))

/-- Goes on after a query inside the text is over: its text is added, and its error ends all. -/
def collect (w : Writing) (sink : SinkId) (outcome : Outcome) : RunM Task := do
  match outcome with
  | some e => return .failed e
  | none =>
    let inner := (Collected.ofCalls ((← get).output sink)).text
    return .writing { w with current := w.current.map fun (text, parts) => (text ++ inner, parts) }

end Writing

/-! ### Named queries -/

/-- The bindings that a call gives to the parameters of a plan. Arguments without a value leave
their parameters unbound. -/
def Context.bindArguments (c : Context) (functions : FunctionRegistry) (caller : Solution) :
    List (Variable × Expression) → RunM (List (Variable × Term))
  | [] => return []
  | (v, e) :: rest => do
    match ← c.eval? functions e caller with
    | some value => return (v, value) :: (← c.bindArguments functions caller rest)
    | none => c.bindArguments functions caller rest

/-- The solution that a call runs a plan for, if the arguments fit the signature. -/
def Context.parameters (c : Context) (functions : FunctionRegistry) (name : Iri) (plan : Plan)
    (arguments : Option (List Expression)) (caller : Solution) :
    RunM (Except RunError Solution) := do
  match plan.signature, arguments with
  | none, none => return .ok .empty
  | none, some _ => return .error (.argumentsWithoutSignature name)
  | some _, none => return .error (.missingArguments name)
  | some signature, some arguments =>
    if signature.length ≠ arguments.length then
      return .error (.arityMismatch name signature.length arguments.length)
    else
      return .ok (.ofBindings (← c.bindArguments functions caller (signature.zip arguments)))

/-- The solution that a call runs a plan for holds the values of the arguments, if there are any. -/
theorem Context.of_parameters (c : Context) (functions : FunctionRegistry) (name : Iri)
    (plan : Plan) {arguments : Option (List Expression)} {caller u : Solution} {s : RunState}
    (h : (c.parameters functions name plan arguments caller s).1 = .ok u) :
    u = .empty ∨ ∃ signature es, plan.signature = some signature ∧ arguments = some es ∧
      u = .ofBindings (c.bindArguments functions caller (signature.zip es) s).1 := by
  unfold parameters at h
  cases hs : plan.signature with
  | none =>
    cases arguments with
    | none =>
      rw [hs] at h
      cases h
      exact .inl rfl
    | some es => rw [hs] at h; cases h
  | some signature =>
    cases arguments with
    | none => rw [hs] at h; cases h
    | some es =>
      rw [hs] at h
      dsimp only at h
      by_cases hlen : signature.length ≠ es.length
      · rw [if_pos hlen] at h
        cases h
      · rw [if_neg hlen] at h
        cases h
        exact .inr ⟨signature, es, rfl, rfl, rfl⟩

/-- Starts a plan for a call, in a scope of its own. -/
def Context.startCall (c : Context) (call : CallKey) (plan : Plan) (s : Solution) (once : Bool) :
    RunM Task := do
  RunM.note (.started call plan once)
  return .ofPlan (← c.inFreshScope) plan (.ofLists plan.parameters [s])

/-- Serves the purpose for which a plan was wanted. -/
def Purpose.serve (name : Iri) (plan : Plan) : Purpose → RunM Task
  | .resolve => return .finished none
  | .call c arguments caller once => do
    match ← c.parameters setting.functions name plan arguments caller with
    | .error e => return .failed e
    | .ok s =>
      let call := CallKey.ofSolution name plan.signature s
      if !once then c.startCall call plan s false
      else if ← RunM.recordCall call then c.startCall call plan s true
      else
        RunM.note (.skipped call)
        return .finished none

/-- The plan of a named query from its document. A query without a name gets the one it was
called by. -/
def Document.toPlan (d : Document) (name : Iri) : RunM (Except RunError Plan) := do
  match setting.parser with
  | none => return .error (.noQueryParser name)
  | some parser =>
    RunM.note (.parsed d.content (some name.text))
    match parser d.content (some name.text) with
    | .error e => return .error (.parse e)
    | .ok query =>
      match Plan.ofQuery? { query with name := query.name.or (some name) } with
      | .error e => return .error (.plan e)
      | .ok plan => return .ok plan

/-- Looks a name up, and asks for its document if it is not registered. -/
def Purpose.enter (p : Purpose) (name : Iri) : RunM Task := do
  match (← get).registry.get? name with
  | some plan => p.serve setting name plan
  | none =>
    RunM.note (.opened name.text setting.queryMediaType)
    return .asking name setting.queryMediaType p

/-- Goes on after asking for the document of a name. One that is not found in the accepted media
type is asked for once more without one. -/
def Purpose.receive (p : Purpose) (name : Iri) (accept : Option String) : RunM Task := do
  match setting.resolver name.text accept, accept with
  | .found document, _ =>
    match ← document.toPlan setting name with
    | .error e => return .failed e
    | .ok plan => p.serve setting name (← RunM.register name plan)
  | .missing, some _ =>
    RunM.note (.opened name.text none)
    return .asking name none p
  | .missing, none => return .failed (.queryNotFound name)
  | .never, _ => return .asking name accept p

/-! ### Acting -/

namespace Task

/-- Whether a task itself can go on. -/
def isReady (s : RunState) : Task → Bool
  | .finished _ => false
  | .clauses .. | .evaluating .. | .assembling .. | .writing _ | .entering .. => true
  | .fetching _ _ _ _ fetches => fetches.all Fetch.isDone
  | .iterating _ _ i branches _ => i.isAudible s.isClosed || (!i.isListening && branches.isEmpty)
  | .selecting .. => s.isClosed || 0 < s.lifecycle.available
  | .generating _ _ _ running _ => running.all isFinished
  | .nesting _ _ inner => inner.isFinished
  | .asking name accept _ => setting.resolver name.text accept ≠ .never

/-- What a task does when it goes on. -/
def act : Task → RunM Task
  | .finished o => return .finished o
  | .clauses f nodes input => f.runClauses setting input nodes
  | .fetching f nodes _ input fetches =>
    return .clauses f nodes (input.withSolutions (fetches.map Fetch.solution))
  | .iterating f nodes i branches error => do
    if i.isAudible (← get).isClosed then
      let (sequences, i) := i.hear.takeSequences f.plan.select.isSome
      return .iterating f nodes i (branches ++ sequences.map (.clauses f nodes)) error
    else return .finished error
  | .selecting f select input => do
    match ← RunM.lifecycle Lifecycle.acquire with
    | .granted permit => return .evaluating f select input (some permit)
    | .pending => return .selecting f select input
    | .refused => return .evaluating f select input none
  | .evaluating f select input permit => f.evaluate setting select input permit
  | .assembling f input => f.assemble setting input f.plan.postSelect
  | .generating g nodes stage running error => g.collect nodes running error stage
  | .writing w => w.advance setting
  | .nesting w sink inner => w.collect sink inner.outcome
  | .entering name purpose => purpose.enter setting name
  | .asking name accept purpose => purpose.receive setting name accept

end Task

end TripleLoom
