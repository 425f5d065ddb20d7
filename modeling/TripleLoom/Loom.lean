import TripleLoom.Run.Schedule

/-!
# TripleLoom.Loom — queries prepared, registered and run

A loom holds the services and options of all its runs and the queries registered on it.  Queries
are prepared from their abstract form or from their text, and are then run for some initial
solutions.
-/

namespace TripleLoom

/-- An error in the use of a loom. -/
inductive LoomError where
  | plan (error : PlanError)
  | parse (error : ParseError)
  | noQueryParser
  | unnamedQuery
  /-- Initial values were given for variables that the signature does not name. -/
  | invalidInitialValues (vars : List Variable)
  deriving DecidableEq, Repr

/-- The text of an error. -/
def LoomError.message : LoomError → String
  | .plan e => e.message
  | .parse e => e.message
  | .noQueryParser => "No query parser is configured"
  | .unnamedQuery => "Only named queries can be registered"
  | .invalidInitialValues vars =>
    "Invalid initial values: " ++ ", ".intercalate (vars.map Variable.display) ++
      " not part of the signature"

/-- The name of an error's kind. -/
def LoomError.kind : LoomError → String
  | .plan e => e.kind
  | .parse _ => "QueryParse"
  | .noQueryParser => "NoQueryParser"
  | .unnamedQuery => "UnnamedQuery"
  | .invalidInitialValues _ => "InvalidInitialValues"

/-- Services, options, and what the runs so far have left. -/
structure Loom where
  setting : Setting
  state : RunState
  /-- The number of events that were taken from the record. -/
  taken : Nat

/-- How a run is carried out. -/
structure Manner where
  agenda : Agenda
  /-- Whether the run is closed before its first move. -/
  closesAtOnce : Bool
  /-- Whether the run is closed by hand once it cannot go on. -/
  closesWhenIdle : Bool
  deriving Repr, Inhabited

/-- What comes of a run: its outcome, and the calls on its sink. -/
structure Report where
  outcome : Outcome
  calls : List SinkCall

namespace Loom

/-- A loom on which nothing is registered. -/
def ofSetting (setting : Setting) : Loom := ⟨setting, .start setting.maxConcurrency, 0⟩

/-- The names of the registered queries. -/
def names (l : Loom) : List Iri := l.state.registry.names

/-- Everything that happened since the last time, in order. -/
def takeEvents (l : Loom) : List Event × Loom :=
  ((l.state.record.take (l.state.record.length - l.taken)).reverse,
    { l with taken := l.state.record.length })

/-- The plan of a query. -/
def prepare (q : Query) : Except LoomError Plan := (Plan.ofQuery? q).mapError .plan

/-- The plan of the query that a text is. -/
def parse (l : Loom) (text : String) (base : Option String) : Except LoomError Plan × Loom :=
  match l.setting.parser with
  | none => (.error .noQueryParser, l)
  | some parser =>
    let plan := match parser text base with
      | .error e => .error (.parse e)
      | .ok q => prepare q
    (plan, { l with state := (RunM.note (.parsed text base) l.state).2 })

/-- Registers a plan unless its name is taken; gives the plan that has the name then. -/
def registerPlan (l : Loom) (name : Iri) (plan : Plan) : Plan × Loom :=
  let (plan, state) := RunM.register name plan l.state
  (plan, { l with state })

/-- Prepares a query and registers it under its name; gives the plan that has the name then. -/
def register (l : Loom) (q : Query) : Except LoomError Plan × Loom :=
  match q.name with
  | none => (.error .unnamedQuery, l)
  | some name =>
    match prepare q with
    | .error e => (.error e, l)
    | .ok plan =>
      let (plan, l) := l.registerPlan name plan
      (.ok plan, l)

/-- The declared variables of the initial solutions that a plan's signature does not name. -/
def strayVariables (plan : Plan) (initial : Sequence) : List Variable :=
  match plan.signature with
  | none => []
  | some signature => initial.vars.filter (· ∉ signature)

/-- The start of a run of a plan for some initial solutions. -/
def begin (l : Loom) (plan : Plan) (initial : Sequence) : Run :=
  .start (l.state.renew l.setting.maxConcurrency) plan initial

/-- The report of a run that is over, and the loom after it. -/
def conclude (l : Loom) (r : Run) : Report × Loom :=
  let state := r.finish
  (⟨r.task.outcome, state.output r.context.sink⟩, { l with state })

/-- Carries out a run of a plan in a manner, in at most as many moves as there is fuel. -/
def runPlan (l : Loom) (fuel : Nat) (m : Manner) (plan : Plan) (initial : Sequence) :
    Option (Report × Loom) :=
  let r := l.begin plan initial
  let r := if m.closesAtOnce then r.close else r
  (r.carryOut l.setting (m.closesWhenIdle || l.setting.timeout.isSome) fuel m.agenda).map
    l.conclude

/-- Runs a prepared query, if the initial solutions respect its signature. -/
def execute (l : Loom) (fuel : Nat) (m : Manner) (plan : Plan) (initial : Sequence) :
    Except LoomError (Option (Report × Loom)) :=
  match strayVariables plan initial with
  | [] => .ok (l.runPlan fuel m plan initial)
  | stray => .error (.invalidInitialValues stray)

end Loom

end TripleLoom
