import TripleLoom.Run.Move

/-!
# TripleLoom.Run.Execution — a run from its start to its end

A run announces itself to its sink, does its work, and takes its leave of the sink, whatever came
of the work.  While it works it may be closed from outside, by a timeout or by hand; that stops
fetches and streams and no more, so what they gave is still worked up.
-/

namespace TripleLoom

/-- A run at work. -/
structure Run where
  context : Context
  task : Task
  state : RunState

/-- What moves a run: its own work, or a close from outside. -/
inductive RunMove where
  | close
  | work (move : Move)
  deriving DecidableEq, Repr, Inhabited

namespace Run

/-- Announces a plan to the sink: the start, the prefixes, and the base IRI. -/
def announce (c : Context) (plan : Plan) : RunM Unit := do
  c.write .start
  plan.prefixes.forM fun (name, iri) => c.write (.prefixName name iri)
  match plan.base with
  | some base => c.write (.base base.text)
  | none => return

/-- Registers a named plan and records its calls with the solutions of the input, so that a call
of the same kind does not run them again. -/
def enroll (plan : Plan) (input : Sequence) : RunM Unit := do
  match plan.name with
  | none => return
  | some name =>
    let registered ← RunM.register name plan
    input.solutions.forM fun s => do
      let call := CallKey.ofSolution name registered.signature s
      let _ ← RunM.recordCall call
      RunM.note (.started call plan false)

/-- The beginning of a run of a plan for some solutions. -/
def start (state : RunState) (plan : Plan) (input : Sequence) : Run :=
  let work : RunM Context := do
    let c ← RunM.newContext
    announce c plan
    enroll plan input
    return c
  let (context, state) := work state
  ⟨context, .ofPlan context plan input, state⟩

/-- Closes a run from outside. -/
def close (r : Run) : Run := { r with state := (RunM.close r.state).2 }

/-- Makes a move, if it can be made. -/
def step (setting : Setting) (r : Run) : RunMove → Option Run
  | .close => some r.close
  | .work move => do
    let (task, state) ← r.task.step setting move r.state
    return { r with task, state }

/-- Makes some moves one after the other, if they can all be made. -/
def replay (setting : Setting) (r : Run) : List RunMove → Option Run
  | [] => some r
  | move :: rest => do (← r.step setting move).replay setting rest

/-- Whether the work of a run is over. -/
def isOver (r : Run) : Bool := r.task.isFinished

/-- The state of a run after it took its leave. -/
def finish (r : Run) : RunState :=
  let work : RunM Unit := do
    r.context.write .finish
    RunM.close
  (work r.state).2

end Run

end TripleLoom
