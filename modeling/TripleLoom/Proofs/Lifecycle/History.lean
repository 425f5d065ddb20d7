import Mathlib.Data.List.Induction
import TripleLoom.Run.Context

/-!
# TripleLoom.Proofs.Lifecycle.History — what happens over the life of a run

A history is a list of steps towards the end of a run.  `happenings` reads off the steps alone what
happens in the run: which tasks run, which handles are registered, which guards are dropped, and
when closing begins and reaches the handles.  The lifecycle of the run is what these happenings make
of it, but for the tasks that wait (`Lifecycle.foldl_take_eq`), and the tags that were reported are
those of the tasks that ran (`Lifecycle.fired_concat`).
-/

namespace TripleLoom

/-! ### What happens in a run -/

/-- Something that happens in the life of a run. -/
inductive Happening where
  /-- A task runs and reports its tag. -/
  | ran (tag : String)
  /-- A handle is registered, the number of which is that of the handles before it. -/
  | registered
  /-- The guard of a handle is dropped. -/
  | dropped (handle : Nat)
  /-- Closing begins. -/
  | closing
  /-- Closing reaches the handles. -/
  | reached
  deriving DecidableEq, Repr

namespace Happening

/-- The tag of a task that runs. -/
def tag? : Happening → Option String
  | .ran tag => some tag
  | .registered | .dropped _ | .closing | .reached => none

end Happening

namespace CloseStep

/-- Whether a step closes the run. -/
def isClose : CloseStep → Bool
  | .close => true
  | .onClose _ | .registerHandle | .dropGuard _ => false

/-- The task that a step registers. -/
def task? : CloseStep → Option CloseTask
  | .onClose task => some task
  | .close | .registerHandle | .dropGuard _ => none

end CloseStep

mutual

/-- The tags that a task reports when it runs: its own one and then those of the tasks that it
registers, which run at once. -/
def CloseTask.tags : CloseTask → List String
  | .report tag steps => tag :: CloseStep.tagsAll steps

/-- The tags that some steps of a running task report. -/
def CloseStep.tagsAll : List CloseStep → List String
  | [] => []
  | .onClose task :: rest => task.tags ++ CloseStep.tagsAll rest
  | .close :: rest | .registerHandle :: rest | .dropGuard _ :: rest => CloseStep.tagsAll rest

end

mutual

/-- What happens when a task runs. -/
def CloseTask.happenings : CloseTask → List Happening
  | .report tag steps => .ran tag :: CloseStep.happeningsAll steps

/-- What happens when a running task takes some steps: a task that it registers runs, and closing
the run again does nothing. -/
def CloseStep.happeningsAll : List CloseStep → List Happening
  | [] => []
  | .close :: rest => CloseStep.happeningsAll rest
  | .onClose task :: rest => task.happenings ++ CloseStep.happeningsAll rest
  | .registerHandle :: rest => .registered :: CloseStep.happeningsAll rest
  | .dropGuard handle :: rest => .dropped handle :: CloseStep.happeningsAll rest

end

namespace Lifecycle

/-- The tasks that some steps register. -/
def tasksOf (steps : List CloseStep) : List CloseTask := steps.filterMap CloseStep.task?

/-- The tags that are reported at one more step behind others: those of all tasks registered so far
at the first close, and those of a task that is registered after it. -/
def tagsBehind (before : List CloseStep) : CloseStep → List String
  | .close => if before.any CloseStep.isClose then [] else (tasksOf before).flatMap CloseTask.tags
  | .onClose task => if before.any CloseStep.isClose then task.tags else []
  | .registerHandle | .dropGuard _ => []

/-- What happens at one more step behind others. -/
def happeningsBehind (before : List CloseStep) : CloseStep → List Happening
  | .close =>
    if before.any CloseStep.isClose then []
    else .closing :: (tasksOf before).flatMap CloseTask.happenings ++ [.reached]
  | .onClose task => if before.any CloseStep.isClose then task.happenings else []
  | .registerHandle => [.registered]
  | .dropGuard handle => [.dropped handle]

/-- What happens at some steps behind others. -/
def happeningsAfter (before : List CloseStep) : List CloseStep → List Happening
  | [] => []
  | step :: rest => happeningsBehind before step ++ happeningsAfter (before ++ [step]) rest

/-- What happens at the steps of a run, in order. -/
def happenings (steps : List CloseStep) : List Happening := happeningsAfter [] steps

theorem happeningsAfter_concat (step : CloseStep) : ∀ before steps : List CloseStep,
    happeningsAfter before (steps ++ [step]) =
      happeningsAfter before steps ++ happeningsBehind (before ++ steps) step
  | before, [] => by simp [happeningsAfter]
  | before, first :: rest => by
    rw [List.cons_append, happeningsAfter, happeningsAfter, happeningsAfter_concat step,
      List.append_assoc, List.append_assoc, List.singleton_append]

theorem happenings_concat (steps : List CloseStep) (step : CloseStep) :
    happenings (steps ++ [step]) = happenings steps ++ happeningsBehind steps step :=
  happeningsAfter_concat step [] steps

/-! ### What the happenings make of a lifecycle -/

/-- A lifecycle after something happened in the run. -/
def observe (l : Lifecycle) : Happening → Lifecycle
  | .ran tag => { l with fired := l.fired ++ [tag] }
  | .registered => l.registerHandle.2
  | .dropped handle => l.dropGuard handle
  | .closing => { l with closed := true }
  | .reached => l.abortGuarded

/-- A lifecycle after a step from outside. -/
def take (l : Lifecycle) : CloseStep → Lifecycle
  | .close => l.close
  | .onClose task => l.onClose task
  | .registerHandle => l.registerHandle.2
  | .dropGuard handle => l.dropGuard handle

mutual

theorem runTask_eq : ∀ (task : CloseTask) (l : Lifecycle),
    l.runTask task = task.happenings.foldl observe l
  | .report tag steps, l => by
    unfold runTask CloseTask.happenings
    rw [List.foldl_cons]
    exact runSteps_eq steps _

theorem runSteps_eq : ∀ (steps : List CloseStep) (l : Lifecycle),
    l.runSteps steps = (CloseStep.happeningsAll steps).foldl observe l
  | [], l => by
    unfold runSteps CloseStep.happeningsAll
    rfl
  | .close :: rest, l => by
    unfold runSteps CloseStep.happeningsAll
    exact runSteps_eq rest l
  | .onClose task :: rest, l => by
    unfold runSteps CloseStep.happeningsAll
    rw [List.foldl_append, ← runTask_eq task l]
    exact runSteps_eq rest _
  | .registerHandle :: rest, l => by
    unfold runSteps CloseStep.happeningsAll
    rw [List.foldl_cons]
    exact runSteps_eq rest _
  | .dropGuard handle :: rest, l => by
    unfold runSteps CloseStep.happeningsAll
    rw [List.foldl_cons]
    exact runSteps_eq rest _

end

theorem runTasks_eq : ∀ (tasks : List CloseTask) (l : Lifecycle),
    tasks.foldl runTask l = (tasks.flatMap CloseTask.happenings).foldl observe l
  | [], _ => rfl
  | task :: rest, l => by
    rw [List.foldl_cons, List.flatMap_cons, List.foldl_append, runTasks_eq rest, runTask_eq]

/-- Nothing that happens depends on the tasks that wait. -/
theorem foldl_observe_waiting (waiting : List CloseTask) : ∀ (es : List Happening) (l : Lifecycle),
    es.foldl observe { l with waiting } = { es.foldl observe l with waiting }
  | [], _ => rfl
  | e :: es, l => by
    have hstep : observe { l with waiting } e = { observe l e with waiting } := by
      cases e <;> rfl
    rw [List.foldl_cons, List.foldl_cons, hstep, foldl_observe_waiting waiting es]

theorem waiting_foldl_observe : ∀ (es : List Happening) (l : Lifecycle),
    (es.foldl observe l).waiting = l.waiting
  | [], _ => rfl
  | e :: es, l => by
    rw [List.foldl_cons, waiting_foldl_observe es]
    cases e <;> rfl

theorem eq_with_waiting {l : Lifecycle} {waiting : List CloseTask} (h : l.waiting = waiting) :
    l = { l with waiting } := by
  subst h
  rfl

/-- The tasks that wait after some steps: all that were registered, until the run is closed. -/
def waitingAfter (steps : List CloseStep) : List CloseTask :=
  if steps.any CloseStep.isClose then [] else tasksOf steps

theorem waitingAfter_concat (steps : List CloseStep) (step : CloseStep) :
    waitingAfter (steps ++ [step]) =
      if steps.any CloseStep.isClose || step.isClose then []
      else tasksOf steps ++ step.task?.toList := by
  have htask : tasksOf [step] = step.task?.toList := by
    cases step <;> rfl
  rw [waitingAfter, List.any_append, List.any_cons, List.any_nil, Bool.or_false, ← htask]
  exact if_congr Iff.rfl rfl List.filterMap_append

/-! ### The permits -/

/-- Lifecycles that differ neither in their permits nor in whether they are closed. -/
def SamePermits (l l' : Lifecycle) : Prop :=
  l'.closed = l.closed ∧ l'.permits = l.permits ∧ l'.available = l.available

theorem SamePermits.trans {l l' l'' : Lifecycle} (h : l.SamePermits l') (h' : l'.SamePermits l'') :
    l.SamePermits l'' := ⟨h'.1.trans h.1, h'.2.1.trans h.2.1, h'.2.2.trans h.2.2⟩

mutual

/-- A task for the end of a run has no part in the permits. -/
theorem samePermits_runTask (l : Lifecycle) : ∀ task, l.SamePermits (l.runTask task)
  | .report tag steps => by
    have h : l.SamePermits { l with fired := l.fired ++ [tag] } := ⟨rfl, rfl, rfl⟩
    exact h.trans (samePermits_runSteps _ steps)

theorem samePermits_runSteps (l : Lifecycle) : ∀ steps, l.SamePermits (l.runSteps steps)
  | [] => ⟨rfl, rfl, rfl⟩
  | .close :: rest => samePermits_runSteps l rest
  | .onClose task :: rest => (samePermits_runTask l task).trans (samePermits_runSteps _ rest)
  | .registerHandle :: rest => by
    have h : l.SamePermits l.registerHandle.2 := ⟨rfl, rfl, rfl⟩
    exact h.trans (samePermits_runSteps _ rest)
  | .dropGuard handle :: rest => by
    have h : l.SamePermits (l.dropGuard handle) := ⟨rfl, rfl, rfl⟩
    exact h.trans (samePermits_runSteps _ rest)

end

theorem samePermits_close {l : Lifecycle} (h : l.closed = false) :
    SamePermits { l with closed := true, waiting := [] } l.close := by
  have hall : ∀ (tasks : List CloseTask) (l : Lifecycle),
      l.SamePermits (tasks.foldl runTask l) := by
    intro tasks
    induction tasks with
    | nil => exact fun _ => ⟨rfl, rfl, rfl⟩
    | cons task rest ih => exact fun l => (samePermits_runTask l task).trans (ih _)
  unfold close
  rw [if_neg (by simp [h])]
  exact (hall l.waiting _).trans ⟨rfl, rfl, rfl⟩

/-! ### The lifecycle of a history -/

variable {limit : Nat}

theorem closed_take (l : Lifecycle) (step : CloseStep) :
    (l.take step).closed = (l.closed || step.isClose) := by
  cases step with
  | close =>
    rw [take]
    cases h : l.closed with
    | false => exact (samePermits_close h).1
    | true =>
      rw [close, if_pos h]
      exact h
  | onClose task =>
    rw [take, onClose, CloseStep.isClose, Bool.or_false]
    split
    · exact (samePermits_runTask l task).1
    · rfl
  | registerHandle | dropGuard => exact (Bool.or_false _).symm

theorem closed_foldl_take (steps : List CloseStep) :
    (steps.foldl take (start limit)).closed = steps.any CloseStep.isClose := by
  induction steps using List.reverseRecOn with
  | nil => rfl
  | append_singleton steps step ih =>
    rw [List.foldl_append, List.foldl_cons, List.foldl_nil, closed_take, ih, List.any_append,
      List.any_cons, List.any_nil, Bool.or_false]

/-- One more step makes happen what the steps before it call for. -/
theorem take_eq {l : Lifecycle} {before : List CloseStep}
    (hclosed : l.closed = before.any CloseStep.isClose) (hwaiting : l.waiting = waitingAfter before)
    (step : CloseStep) : l.take step =
      { (happeningsBehind before step).foldl observe l with
        waiting := waitingAfter (before ++ [step]) } := by
  rw [waitingAfter_concat]
  unfold waitingAfter at hwaiting
  cases hbefore : before.any CloseStep.isClose with
  | true =>
    rw [hbefore] at hclosed hwaiting
    rw [Bool.true_or, if_pos rfl]
    cases step with
    | close =>
      rw [take, close, if_pos hclosed, happeningsBehind, if_pos hbefore]
      exact eq_with_waiting hwaiting
    | onClose task =>
      rw [take, onClose, if_pos hclosed, happeningsBehind, if_pos hbefore, runTask_eq]
      exact eq_with_waiting ((waiting_foldl_observe _ l).trans hwaiting)
    | registerHandle | dropGuard => exact eq_with_waiting hwaiting
  | false =>
    have hopen : ¬before.any CloseStep.isClose = true := by simp [hbefore]
    rw [hbefore] at hclosed hwaiting
    have hl : ¬l.closed = true := by simp [hclosed]
    rw [Bool.false_or]
    cases step with
    | close =>
      rw [take, close, if_neg hl, happeningsBehind, if_neg hopen, hwaiting, runTasks_eq,
        List.foldl_append, List.foldl_cons]
      have hclosing : ({ l with closed := true, waiting := [] } : Lifecycle) =
          { observe l .closing with waiting := [] } := rfl
      rw [hclosing, foldl_observe_waiting]
      rfl
    | onClose task =>
      rw [take, onClose, if_neg hl, happeningsBehind, if_neg hopen, hwaiting]
      rfl
    | registerHandle | dropGuard =>
      exact eq_with_waiting (hwaiting.trans (List.append_nil _).symm)

/-- A lifecycle is what the happenings make of it, and lets the tasks wait that were registered
before it was closed. -/
theorem foldl_take_eq (steps : List CloseStep) :
    steps.foldl take (start limit) =
      { (happenings steps).foldl observe (start limit) with waiting := waitingAfter steps } := by
  induction steps using List.reverseRecOn with
  | nil => rfl
  | append_singleton steps step ih =>
    have hwaiting : (steps.foldl take (start limit)).waiting = waitingAfter steps := by rw [ih]
    rw [List.foldl_append, List.foldl_cons, List.foldl_nil,
      take_eq (closed_foldl_take steps) hwaiting step, happenings_concat, List.foldl_append, ih,
      foldl_observe_waiting]

/-! ### The tasks that ran -/

mutual

theorem tags_happenings : ∀ task : CloseTask, task.happenings.filterMap Happening.tag? = task.tags
  | .report tag steps => by
    unfold CloseTask.happenings CloseTask.tags
    exact congrArg (tag :: ·) (tags_happeningsAll steps)

theorem tags_happeningsAll : ∀ steps : List CloseStep,
    (CloseStep.happeningsAll steps).filterMap Happening.tag? = CloseStep.tagsAll steps
  | [] => by
    unfold CloseStep.happeningsAll CloseStep.tagsAll
    rfl
  | .onClose task :: rest => by
    unfold CloseStep.happeningsAll CloseStep.tagsAll
    rw [List.filterMap_append, tags_happenings task, tags_happeningsAll rest]
  | .close :: rest | .registerHandle :: rest | .dropGuard _ :: rest => by
    unfold CloseStep.happeningsAll CloseStep.tagsAll
    exact tags_happeningsAll rest

end

theorem tags_happeningsBehind (before : List CloseStep) (step : CloseStep) :
    (happeningsBehind before step).filterMap Happening.tag? = tagsBehind before step := by
  cases step with
  | close =>
    rw [happeningsBehind, tagsBehind]
    split
    · rfl
    · rw [List.cons_append, List.filterMap_cons_none rfl, List.filterMap_append,
        List.filterMap_flatMap]
      simp only [tags_happenings]
      exact List.append_nil _
  | onClose task =>
    rw [happeningsBehind, tagsBehind]
    split
    · exact tags_happenings task
    · rfl
  | registerHandle | dropGuard => rfl

theorem fired_foldl_observe : ∀ (es : List Happening) (l : Lifecycle),
    (es.foldl observe l).fired = l.fired ++ es.filterMap Happening.tag?
  | [], l => (List.append_nil _).symm
  | e :: es, l => by
    rw [List.foldl_cons, fired_foldl_observe es]
    cases e with
    | ran tag => exact List.append_assoc _ _ _
    | registered | dropped | closing | reached => rfl

theorem fired_foldl_take (steps : List CloseStep) :
    (steps.foldl take (start limit)).fired = (happenings steps).filterMap Happening.tag? := by
  rw [foldl_take_eq]
  exact fired_foldl_observe _ _

theorem fired_concat (steps : List CloseStep) (step : CloseStep) :
    ((steps ++ [step]).foldl take (start limit)).fired =
      (steps.foldl take (start limit)).fired ++ tagsBehind steps step := by
  rw [fired_foldl_take, fired_foldl_take, happenings_concat, List.filterMap_append,
    tags_happeningsBehind]

theorem fired_of_open {steps : List CloseStep} (h : steps.any CloseStep.isClose = false) :
    (steps.foldl take (start limit)).fired = [] := by
  induction steps using List.reverseRecOn with
  | nil => rfl
  | append_singleton steps step ih =>
    rw [List.any_append, Bool.or_eq_false_iff, List.any_cons, List.any_nil, Bool.or_false] at h
    rw [fired_concat, ih h.1]
    cases step with
    | close => cases h.2
    | onClose => simp [tagsBehind, h.1]
    | registerHandle | dropGuard => rfl

end Lifecycle

end TripleLoom
