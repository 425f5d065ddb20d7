/-!
# TripleLoom.Lifecycle — closing a run

A run is open until it is closed for the first time.  Tasks that wait for its end run then, in the
order in which they were registered; what such a task does itself happens while the run is already
closed.  Work in progress is held by handles, which are aborted at the close unless their guard is
gone; and a limited number of permits is given out as long as the run is open.
-/

namespace TripleLoom

mutual

/-- A task for the end of a run: a tag to report, and what it then does. -/
inductive CloseTask where
  | report (tag : String) (steps : List CloseStep)

/-- What a running task does. -/
inductive CloseStep where
  | close
  | onClose (task : CloseTask)
  | registerHandle
  | dropGuard (handle : Nat)

end

instance : Inhabited CloseTask := ⟨.report "" []⟩

/-- A handle on work in progress: whether its guard is alive and whether it was aborted. -/
structure AbortHandle where
  guarded : Bool
  aborted : Bool
  deriving DecidableEq, Repr, Inhabited

/-- The state that decides what may still go on in a run. -/
structure Lifecycle where
  closed : Bool
  /-- The tasks that wait for the close, in the order of their registration. -/
  waiting : List CloseTask
  /-- The tags that tasks have reported, in order. -/
  fired : List String
  handles : Array AbortHandle
  /-- For every permit that was given out whether it is still held. -/
  permits : Array Bool
  /-- The number of permits that can be given out. -/
  available : Nat
  deriving Inhabited

namespace Lifecycle

/-- An open run with the given number of permits, which is at least one. -/
def start (limit : Nat) : Lifecycle := ⟨false, [], [], #[], #[], max 1 limit⟩

/-! ### Handles -/

/-- Registers a handle; in a closed run it is aborted at once. -/
def registerHandle (l : Lifecycle) : Nat × Lifecycle :=
  (l.handles.size, { l with handles := l.handles.push ⟨true, l.closed⟩ })

/-- Whether the guard of a handle is alive. -/
def isGuarded (l : Lifecycle) (handle : Nat) : Bool := (l.handles[handle]?).any (·.guarded)

/-- Drops the guard of a handle. -/
def dropGuard (l : Lifecycle) (handle : Nat) : Lifecycle :=
  { l with handles := l.handles.modify handle ({ · with guarded := false }) }

/-- Aborts the handles whose guards are alive. -/
def abortGuarded (l : Lifecycle) : Lifecycle :=
  { l with handles := l.handles.map fun h => { h with aborted := h.aborted || h.guarded } }

/-! ### Closing -/

mutual

/-- Runs a task in a closed run. -/
def runTask (l : Lifecycle) : CloseTask → Lifecycle
  | .report tag steps => runSteps { l with fired := l.fired ++ [tag] } steps

/-- Takes the steps of a task in a closed run. -/
def runSteps (l : Lifecycle) : List CloseStep → Lifecycle
  | [] => l
  | .close :: rest => runSteps l rest
  | .onClose task :: rest => runSteps (runTask l task) rest
  | .registerHandle :: rest => runSteps l.registerHandle.2 rest
  | .dropGuard handle :: rest => runSteps (l.dropGuard handle) rest

end

/-- Closes a run. Closing it again has no effect. -/
def close (l : Lifecycle) : Lifecycle :=
  if l.closed then l
  else (l.waiting.foldl runTask { l with closed := true, waiting := [] }).abortGuarded

/-- Registers a task for the close; in a closed run it runs at once. -/
def onClose (l : Lifecycle) (task : CloseTask) : Lifecycle :=
  if l.closed then l.runTask task else { l with waiting := l.waiting ++ [task] }

/-! ### Permits -/

/-- What comes of asking for a permit. -/
inductive Acquisition where
  | granted (permit : Nat)
  /-- All permits are given out. -/
  | pending
  /-- The run is closed. -/
  | refused
  deriving DecidableEq, Repr

/-- Asks for a permit. -/
def acquire (l : Lifecycle) : Acquisition × Lifecycle :=
  if l.closed then (.refused, l)
  else if l.available = 0 then (.pending, l)
  else (.granted l.permits.size,
    { l with permits := l.permits.push true, available := l.available - 1 })

/-- Whether a permit is held. -/
def isHeld (l : Lifecycle) (permit : Nat) : Bool := (l.permits[permit]?).getD false

/-- Gives a permit back. -/
def release (l : Lifecycle) (permit : Nat) : Lifecycle :=
  if l.isHeld permit then
    { l with permits := l.permits.setIfInBounds permit false, available := l.available + 1 }
  else l

end Lifecycle

end TripleLoom
