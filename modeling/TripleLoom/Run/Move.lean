import TripleLoom.Run.Task

/-!
# TripleLoom.Run.Move — the moves of a run

A move says which part of a tree of tasks goes on: the task itself, one of the fetches or streams
it waits for, or a task below it.  `Task.step` makes a move if that part can go on, so every way in
which concurrent work can interleave is a list of moves.
-/

namespace TripleLoom

/-- The part of a tree of tasks that goes on. -/
inductive Move where
  /-- The task itself. -/
  | here
  /-- The fetch or stream at an index. -/
  | item (index : Nat)
  /-- A part of the task below it at an index. -/
  | inside (index : Nat) (move : Move)
  deriving DecidableEq, Repr, Inhabited

namespace Task

variable (setting : Setting)

/-- Whether the fetch or stream at an index can go on. -/
def isItemReady (s : RunState) (index : Nat) : Task → Bool
  | .fetching _ _ _ _ fetches => Fetch.isReadyAt setting s.lifecycle fetches index
  | .iterating _ _ i _ _ => i.isReadyAt s.isClosed index
  | _ => false

/-- What a task is after the fetch or stream at an index went on. -/
def actItem (index : Nat) : Task → RunM Task
  | .fetching f nodes v input fetches => do
    match fetches[index]? with
    | some fetch =>
      return .fetching f nodes v input (fetches.set index (← fetch.advance setting.resolver v))
    | none => return .fetching f nodes v input fetches
  | .iterating f nodes i branches error =>
    return .iterating f nodes (i.tell index) branches error
  | t => return t

/-- The task below a task at an index. -/
def inside? (index : Nat) : Task → Option Task
  | .iterating _ _ _ branches _ => branches[index]?
  | .generating _ _ _ running _ => running[index]?
  | .nesting _ _ inner => if index = 0 then some inner else none
  | _ => none

/-- A task with another one below it at an index. A branch that is over is taken away, and its
error kept if it is the first. -/
def replaceInside (index : Nat) (inner : Task) : Task → Task
  | .iterating f nodes i branches error =>
    if inner.isFinished then
      .iterating f nodes i (branches.eraseIdx index) (error.or inner.outcome)
    else .iterating f nodes i (branches.set index inner) error
  | .generating g nodes stage running error =>
    .generating g nodes stage (running.set index inner) error
  | .nesting w sink _ => .nesting w sink inner
  | t => t

/-- Makes a move, if the part it names can go on. -/
def step : Move → Task → RunState → Option (Task × RunState)
  | .here, t, s => if t.isReady setting s then some (t.act setting s) else none
  | .item index, t, s =>
    if t.isItemReady setting s index then some (t.actItem setting index s) else none
  | .inside index move, t, s => do
    let inner ← t.inside? index
    let (inner, s) ← step move inner s
    return (replaceInside index inner t, s)

end Task

end TripleLoom
