import TripleLoom.Run.Execution

/-!
# TripleLoom.Run.Schedule — the order in which a run is carried out

A run is carried out from the left: of all parts that can go on, the first in the tree does, and
before it does anything new a task hears what it was told.  The streams of some functions may be
paced: they tell their events in an order that is given for all of them, and only when nothing
else can go on.  A run that cannot go on at all is closed if that is allowed.
-/

namespace TripleLoom

/-- The pace of streams: the functions whose streams are paced, and by function and invocation the
order of the events that are still to be told. -/
structure Agenda where
  paced : List Iri
  order : List (Iri × Nat)
  deriving Repr, Inhabited

namespace Agenda

/-- The agenda that paces nothing. -/
def free : Agenda := ⟨[], []⟩

end Agenda

/-- The first fetch that can go on. -/
def Fetch.nextIndex? (setting : Setting) (l : Lifecycle) (fetches : List Fetch) : Option Nat :=
  let done := doneCount fetches
  ((List.range (max 1 setting.maxConcurrency)).map (done + ·)).find? fun index =>
    (fetches[index]?).any (·.isReady setting.resolver l)

/-- The first stream that is not paced and can go on. -/
def Iteration.nextIndex? (agenda : Agenda) (closed : Bool) (i : Iteration) : Option Nat :=
  if closed then none
  else i.feeds.findIdx? fun f => !(f.function ∈ agenda.paced) && f.isReady

/-- The stream of an invocation, if it can go on. -/
def Iteration.indexOf? (closed : Bool) (function : Iri) (invocation : Nat) (i : Iteration) :
    Option Nat :=
  if closed then none
  else i.feeds.findIdx? fun f =>
    f.function = function && f.invocation == invocation && f.isReady

namespace Task

variable (setting : Setting)

mutual

/-- The first part of a task that can go on, paced streams apart. -/
def nextMove? (agenda : Agenda) (s : RunState) : Task → Option Move
  | .iterating f nodes i branches error =>
    if isReady setting s (.iterating f nodes i branches error) then some .here
    else
      match nextBelow? agenda s 0 branches with
      | some move => some move
      | none => (i.nextIndex? agenda s.isClosed).map .item
  | .generating g nodes stage running error =>
    match nextBelow? agenda s 0 running with
    | some move => some move
    | none =>
      if isReady setting s (.generating g nodes stage running error) then some .here else none
  | .nesting w sink inner =>
    if isReady setting s (.nesting w sink inner) then some .here
    else (nextMove? agenda s inner).map (.inside 0)
  | .fetching f nodes v input fetches =>
    if isReady setting s (.fetching f nodes v input fetches) then some .here
    else (Fetch.nextIndex? setting s.lifecycle fetches).map .item
  | t => if t.isReady setting s then some .here else none

/-- The first part of some tasks that can go on, the first of which has the given index. -/
def nextBelow? (agenda : Agenda) (s : RunState) (index : Nat) : List Task → Option Move
  | [] => none
  | t :: rest =>
    match nextMove? agenda s t with
    | some move => some (.inside index move)
    | none => nextBelow? agenda s (index + 1) rest

end

mutual

/-- The move by which the stream of an invocation goes on. -/
def moveOf? (closed : Bool) (function : Iri) (invocation : Nat) : Task → Option Move
  | .iterating _ _ i branches _ =>
    match i.indexOf? closed function invocation with
    | some index => some (.item index)
    | none => moveBelow? closed function invocation 0 branches
  | .generating _ _ _ running _ => moveBelow? closed function invocation 0 running
  | .nesting _ _ inner => (moveOf? closed function invocation inner).map (.inside 0)
  | _ => none

/-- The move by which the stream of an invocation goes on in one of some tasks, the first of which
has the given index. -/
def moveBelow? (closed : Bool) (function : Iri) (invocation : Nat) (index : Nat) :
    List Task → Option Move
  | [] => none
  | t :: rest =>
    match moveOf? closed function invocation t with
    | some move => some (.inside index move)
    | none => moveBelow? closed function invocation (index + 1) rest

end

end Task

namespace Run

/-- The next move that the agenda has in its order, and the agenda behind it. What cannot be told
is passed over. -/
def nextPaced? (r : Run) (agenda : Agenda) : List (Iri × Nat) → Option (Move × Agenda)
  | [] => none
  | (function, invocation) :: rest =>
    match r.task.moveOf? r.state.isClosed function invocation with
    | some move => some (move, { agenda with order := rest })
    | none => r.nextPaced? agenda rest

/-- The next move of a run and the agenda behind it. A run that cannot go on is closed if that is
allowed. -/
def next? (setting : Setting) (closable : Bool) (agenda : Agenda) (r : Run) :
    Option (RunMove × Agenda) :=
  match r.task.nextMove? setting agenda r.state with
  | some move => some (.work move, agenda)
  | none =>
    match r.nextPaced? agenda agenda.order with
    | some (move, agenda) => some (.work move, agenda)
    | none => if closable && !r.state.isClosed then some (.close, agenda) else none

/-- Carries a run out to its end, in at most as many moves as there is fuel. -/
def carryOut (setting : Setting) (closable : Bool) : Nat → Agenda → Run → Option Run
  | 0, _, _ => none
  | fuel + 1, agenda, r =>
    if r.isOver then some r
    else
      match r.next? setting closable agenda with
      | none => none
      | some (move, agenda) =>
        match r.step setting move with
        | none => none
        | some r => carryOut setting closable fuel agenda r

end Run

end TripleLoom
