/-!
# TripleLoom.Batches — results of several inputs, grouped

Several inputs deliver results bit by bit.  The results of an input go to the earliest open batch
that still waits for it, or else to a new batch that waits for every input not yet finished.  A
batch closes once every input it waited for has delivered to it or finished.  Closed batches are
taken in the order in which they closed.
-/

namespace TripleLoom

variable {α : Type}

/-- A batch that still waits for inputs. -/
structure OpenBatch (α : Type) where
  id : Nat
  expected : List Nat
  contributors : List Nat
  items : List α
  deriving Repr

/-- A batch that waits for no input any more. -/
structure ClosedBatch (α : Type) where
  /-- Batches are numbered in the order in which they were opened. -/
  id : Nat
  /-- The inputs that delivered, in the order in which they did. -/
  contributors : List Nat
  items : List α
  deriving Repr

namespace OpenBatch

/-- A batch with nothing to wait for any more. -/
def close (b : OpenBatch α) : ClosedBatch α := ⟨b.id, b.contributors, b.items⟩

/-- A batch that has the results of one more input. -/
def deliver (b : OpenBatch α) (input : Nat) (items : List α) : OpenBatch α where
  id := b.id
  expected := b.expected.filter (· ≠ input)
  contributors := b.contributors ++ [input]
  items := b.items ++ items

/-- A batch that does not wait for an input any more. -/
def release (b : OpenBatch α) (input : Nat) : OpenBatch α :=
  { b with expected := b.expected.filter (· ≠ input) }

/-- Batches of which the first that waits for an input has its results, if one does. -/
def deliverFirst? (input : Nat) (items : List α) :
    List (OpenBatch α) → Option (List (OpenBatch α))
  | [] => none
  | b :: rest =>
    if input ∈ b.expected then some (b.deliver input items :: rest)
    else (deliverFirst? input items rest).map (b :: ·)

end OpenBatch

/-- The inputs that have not finished, the open batches in the order of their opening, the closed
ones not yet taken in the order of their closing, and the number of the next batch. -/
structure Batches (α : Type) where
  pending : List Nat
  opened : List (OpenBatch α)
  closed : List (ClosedBatch α)
  nextId : Nat
  deriving Repr

namespace Batches

/-- Batches for the given inputs. -/
def ofInputs (inputs : List Nat) : Batches α := ⟨inputs.eraseDups, [], [], 0⟩

/-- Closes the batches that wait for no input. -/
def closeReady (b : Batches α) : Batches α :=
  let (ready, opened) := b.opened.partition fun o => o.expected.isEmpty
  { b with opened, closed := b.closed ++ ready.map OpenBatch.close }

/-- Adds results of an input; those of an input that has finished are dropped. -/
def add (b : Batches α) (input : Nat) (items : List α) : Batches α :=
  if input ∈ b.pending then
    match OpenBatch.deliverFirst? input items b.opened with
    | some opened => closeReady { b with opened }
    | none =>
      closeReady { b with
        opened := b.opened ++ [(OpenBatch.mk b.nextId b.pending [] []).deliver input items]
        nextId := b.nextId + 1 }
  else b

/-- Marks an input as finished. -/
def complete (b : Batches α) (input : Nat) : Batches α :=
  if input ∈ b.pending then
    closeReady { b with
      pending := b.pending.filter (· ≠ input)
      opened := b.opened.map (·.release input) }
  else b

/-- Finishes all inputs and closes all open batches as they are. -/
def forceClose (b : Batches α) : Batches α :=
  { b with pending := [], opened := [], closed := b.closed ++ b.opened.map OpenBatch.close }

/-- The batches that closed since the last time, and the rest. -/
def takeClosed (b : Batches α) : List (ClosedBatch α) × Batches α :=
  (b.closed, { b with closed := [] })

/-- Whether every input has finished and no batch is open. -/
def isFinished (b : Batches α) : Bool := b.pending.isEmpty && b.opened.isEmpty

end Batches

end TripleLoom
