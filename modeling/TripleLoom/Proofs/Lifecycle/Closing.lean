import TripleLoom.Proofs.Lifecycle.History

/-!
# TripleLoom.Proofs.Lifecycle.Closing — a run is closed once

What became of a handle is a matter of where it was registered among the happenings of the run: its
guard is alive until it is dropped, and it is aborted if closing has begun by then or reaches it with
its guard alive.  All contexts that are derived from one another share their lifecycle, so a history
of calls on them comes down to the steps among them (`World.closes_once`).
-/

namespace TripleLoom

/-! ### The handles -/

namespace AbortHandle

/-- The handle of a number after something happened in the run. -/
def observe (i : Nat) (h : AbortHandle) : Happening → AbortHandle
  | .dropped handle => if handle = i then { h with guarded := false } else h
  | .reached => { h with aborted := h.aborted || h.guarded }
  | .ran _ | .registered | .closing => h

variable {i : Nat}

/-- A guard is alive as long as nothing drops it. -/
theorem guarded_foldl_observe : ∀ {es : List Happening} {h : AbortHandle},
    (es.foldl (observe i) h).guarded = true ↔ h.guarded = true ∧ .dropped i ∉ es
  | [], h => by simp
  | e :: es, h => by
    rw [List.foldl_cons, guarded_foldl_observe, List.mem_cons, not_or]
    cases e with
    | dropped handle =>
      rw [observe, Happening.dropped.injEq]
      split
      · next heq => simp [heq]
      · next hne => simp [Ne.symm hne]
    | ran | registered | closing | reached => simp [observe]

/-- A handle is aborted when closing reaches it with its guard alive. -/
theorem aborted_foldl_observe : ∀ {es : List Happening} {h : AbortHandle},
    (es.foldl (observe i) h).aborted = true ↔ h.aborted = true ∨
      h.guarded = true ∧ ∃ kept rest, es = kept ++ .reached :: rest ∧ .dropped i ∉ kept
  | [], h => by simp
  | e :: es, h => by
    rw [List.foldl_cons, aborted_foldl_observe]
    -- what comes first either reaches the handle, or stands before what does
    have hlater : (∃ kept rest, e :: es = kept ++ .reached :: rest ∧ .dropped i ∉ kept) ↔
        e = .reached ∨ e ≠ .dropped i ∧
          ∃ kept rest, es = kept ++ .reached :: rest ∧ .dropped i ∉ kept := by
      constructor
      · rintro ⟨kept, rest, heq, hkept⟩
        cases kept with
        | nil => exact .inl (List.cons.inj heq).1
        | cons first kept =>
          obtain ⟨rfl, rfl⟩ := List.cons.inj heq
          rw [List.mem_cons, not_or] at hkept
          exact .inr ⟨Ne.symm hkept.1, kept, rest, rfl, hkept.2⟩
      · rintro (rfl | ⟨hne, kept, rest, rfl, hkept⟩)
        · exact ⟨[], es, rfl, fun h => nomatch h⟩
        · exact ⟨e :: kept, rest, rfl, fun h => (List.mem_cons.mp h).elim (hne ·.symm) hkept⟩
    rw [hlater]
    cases e with
    | dropped handle =>
      rw [observe]
      split
      · next heq => simp [heq]
      · next hne => simp [hne]
    | reached =>
      rw [observe, Bool.or_eq_true]
      constructor
      · rintro ((ha | hg) | ⟨hg, -⟩)
        · exact .inl ha
        · exact .inr ⟨hg, .inl rfl⟩
        · exact .inr ⟨hg, .inl rfl⟩
      · rintro (ha | ⟨hg, -⟩)
        · exact .inl (.inl ha)
        · exact .inl (.inr hg)
    | ran | registered | closing => simp [observe]

end AbortHandle

namespace Lifecycle

variable {limit i : Nat} {es before later : List Happening}

/-- Whether a handle was aborted. -/
def isAborted (l : Lifecycle) (handle : Nat) : Bool := (l.handles[handle]?).any (·.aborted)

/-- The handle of a number is registered behind some happenings and before others. -/
def Registers (es : List Happening) (i : Nat) (before later : List Happening) : Prop :=
  es = before ++ .registered :: later ∧ before.count .registered = i

theorem closed_foldl_observe : ∀ {es : List Happening} {l : Lifecycle},
    (es.foldl observe l).closed = true ↔ l.closed = true ∨ .closing ∈ es
  | [], l => by simp
  | e :: es, l => by
    rw [List.foldl_cons, closed_foldl_observe, List.mem_cons]
    cases e <;> simp [observe, registerHandle, dropGuard, abortGuarded]

theorem size_foldl_observe : ∀ (es : List Happening) (l : Lifecycle),
    (es.foldl observe l).handles.size = l.handles.size + es.count .registered
  | [], _ => rfl
  | e :: es, l => by
    rw [List.foldl_cons, size_foldl_observe es, List.count_cons]
    cases e with
    | registered => simp [observe, registerHandle, Nat.add_assoc, Nat.add_comm 1]
    | ran | dropped | closing | reached => simp [observe, dropGuard, abortGuarded]

theorem getElem?_observe (l : Lifecycle) (hi : i < l.handles.size) (e : Happening) :
    (l.observe e).handles[i]? = (l.handles[i]?).map (·.observe i e) := by
  cases e with
  | registered =>
    have hne : i ≠ l.handles.size := Nat.ne_of_lt hi
    simp [observe, registerHandle, AbortHandle.observe, Array.getElem?_push, hne]
  | dropped handle =>
    by_cases heq : handle = i <;>
      simp [observe, dropGuard, AbortHandle.observe, Array.getElem?_modify, heq]
  | reached => simp [observe, abortGuarded, AbortHandle.observe]
  | ran | closing => simp [observe, AbortHandle.observe]

theorem getElem?_foldl_observe : ∀ (es : List Happening) (l : Lifecycle), i < l.handles.size →
    (es.foldl observe l).handles[i]? = (l.handles[i]?).map fun h => es.foldl (·.observe i) h
  | [], l, _ => by simp
  | e :: es, l, hi => by
    have hnext : i < (l.observe e).handles.size := by
      have hsize := size_foldl_observe [e] l
      rw [List.foldl_cons, List.foldl_nil] at hsize
      omega
    rw [List.foldl_cons, getElem?_foldl_observe es _ hnext, getElem?_observe l hi, Option.map_map]
    rfl

theorem exists_registers : ∀ (es : List Happening) (i : Nat), i < es.count .registered →
    ∃ before later, Registers es i before later
  | e :: es, i, h => by
    by_cases he : e = .registered
    · subst he
      cases i with
      | zero => exact ⟨[], es, rfl, rfl⟩
      | succ i =>
        rw [List.count_cons_self] at h
        obtain ⟨before, later, rfl, hcount⟩ := exists_registers es i (Nat.lt_of_succ_lt_succ h)
        exact ⟨.registered :: before, later, rfl, by rw [List.count_cons_self, hcount]⟩
    · rw [List.count_cons_of_ne he] at h
      obtain ⟨before, later, rfl, hcount⟩ := exists_registers es i h
      exact ⟨e :: before, later, rfl, by rw [List.count_cons_of_ne he, hcount]⟩

/-- What became of a handle that was registered. -/
theorem getElem?_of_registers (h : Registers es i before later) :
    (es.foldl observe (start limit)).handles[i]? =
      some (later.foldl (·.observe i) ⟨true, (before.foldl observe (start limit)).closed⟩) := by
  obtain ⟨rfl, hcount⟩ := h
  have hsize : (before.foldl observe (start limit)).handles.size = i := by
    rw [size_foldl_observe, hcount]
    exact Nat.zero_add i
  have hnew : (observe (before.foldl observe (start limit)) .registered).handles[i]? =
      some ⟨true, (before.foldl observe (start limit)).closed⟩ := by
    rw [← hsize]
    exact Array.getElem?_push_size
  rw [List.foldl_append, List.foldl_cons, getElem?_foldl_observe, hnew]
  · rfl
  · rw [← hsize]
    simp [observe, registerHandle]

theorem exists_registers_of_any {p : AbortHandle → Bool}
    (h : ((es.foldl observe (start limit)).handles[i]?).any p = true) :
    ∃ before later, Registers es i before later := by
  rcases hi : (es.foldl observe (start limit)).handles[i]? with _ | handle
  · rw [hi] at h
    cases h
  · have hlt := (Array.getElem?_eq_some_iff.mp hi).1
    rw [size_foldl_observe] at hlt
    exact exists_registers es i (by simpa [start] using hlt)

/-- The guard of a handle is alive exactly if the handle was registered and nothing has dropped the
guard since. -/
theorem isGuarded_foldl_observe : (es.foldl observe (start limit)).isGuarded i = true ↔
    ∃ before later, Registers es i before later ∧ .dropped i ∉ later := by
  constructor
  · intro h
    obtain ⟨before, later, hreg⟩ := exists_registers_of_any h
    rw [isGuarded, getElem?_of_registers hreg] at h
    exact ⟨before, later, hreg, (AbortHandle.guarded_foldl_observe.mp h).2⟩
  · rintro ⟨before, later, hreg, hlater⟩
    rw [isGuarded, getElem?_of_registers hreg]
    exact AbortHandle.guarded_foldl_observe.mpr ⟨rfl, hlater⟩

/-- A handle was aborted exactly if it was registered after closing had begun or closing reached it
before anything dropped its guard. -/
theorem isAborted_foldl_observe : (es.foldl observe (start limit)).isAborted i = true ↔
    ∃ before later, Registers es i before later ∧ (.closing ∈ before ∨
      ∃ kept rest, later = kept ++ .reached :: rest ∧ .dropped i ∉ kept) := by
  have hclosed : ∀ before : List Happening,
      (before.foldl observe (start limit)).closed = true ↔ .closing ∈ before := fun before => by
    rw [closed_foldl_observe]
    exact or_iff_right Bool.false_ne_true
  constructor
  · intro h
    obtain ⟨before, later, hreg⟩ := exists_registers_of_any h
    rw [isAborted, getElem?_of_registers hreg] at h
    refine ⟨before, later, hreg, ?_⟩
    exact (AbortHandle.aborted_foldl_observe.mp h).imp (hclosed before).mp And.right
  · rintro ⟨before, later, hreg, h⟩
    rw [isAborted, getElem?_of_registers hreg]
    exact AbortHandle.aborted_foldl_observe.mpr (h.imp (hclosed before).mpr (⟨rfl, ·⟩))

end Lifecycle

/-! ### The contexts of a run -/

/-- A way to derive a context from another one. -/
inductive Derivation where
  | fork (size : Nat)
  | freshScope
  /-- The same context in the scope of another one. -/
  | scopeOf (other : Nat)
  | newSink
  | base (iri : Iri)
  deriving DecidableEq

/-- A call on the contexts of a run, which are numbered as they come. -/
inductive ContextCall where
  | derive (context : Nat) (how : Derivation)
  | step (context : Nat) (step : CloseStep)
  /-- Closes the run by the closer of a context. -/
  | closer (context : Nat)

/-- The step towards the end of the run that a call is. -/
def ContextCall.step? : ContextCall → Option CloseStep
  | .derive .. => none
  | .step _ s => some s
  | .closer _ => some .close

theorem ContextCall.steps_singleton (call : ContextCall) :
    [call].filterMap step? = call.step?.toList := by
  cases call <;> rfl

/-- The contexts of a run and the state that they share. -/
structure World where
  first : Context
  derived : List Context
  state : RunState

namespace World

/-- The context of a number; a number that no context has stands for the first one. -/
def context (w : World) (i : Nat) : Context := (w.first :: w.derived).getD i w.first

/-- Derives a context from another one. -/
def derive (w : World) (c : Context) : Derivation → RunM Context
  | .fork size => c.forkFor size
  | .freshScope => c.inFreshScope
  | .scopeOf other => pure { c with scope := (w.context other).scope }
  | .newSink => return { c with sink := ← RunM.newSink }
  | .base iri => pure (c.withBase (some iri))

/-- Makes a call. -/
def make (w : World) : ContextCall → World
  | .derive i how =>
    let (c, state) := w.derive (w.context i) how w.state
    { w with derived := w.derived ++ [c], state }
  | .step _ step => { w with state := (RunM.lifecycle (fun l => ((), l.take step)) w.state).2 }
  | .closer _ => { w with state := (RunM.close w.state).2 }

/-- A new run with its first context. -/
def new (limit : Nat) : World :=
  let (first, state) := RunM.newContext (.start limit)
  ⟨first, [], state⟩

/-- A new run after some calls. -/
def ofCalls (limit : Nat) (calls : List ContextCall) : World := calls.foldl make (new limit)

theorem lifecycle_make (w : World) (call : ContextCall) : (w.make call).state.lifecycle =
    call.step?.toList.foldl Lifecycle.take w.state.lifecycle := by
  cases call with
  | derive i how => cases how <;> rfl
  | step | closer => rfl

/-- The lifecycle of a run depends on the steps towards its end alone: neither on the contexts that
were derived, nor on those by which the steps were taken. -/
theorem lifecycle_ofCalls (limit : Nat) (calls : List ContextCall) :
    (ofCalls limit calls).state.lifecycle =
      (calls.filterMap ContextCall.step?).foldl Lifecycle.take (.start limit) := by
  induction calls using List.reverseRecOn with
  | nil => rfl
  | append_singleton calls call ih =>
    have hlast : ofCalls limit (calls ++ [call]) = (ofCalls limit calls).make call := by
      rw [ofCalls, List.foldl_append]
      rfl
    rw [hlast, lifecycle_make, ih, List.filterMap_append, List.foldl_append,
      ContextCall.steps_singleton]

/-- **A run is closed once.**  Take any calls on the contexts of a run, and what happens at the steps
among them.  No task runs as long as the run is open.  One more call lets the tasks run that the
steps before it call for, with the tasks that these register: at the first close all that were
registered, in the order of their registration, and after it one that is registered then.  Closing
the run again changes nothing.  A handle was aborted exactly if it was registered after closing had
begun, or closing reached it before its guard was dropped.  And the lifecycle is what the happenings
make of it, at each of which the guards that are alive are those of the handles that were registered
and not dropped since. -/
theorem closes_once (limit : Nat) (calls : List ContextCall) :
    let l := (ofCalls limit calls).state.lifecycle
    let steps := calls.filterMap ContextCall.step?
    let es := Lifecycle.happenings steps
    l.closed = steps.any CloseStep.isClose ∧
    (steps.any CloseStep.isClose = false → l.fired = []) ∧
    (∀ call, (ofCalls limit (calls ++ [call])).state.lifecycle.fired =
      l.fired ++ call.step?.toList.flatMap (Lifecycle.tagsBehind steps)) ∧
    (∀ call, call.step? = some .close → steps.any CloseStep.isClose = true →
      (ofCalls limit (calls ++ [call])).state.lifecycle = l) ∧
    (∀ i, l.isAborted i = true ↔ ∃ before later, Lifecycle.Registers es i before later ∧
      (.closing ∈ before ∨ ∃ kept rest, later = kept ++ .reached :: rest ∧ .dropped i ∉ kept)) ∧
    l = { es.foldl Lifecycle.observe (.start limit) with
          waiting := Lifecycle.waitingAfter steps } ∧
    ∀ seen, seen <+: es → ∀ i,
      (seen.foldl Lifecycle.observe (.start limit)).isGuarded i = true ↔
        ∃ before later, Lifecycle.Registers seen i before later ∧ .dropped i ∉ later := by
  intro l steps es
  have hl : l = steps.foldl Lifecycle.take (.start limit) := lifecycle_ofCalls limit calls
  have hlast : ∀ call, (ofCalls limit (calls ++ [call])).state.lifecycle =
      (steps ++ call.step?.toList).foldl Lifecycle.take (.start limit) := fun call => by
    rw [lifecycle_ofCalls, List.filterMap_append, ContextCall.steps_singleton]
  have hfold := @Lifecycle.foldl_take_eq limit steps
  refine ⟨?_, fun hopen => ?_, fun call => ?_, fun call hclose hclosed => ?_, fun i => ?_, ?_,
    fun seen _ i => Lifecycle.isGuarded_foldl_observe⟩
  · rw [hl, Lifecycle.closed_foldl_take]
  · rw [hl, Lifecycle.fired_of_open hopen]
  · rw [hlast, hl]
    cases call.step? with
    | none => simp
    | some step =>
      rw [Option.toList_some, Lifecycle.fired_concat, List.flatMap_singleton]
  · rw [hlast, hclose, hl, Option.toList_some, List.foldl_append, List.foldl_cons, List.foldl_nil,
      Lifecycle.take, Lifecycle.close, if_pos ((Lifecycle.closed_foldl_take steps).trans hclosed)]
  · rw [hl, hfold]
    exact Lifecycle.isAborted_foldl_observe
  · rw [hl, hfold]

/-- A task that closes the run again, drops the guard of the first handle, and registers a task of
its own and then a handle. -/
def busyTask : CloseTask :=
  .report "busy" [.close, .dropGuard 0, .onClose (.report "nested" []), .registerHandle]

/-- Two contexts with a task each, and two handles. -/
def busyCalls : List ContextCall :=
  [.derive 0 (.fork 2), .step 1 .registerHandle, .step 1 .registerHandle,
    .step 1 (.onClose busyTask), .derive 1 (.base ⟨"urn:base"⟩),
    .step 2 (.onClose (.report "plain" []))]

/-- Nothing runs before such a run is closed; closing it by a closer runs all tasks, and closing it
again nothing.  Of the handles that were there, the one whose guard a task drops on the way is not
aborted, and the one that a task registers is. -/
theorem closes_once_busy :
    (ofCalls 1 busyCalls).state.lifecycle.fired = [] ∧
      (ofCalls 1 (busyCalls ++ [.closer 0])).state.lifecycle.fired = ["busy", "nested", "plain"] ∧
      (ofCalls 1 (busyCalls ++ [.closer 0] ++ [.step 2 .close])).state.lifecycle =
        (ofCalls 1 (busyCalls ++ [.closer 0])).state.lifecycle ∧
      (ofCalls 1 (busyCalls ++ [.closer 0])).state.lifecycle.isAborted 2 = true ∧
      (ofCalls 1 (busyCalls ++ [.closer 0])).state.lifecycle.isAborted 0 = false := by
  obtain ⟨-, hopen, hnext, -⟩ := closes_once 1 busyCalls
  obtain ⟨-, -, -, hagain, haborted, -, -⟩ := closes_once 1 (busyCalls ++ [.closer 0])
  have hfired := hopen rfl
  refine ⟨hfired, ?_, hagain (.step 2 .close) rfl rfl, (haborted 2).mpr ?_, by decide +kernel⟩
  · rw [hnext, hfired]
    rfl
  · exact ⟨[.registered, .registered, .closing, .ran "busy", .dropped 0, .ran "nested"],
      [.ran "plain", .reached], ⟨rfl, rfl⟩, .inl (by decide)⟩

end World

end TripleLoom
