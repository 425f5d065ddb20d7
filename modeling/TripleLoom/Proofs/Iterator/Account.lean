import Mathlib.Data.List.Nodup
import TripleLoom.Proofs.Batches.Closing
import TripleLoom.Proofs.Iterator.Chronicle
import TripleLoom.Proofs.Pipeline.Gathering

/-!
# TripleLoom.Proofs.Iterator.Account — what was told goes into the closed batches

An iteration makes calls on its batches: inputs without a stream are completed at once, and what is
heard later is added, completed or, at the end, force-closed.  `Recorded` ties the state of an
iteration to what was seen of it: the batches are those of a history whose accepted adds are what was
heard, and what was told is what was heard and what is still in the queue.  So a closed batch holds the
solutions of its round of what was told (`Recorded.items_eq`), and once nothing is listened to any
more the rounds of the closed batches are all there is (`Recorded.perm_told`).
-/

namespace TripleLoom

open RunM Batches

/-- A stream gives some batches and goes on. -/
inductive TupleStream.Yields : TupleStream → List TupleBatch → TupleStream → Prop where
  | nil (s : TupleStream) : Yields s [] s
  | batch {s next rest : TupleStream} {tuples : TupleBatch} {l : List TupleBatch}
    (h : s.next = .batch tuples next) (hr : Yields next l rest) : Yields s (tuples :: l) rest

theorem TupleStream.Yields.concat {s rest next : TupleStream} {tuples : TupleBatch}
    {l : List TupleBatch} (h : s.Yields l rest) (hn : rest.next = .batch tuples next) :
    s.Yields (l ++ [tuples]) next := by
  induction h with
  | nil s => exact .batch hn (.nil next)
  | batch hs _ ih => exact .batch hs (ih hn)

/-- Of several streams with inputs of their own one has an input that no other has. -/
theorem Feed.input_ne {before after : List Feed} {f g : Feed}
    (h : ((before ++ f :: after).map (·.input)).Nodup) (hg : g ∈ before ++ after) :
    g.input ≠ f.input := by
  rw [List.map_append, List.map_cons, List.nodup_middle, List.nodup_cons, ← List.map_append] at h
  exact fun heq => h.1 (heq ▸ List.mem_map_of_mem hg)

/-- What a stream tells, and the stream that is left after it: its next batch, or its end. -/
inductive Feed.Tells (f : Feed) : FeedEvent → Option TupleStream → Prop where
  | batch {stream rest : TupleStream} {tuples : TupleBatch} (hs : f.stream = some stream)
    (hn : stream.next = .batch tuples rest) : Tells f (.batch f.input tuples) (some rest)
  | done {stream : TupleStream} (hs : f.stream = some stream) (hn : stream.Gives []) :
    Tells f (.done f.input) none

theorem Feed.Tells.input_eq {f : Feed} {e : FeedEvent} {later : Option TupleStream}
    (h : f.Tells e later) {a : Nat × TupleBatch} (ha : a ∈ e.told?.toList) : a.1 = f.input := by
  cases h with
  | batch =>
    obtain rfl := List.mem_singleton.mp ha
    rfl
  | done => cases ha

/-- A stream that tells something has told from as far as it has got. -/
theorem Feed.Tells.yields {f : Feed} {e : FeedEvent} {later : Option TupleStream}
    (h : f.Tells e later) {first now : TupleStream} {told : List (Nat × TupleBatch)}
    (hyields : first.Yields ((addsOf f.input told).map (·.2)) now)
    (hnow : ∀ stream, f.stream = some stream → stream = now) :
    ∃ rest, first.Yields ((addsOf f.input told ++ addsOf f.input e.told?.toList).map (·.2)) rest ∧
      (∀ stream, later = some stream → stream = rest) ∧ (later = none → rest.Gives []) := by
  cases h with
  | @batch stream rest tuples hs hn =>
    obtain rfl := hnow stream hs
    have hone : addsOf f.input [(f.input, tuples)] = [(f.input, tuples)] := by simp [addsOf]
    refine ⟨rest, ?_, fun stream hstream => (Option.some.inj hstream).symm,
      fun hnone => by cases hnone⟩
    rw [FeedEvent.told?, Option.toList_some, hone, List.map_append]
    exact hyields.concat hn
  | @done stream hs hn =>
    obtain rfl := hnow stream hs
    refine ⟨stream, ?_, fun _ hstream => (by cases hstream), fun _ => hn⟩
    have hnone : addsOf f.input (FeedEvent.done f.input).told?.toList = [] := rfl
    rw [hnone, List.append_nil]
    exact hyields

theorem Iteration.exists_tells (i : Iteration) (index : Nat) : i.tell index = i ∨
    ∃ before f after e later, i.feeds = before ++ f :: after ∧ f.Tells e later ∧
      i.tell index = { i with
        feeds := before ++ { f with stream := later } :: after
        queue := i.queue ++ [e] } := by
  rcases i.tell_cases index with heq | ⟨before, f, after, stream, hfeeds, hs, hcase⟩
  · exact .inl heq
  · rcases hcase with ⟨tuples, rest, hn, heq⟩ | ⟨hn, heq⟩
    · exact .inr ⟨before, f, after, _, _, hfeeds, .batch hs hn, heq⟩
    · exact .inr ⟨before, f, after, _, _, hfeeds, .done hs hn, heq⟩

/-- All batches of tuples in the queue come from inputs that are pending. -/
theorem FeedEvent.Fit.mem_pending {queue : List FeedEvent} {pending : List Nat}
    (h : Fit pending queue) {a : Nat × TupleBatch} (ha : a ∈ queue.filterMap FeedEvent.told?) :
    a.1 ∈ pending := by
  induction queue generalizing pending with
  | nil => cases ha
  | cons e queue ih =>
    cases e with
    | batch input tuples =>
      rcases List.mem_cons.mp ha with rfl | ha
      · exact h.1
      · exact ih h.2 ha
    | done input => exact List.mem_of_mem_filter (ih h ha)

/-- An iterator function has given a stream for the values of some arguments in a solution. -/
def IteratorFunction.Answers (f : IteratorFunction) (c : Context) (functions : FunctionRegistry)
    (arguments : List Expression) (u : Solution) (stream : TupleStream) : Prop :=
  ∃ s values earlier, (c.evalAll? functions arguments u s).1 = some values ∧
    f earlier values = .ok stream

/-- An iterator function has given no stream in a solution: an argument has no value there, or the
function does not take the values. -/
inductive IteratorFunction.Refuses (f : IteratorFunction) (c : Context)
    (functions : FunctionRegistry) (arguments : List Expression) (u : Solution) : Prop where
  | unbound {s : RunState} (hv : (c.evalAll? functions arguments u s).1 = none) :
    Refuses f c functions arguments u
  | failed {s : RunState} {values : List Term} {earlier : Nat} {e : FunctionError}
    (hv : (c.evalAll? functions arguments u s).1 = some values) (hf : f earlier values = .error e) :
    Refuses f c functions arguments u

/-- An iterator clause of a plan, with the solutions that it is run for. -/
structure IteratorClause where
  setting : Setting
  frame : Frame
  /-- The nodes behind the clause. -/
  rest : List PlanNode
  name : Iri
  function : IteratorFunction
  arguments : List Expression
  vars : List Variable
  input : Sequence
  registered : setting.functions.iterator? name = some function

namespace IteratorClause

variable (P : IteratorClause)

/-- The task of running the clause. -/
def task : Task :=
  .clauses P.frame (.clause (.iterator P.name P.arguments P.vars) :: P.rest) P.input

/-- The task of going on with some solutions. -/
def branch (solutions : List Solution) : Task :=
  .clauses P.frame P.rest ((P.input.declareAll P.vars).withSolutions solutions)

/-- The solutions that a batch of tuples of an input makes of it. -/
def solutionsOf (a : Nat × TupleBatch) : List Solution :=
  match P.input.solutions[a.1]? with
  | some u => a.2.map (u.withTuple P.vars)
  | none => []

/-- The function has given a stream for an input. -/
def Gives (input : Nat) (stream : TupleStream) : Prop :=
  ∃ u, P.input.solutions[input]? = some u ∧
    P.function.Answers P.frame.context P.setting.functions P.arguments u stream

/-- The numbers of the inputs. -/
def inputs : List Nat := List.range P.input.size

end IteratorClause

/-! ### The beginning -/

namespace Iteration

/-- What there is after a function was invoked for some inputs, the first of which has the given
number: some inputs were completed at once, and the streams belong to others. -/
structure Invoked (answers : Solution → TupleStream → Prop) (refuses : Solution → Prop)
    (input : Nat) (rest : List Solution) (before : Batches Solution) (completed : List Nat)
    (feeds : List Feed) (after : Batches Solution) : Prop where
  batches : after = completed.foldl Batches.complete before
  le : ∀ k ∈ completed, input ≤ k
  nodup : (feeds.map (·.input)).Nodup
  invoked : ∀ k u, rest[k]? = some u → (∃ feed ∈ feeds, feed.input = input + k) ∨ refuses u
  feeds : ∀ feed ∈ feeds, feed.input ∉ completed ∧ ∃ k u stream, feed.input = input + k ∧
    rest[k]? = some u ∧ answers u stream ∧ feed.stream = some stream

section

variable {answers : Solution → TupleStream → Prop} {refuses : Solution → Prop} {input : Nat}
variable {u : Solution}
variable {rest : List Solution} {before after : Batches Solution} {completed : List Nat}
variable {feeds : List Feed}

/-- An input without a stream is completed at once. -/
theorem Invoked.skip
    (h : Invoked answers refuses (input + 1) rest (before.complete input) completed feeds after)
    (hrefuses : refuses u) :
    Invoked answers refuses input (u :: rest) before (input :: completed) feeds after where
  batches := h.batches
  le := List.forall_mem_cons.mpr ⟨Nat.le_refl _, fun k hk => Nat.le_of_succ_le (h.le k hk)⟩
  nodup := h.nodup
  feeds feed hfeed := by
    obtain ⟨hnot, k, v, stream, hk, hv⟩ := h.feeds feed hfeed
    refine ⟨?_, k + 1, v, stream, by omega, hv⟩
    rw [List.mem_cons, not_or]
    exact ⟨by omega, hnot⟩
  invoked k v hv := by
    cases k with
    | zero => exact .inr (Option.some.inj hv ▸ hrefuses)
    | succ k =>
      refine (h.invoked k v hv).imp_left fun ⟨feed, hfeed, heq⟩ => ⟨feed, hfeed, ?_⟩
      omega

/-- An input with a stream is left to it. -/
theorem Invoked.cons (h : Invoked answers refuses (input + 1) rest before completed feeds after)
    {feed : Feed} (hinput : feed.input = input) {stream : TupleStream}
    (hstream : feed.stream = some stream) (hanswers : answers u stream) :
    Invoked answers refuses input (u :: rest) before completed (feed :: feeds) after where
  batches := h.batches
  le k hk := Nat.le_of_succ_le (h.le k hk)
  nodup := by
    rw [List.map_cons, List.nodup_cons]
    refine ⟨fun hmem => ?_, h.nodup⟩
    obtain ⟨other, hother, heq⟩ := List.mem_map.mp hmem
    obtain ⟨-, k, -, -, hk, -⟩ := h.feeds other hother
    omega
  feeds := by
    refine List.forall_mem_cons.mpr
      ⟨⟨fun hmem => ?_, 0, u, stream, hinput, rfl, hanswers, hstream⟩, fun other hother => ?_⟩
    · have := h.le _ hmem
      omega
    · obtain ⟨hnot, k, v, stream, hk, hv⟩ := h.feeds other hother
      exact ⟨hnot, k + 1, v, stream, by omega, hv⟩
  invoked k v hv := by
    cases k with
    | zero => exact .inl ⟨feed, List.mem_cons_self, hinput⟩
    | succ k =>
      refine (h.invoked k v hv).imp_left fun ⟨other, hother, heq⟩ =>
        ⟨other, List.mem_cons_of_mem _ hother, ?_⟩
      omega

end

theorem exists_invoked (c : Context) (functions : FunctionRegistry) (name : Iri)
    (f : IteratorFunction) (arguments : List Expression) :
    ∀ (input : Nat) (rest : List Solution) (before : Batches Solution) (state : RunState),
      ∃ completed, Invoked (f.Answers c functions arguments) (f.Refuses c functions arguments) input
        rest before completed
        (invokeAll c functions name f arguments input rest before state).1.1
        (invokeAll c functions name f arguments input rest before state).1.2
  | input, [], before, state =>
    ⟨[], rfl, by simp, by simp [invokeAll, pure_apply], by simp, by simp [invokeAll, pure_apply]⟩
  | input, u :: rest, before, state => by
    have hskip := fun state : RunState =>
      exists_invoked c functions name f arguments (input + 1) rest (before.complete input) state
    simp only [invokeAll, bind_apply]
    cases hv : (c.evalAll? functions arguments u state).1 with
    | none =>
      obtain ⟨completed, h⟩ := hskip (c.evalAll? functions arguments u state).2
      exact ⟨_, h.skip (.unbound hv)⟩
    | some values =>
      simp only [bind_apply, get_apply]
      generalize RunState.invocations (c.evalAll? functions arguments u state).2 name = earlier
      cases hcall : f earlier values with
      | error e =>
        obtain ⟨completed, h⟩ := hskip
          (RunM.note (.invoked name values) (c.evalAll? functions arguments u state).2).2
        exact ⟨_, h.skip (.failed hv hcall)⟩
      | ok stream =>
        obtain ⟨completed, h⟩ := exists_invoked c functions name f arguments (input + 1) rest
          before (RunM.note (.invoked name values) (c.evalAll? functions arguments u state).2).2
        exact ⟨completed, h.cons rfl rfl ⟨state, values, earlier, hv, hcall⟩⟩

end Iteration

namespace Batches

variable {α : Type} {inputs : List Nat}

theorem accepted_complete (inputs completed : List Nat) :
    accepted inputs (completed.map (Call.complete (α := α))) = [] := by
  induction completed using List.reverseRecOn with
  | nil => rfl
  | append_singleton completed k ih =>
    rw [List.map_append, List.map_singleton, accepted_concat, ih]
    rfl

theorem Ledger.ofCalls_complete (inputs completed : List Nat) :
    ofCalls inputs (completed.map (Call.complete (α := α))) =
      ⟨completed.foldl Batches.complete (.ofInputs inputs), []⟩ := by
  induction completed using List.reverseRecOn with
  | nil => rfl
  | append_singleton completed k ih =>
    rw [List.map_append, List.map_singleton, ofCalls_concat, ih, List.foldl_append]
    rfl

/-- As long as nothing was added there are no batches. -/
theorem Ledger.Follows.all_eq_nil {calls : List (Call α)} {l : Ledger α}
    (h : Follows inputs calls l) (ha : accepted inputs calls = []) : l.all = [] := by
  have hnone : l.batches.nextId = 0 := by
    by_contra hne
    obtain ⟨input, hlt⟩ := h.exists_count 0 (by omega)
    rw [ha] at hlt
    exact absurd hlt (Nat.not_lt_zero _)
  have hids := h.ids
  rw [hnone] at hids
  exact List.map_eq_nil_iff.mp (List.perm_nil.mp hids)

end Batches

/-! ### The account -/

namespace IteratorClause

/-- The state of an iteration agrees with what was told and with the batches that have closed. -/
structure Recorded (P : IteratorClause) (told : List (Nat × TupleBatch))
    (closed : List (ClosedBatch Solution)) (i : Iteration) : Prop where
  vars : i.vars = P.vars
  input : i.input = P.input.declareAll P.vars
  /-- What was told was heard, and then accepted by the batches, or is still in the queue. -/
  history : ∃ calls heard, Ledger.ofCalls P.inputs calls = ⟨i.batches, closed⟩ ∧
    accepted P.inputs calls = heard.map (fun a => (a.1, P.solutionsOf a)) ∧
    told = heard ++ i.queue.filterMap FeedEvent.told?
  /-- Every stream is one of the function's for its input, and was told from as far as it has got, up
  to its end if it has got there. -/
  feeds : ∀ feed ∈ i.feeds, ∃ stream rest, P.Gives feed.input stream ∧
    stream.Yields ((addsOf feed.input told).map (·.2)) rest ∧
    (∀ later, feed.stream = some later → later = rest) ∧ (feed.stream = none → rest.Gives [])
  sources : ∀ a ∈ told, ∃ feed ∈ i.feeds, feed.input = a.1
  /-- Every input has a stream, if the function has not refused it. -/
  invoked : ∀ k u, P.input.solutions[k]? = some u → (∃ feed ∈ i.feeds, feed.input = k) ∨
    P.function.Refuses P.frame.context P.setting.functions P.arguments u

variable {P : IteratorClause} {told : List (Nat × TupleBatch)}
variable {closed : List (ClosedBatch Solution)} {i : Iteration}

/-- An iteration at its beginning. -/
theorem start_spec (s : RunState) :
    let i := (Iteration.start P.frame.context P.setting.functions P.name P.function P.arguments
      P.vars P.input s).1
    P.Recorded [] [] i ∧ i.Sound ∧ i.queue = [] ∧ i.batches.opened = [] := by
  intro i
  obtain ⟨completed, h⟩ := Iteration.exists_invoked P.frame.context P.setting.functions P.name
    P.function P.arguments 0 P.input.solutions (.ofInputs P.inputs) s
  have hledger : Ledger.ofCalls P.inputs (completed.map .complete) = ⟨i.batches, []⟩ := by
    rw [Ledger.ofCalls_complete, ← h.batches]
    rfl
  have hfollows := Ledger.follows_ofCalls P.inputs (completed.map (Call.complete (α := Solution)))
  have hall := hfollows.all_eq_nil (accepted_complete _ _)
  rw [hledger] at hfollows hall
  obtain ⟨hclosed, hopened⟩ := List.append_eq_nil_iff.mp hall
  refine ⟨⟨rfl, rfl, ⟨_, [], hledger, accepted_complete _ _, rfl⟩, fun feed hfeed => ?_, by simp,
      fun k u hk => ?_⟩,
    ⟨(List.append_eq_nil_iff.mp hclosed).2, trivial, fun feed hfeed _ => ?_, h.nodup,
      fun hm => by cases hm⟩, rfl, List.map_eq_nil_iff.mp hopened⟩
  · obtain ⟨-, k, u, stream, hk, hu, hanswers, hstream⟩ := h.feeds feed hfeed
    rw [Nat.zero_add] at hk
    refine ⟨stream, stream, ⟨u, hk ▸ hu, hanswers⟩, .nil stream, fun later hlater => ?_,
      fun hnone => by rw [hstream] at hnone; cases hnone⟩
    exact Option.some.inj (hlater.symm.trans hstream)
  · have hinvoked := h.invoked k u hk
    rwa [Nat.zero_add] at hinvoked
  · obtain ⟨hnot, k, u, stream, hk, hu, -⟩ := h.feeds feed hfeed
    refine (hfollows.pending feed.input).mpr ⟨?_, fun call hcall => ?_⟩
    · rw [Nat.zero_add] at hk
      rw [hk]
      exact List.mem_range.mpr (List.getElem?_eq_some_iff.mp hu).1
    · obtain ⟨k, hk, rfl⟩ := List.mem_map.mp hcall
      exact beq_false_of_ne fun heq => hnot (heq ▸ hk)

theorem Recorded.solutionsOf_eq (h : P.Recorded told closed i) (a : Nat × TupleBatch) :
    i.solutionsOf a.1 a.2 = P.solutionsOf a := by
  rw [Iteration.solutionsOf, h.vars, h.input]
  rfl

/-- What a stream tells is its next batch. -/
theorem Recorded.tell (h : P.Recorded told closed i) (hnodup : (i.feeds.map (·.input)).Nodup)
    (index : Nat) :
    P.Recorded (told ++ ((i.tell index).queue.drop i.queue.length).filterMap FeedEvent.told?) closed
      (i.tell index) := by
  obtain ⟨hvars, hinput, hbatches⟩ := i.vars_tell index
  obtain ⟨calls, heard, hledger, haccepted, htold⟩ := h.history
  obtain heq | ⟨before, f, after, e, later, hfeeds, htells, heq⟩ := i.exists_tells index
  · rw [heq]
    simpa using h
  have hnew : ((i.tell index).queue.drop i.queue.length).filterMap FeedEvent.told? =
      e.told?.toList := by
    rw [heq, List.drop_left]
    cases e <;> rfl
  have hmem : ∀ {g g' : Feed}, g ∈ before ++ g' :: after ↔ g = g' ∨ g ∈ before ++ after :=
    List.perm_middle.mem_iff.trans List.mem_cons
  have hothers : ∀ g ∈ before ++ after, g ∈ i.feeds ∧ g.input ≠ f.input := by
    intro g hg
    rw [hfeeds] at hnodup ⊢
    exact ⟨hmem.mpr (.inr hg), Feed.input_ne hnodup hg⟩
  rw [hnew]
  refine ⟨hvars.trans h.vars, hinput.trans h.input, ⟨calls, heard, ?_, haccepted, ?_⟩,
    fun g hg => ?_, fun a ha => ?_, fun k u hk => ?_⟩
  · rw [hbatches, hledger]
  · rw [htold, heq, List.filterMap_append, List.append_assoc]
    cases e <;> rfl
  · rw [heq] at hg
    rw [addsOf_append]
    rcases hmem.mp hg with rfl | hg
    · obtain ⟨first, now, hgives, hyields, hnow, -⟩ := h.feeds f (hfeeds ▸ hmem.mpr (.inl rfl))
      obtain ⟨rest, hrest, hlater⟩ := htells.yields hyields hnow
      exact ⟨first, rest, hgives, hrest, hlater⟩
    · have hnone : addsOf g.input e.told?.toList = [] := by
        refine List.filter_eq_nil_iff.mpr fun a ha => ?_
        rw [htells.input_eq ha, beq_iff_eq]
        exact (hothers g hg).2.symm
      rw [hnone, List.append_nil]
      exact h.feeds g (hothers g hg).1
  · rw [heq]
    rcases List.mem_append.mp ha with ha | ha
    · obtain ⟨feed, hfeed, hinput⟩ := h.sources a ha
      rw [hfeeds] at hfeed
      rcases hmem.mp hfeed with rfl | hfeed
      · exact ⟨_, hmem.mpr (.inl rfl), hinput⟩
      · exact ⟨feed, hmem.mpr (.inr hfeed), hinput⟩
    · exact ⟨_, hmem.mpr (.inl rfl), (htells.input_eq ha).symm⟩
  · rw [heq]
    refine (h.invoked k u hk).imp_left fun ⟨feed, hfeed, hinput⟩ => ?_
    rw [hfeeds] at hfeed
    rcases hmem.mp hfeed with rfl | hfeed
    · exact ⟨_, hmem.mpr (.inl rfl), hinput⟩
    · exact ⟨feed, hmem.mpr (.inr hfeed), hinput⟩

/-- What is heard is accepted by the batches, and those that have closed are taken. -/
theorem Recorded.hear (h : P.Recorded told closed i)
    (hfit : FeedEvent.Fit i.batches.pending i.queue) (wantsEmpty : Bool) :
    P.Recorded told (closed ++ i.hear.batches.closed) (i.hear.takeSequences wantsEmpty).2 := by
  obtain ⟨hvars, hinput, hfeeds⟩ := i.vars_hear wantsEmpty
  obtain ⟨calls, heard, hledger, haccepted, htold⟩ := h.history
  have hfollows := Ledger.follows_ofCalls P.inputs calls
  refine ⟨hvars.trans h.vars, hinput.trans h.input, ?_, hfeeds ▸ h.feeds, hfeeds ▸ h.sources,
    hfeeds ▸ h.invoked⟩
  -- one call for what is heard, and one that takes the closed batches
  have htake : ∀ (call : Call Solution) (b : Batches Solution),
      Ledger.receive ⟨i.batches, closed⟩ call = ⟨b, closed⟩ →
      Ledger.ofCalls P.inputs (calls ++ [call] ++ [.takeClosed]) =
        ⟨b.takeClosed.2, closed ++ b.closed⟩ := by
    intro call b hcall
    rw [Ledger.ofCalls_concat, Ledger.ofCalls_concat, hledger, hcall]
    rfl
  have hnone : ∀ call : Call Solution, acceptedOf P.inputs calls call = [] →
      accepted P.inputs (calls ++ [call] ++ [.takeClosed]) = accepted P.inputs calls := by
    intro call hcall
    rw [accepted_concat, accepted_concat, hcall]
    simp [acceptedOf]
  unfold Iteration.hear
  split
  · next input tuples rest hq =>
    rw [hq] at hfit htold
    refine ⟨_, heard ++ [(input, tuples)], htake (.add input (i.solutionsOf input tuples)) _ rfl,
      ?_, ?_⟩
    · have hpending : input ∈ (Ledger.ofCalls P.inputs calls).batches.pending := by
        rw [hledger]
        exact hfit.1
      rw [accepted_concat, hfollows.accepted_add _ hpending, haccepted, List.map_append,
        h.solutionsOf_eq (input, tuples)]
      exact List.append_nil _
    · rw [htold, List.append_assoc]
      rfl
  · next input rest hq =>
    rw [hq] at htold
    exact ⟨_, heard, htake (.complete input) _ rfl, by rw [hnone _ rfl, haccepted], htold⟩
  · next hq =>
    rw [hq] at htold
    refine ⟨_, heard, htake .forceClose _ rfl, by rw [hnone _ rfl, haccepted], ?_⟩
    show told = heard ++ i.queue.filterMap FeedEvent.told?
    rw [htold, hq]

/-! ### What the closed batches hold -/

theorem Recorded.ids_closed (h : P.Recorded told closed i) :
    closed.map (·.id) = List.range closed.length := by
  obtain ⟨calls, -, hledger, -⟩ := h.history
  have hs := (Ledger.settled_ofCalls P.inputs calls).ids_taken
  rwa [hledger] at hs

/-- What is still in the queue belongs to later rounds than the batches that have closed. -/
theorem Recorded.items_eq (h : P.Recorded told closed i)
    (hfit : FeedEvent.Fit i.batches.pending i.queue) {b : ClosedBatch Solution} (hb : b ∈ closed) :
    b.items = (ofRound b.id told).flatMap P.solutionsOf := by
  obtain ⟨calls, heard, hledger, haccepted, htold⟩ := h.history
  have hfollows := Ledger.follows_ofCalls P.inputs calls
  rw [hledger] at hfollows
  have hclosed : b ∈ Ledger.closed ⟨i.batches, closed⟩ := List.mem_append_left _ hb
  have hround : ofRound b.id told = ofRound b.id heard := by
    rw [htold]
    refine ofRound_append_of_lt fun a ha => ?_
    have hlt := hfollows.passed b hclosed a.1 (hfit.mem_pending ha)
    rwa [haccepted, addCount_map] at hlt
  rw [(hfollows.holds b (List.mem_append_left _ hclosed)).2, haccepted, hround,
    ofRound_map, List.flatMap_map]

/-- Once nothing is in the queue and no batch is open, there are as many closed batches as any input
has told. -/
theorem Recorded.addCount_told_le (h : P.Recorded told closed i) (hq : i.queue = [])
    (ho : i.batches.opened = []) (hc : i.batches.closed = []) (input : Nat) :
    addCount told input ≤ closed.length := by
  obtain ⟨calls, heard, hledger, haccepted, htold⟩ := h.history
  have hfollows := Ledger.follows_ofCalls P.inputs calls
  rw [hledger] at hfollows
  have hheard : told = heard := by
    rw [htold, hq]
    exact List.append_nil _
  have hall : Ledger.all ⟨i.batches, closed⟩ = closed := by
    rw [Ledger.all, Ledger.closed, ho, hc, List.append_nil]
    exact List.append_nil _
  have hlength : closed.length = i.batches.nextId := by
    have hids := hfollows.ids.length_eq
    rwa [hall, List.length_map, List.length_range] at hids
  have hcount := hfollows.count_le input
  rwa [haccepted, addCount_map, ← hheard, ← hlength] at hcount

end IteratorClause

end TripleLoom
