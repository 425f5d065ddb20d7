import TripleLoom.Proofs.Batches.Rounds
import TripleLoom.Proofs.Pipeline.NestedLoops

/-!
# TripleLoom.Proofs.Pipeline.Gathering — an iterator gathers what its streams give

An iteration holds solutions in its batches, has been told tuples that it has not heard yet, and
waits for what its streams will still give.  `Iteration.Owes` adds these up.  No event takes
anything away: a stream that tells moves tuples from the stream to the queue, hearing moves them to
the batches, and a batch that closes leaves as the input of a branch.  This holds as long as every
event comes from an input that is still pending (`Iteration.Sound`), which no order of the events
can break.
-/

namespace TripleLoom

open RunM

/-! ### Pieces -/

/-- Whether a list consists of pieces, one for each of some things in their order. -/
def Piecewise {α β : Type} (R : α → List β → Prop) : List α → List β → Prop
  | [], l => l = []
  | a :: rest, l => ∃ first second, R a first ∧ Piecewise R rest second ∧ l = first ++ second

theorem Piecewise.append {α β : Type} {R : α → List β → Prop} :
    ∀ {xs ys : List α} {l : List β}, Piecewise R (xs ++ ys) l ↔
      ∃ first second, Piecewise R xs first ∧ Piecewise R ys second ∧ l = first ++ second
  | [], ys, l => by simp [Piecewise]
  | a :: xs, ys, l => by
    simp only [List.cons_append, Piecewise]
    constructor
    · rintro ⟨piece, after, ha, hrest, rfl⟩
      obtain ⟨first, second, hx, hy, rfl⟩ := Piecewise.append.mp hrest
      exact ⟨_, second, ⟨piece, first, ha, hx, rfl⟩, hy, (List.append_assoc _ _ _).symm⟩
    · rintro ⟨_, second, ⟨piece, first, ha, hx, rfl⟩, hy, rfl⟩
      exact ⟨piece, first ++ second, ha, Piecewise.append.mpr ⟨first, second, hx, hy, rfl⟩,
        List.append_assoc _ _ _⟩

/-! ### Batches keep their items -/

namespace Batches

variable {α : Type} (b : Batches α)

/-- The items in all batches that were not yet taken. -/
def held : List α := b.opened.flatMap (·.items) ++ b.closed.flatMap (·.items)

theorem held_eq_nil (ho : b.opened = []) (hc : b.closed = []) : b.held = [] := by
  rw [held, ho, hc]
  rfl

theorem perm_held_closeReady : b.closeReady.held.Perm b.held := by
  classical
  have hsplit : (b.opened.filter (fun o => o.expected.isEmpty) ++
      b.opened.filter (fun o => !o.expected.isEmpty)).Perm b.opened := List.filter_append_perm _ _
  have hopened := hsplit.flatMap_right (fun o : OpenBatch α => o.items)
  have hclosed : ((b.opened.filter fun o => o.expected.isEmpty).map OpenBatch.close).flatMap
      (·.items) = (b.opened.filter fun o => o.expected.isEmpty).flatMap (·.items) := by
    rw [List.flatMap_map]
    rfl
  simp only [held, closeReady, List.partition_eq_filter_filter, List.flatMap_append, hclosed]
  rw [List.perm_iff_count] at hopened ⊢
  intro a
  have := hopened a
  simp only [List.flatMap_append, List.count_append, Function.comp_def] at this ⊢
  omega

/-- Items that are added for a pending input are held. -/
theorem perm_held_add {input : Nat} (items : List α) (h : input ∈ b.pending) :
    (b.add input items).held.Perm (b.held ++ items) := by
  classical
  rw [add, if_pos h]
  split
  · next opened hd =>
    obtain ⟨front, o, back, ho, rfl, -⟩ := Batches.deliverFirst?_eq_some hd
    refine (perm_held_closeReady _).trans ?_
    rw [List.perm_iff_count]
    intro a
    simp only [held, ho, OpenBatch.deliver, List.flatMap_append, List.flatMap_cons,
      List.count_append]
    omega
  · refine (perm_held_closeReady _).trans ?_
    rw [List.perm_iff_count]
    intro a
    simp only [held, OpenBatch.deliver, List.flatMap_append, List.flatMap_cons,
      List.flatMap_nil, List.count_append, List.count_nil]
    omega

theorem perm_held_complete (input : Nat) : (b.complete input).held.Perm b.held := by
  unfold complete
  split
  · refine (perm_held_closeReady _).trans ?_
    simp only [held, List.flatMap_map]
    exact .refl _
  · exact .refl _

theorem complete_of_unopened (h : b.opened = []) (input : Nat) : b.complete input =
    { b with pending := b.pending.filter (· ≠ input), opened := [] } := by
  unfold complete
  split
  · simp [closeReady, h]
  · next hn =>
    have hall : b.pending.filter (· ≠ input) = b.pending :=
      List.filter_eq_self.mpr fun a ha => by simpa using fun he : a = input => hn (he ▸ ha)
    rw [hall, ← h]

theorem perm_held_forceClose : b.forceClose.held.Perm b.held := by
  simp only [held, forceClose, List.flatMap_nil, List.nil_append, List.flatMap_append,
    List.flatMap_map]
  exact List.perm_append_comm

theorem pending_add (input : Nat) (items : List α) : (b.add input items).pending = b.pending := by
  unfold add
  split
  · split <;> rfl
  · rfl

theorem pending_complete (input : Nat) :
    (b.complete input).pending = b.pending.filter (· ≠ input) := by
  unfold complete
  split
  · rfl
  · next h =>
    rw [List.filter_eq_self.mpr]
    intro a ha
    simpa using fun he : a = input => h (he ▸ ha)

end Batches

/-! ### What the streams still give -/

/-- The tuples that a stream still gives: none if it has ended. -/
def Feed.Gives (f : Feed) (tuples : List Tuple) : Prop :=
  match f.stream with
  | none => tuples = []
  | some stream => stream.Gives tuples

/-- The solutions that streams still give, made of their tuples input by input. -/
def Feed.Owe (make : Nat → List Tuple → List Solution) : List Feed → List Solution → Prop :=
  Piecewise fun f piece => ∃ tuples, f.Gives tuples ∧ piece = make f.input tuples

/-- Streams that have all ended give nothing. -/
theorem Feed.owe_of_over {make : Nat → List Tuple → List Solution} (hmake : ∀ k, make k [] = []) :
    ∀ {feeds : List Feed}, (∀ f ∈ feeds, f.stream = none) → Feed.Owe make feeds []
  | [], _ => rfl
  | f :: _, h => by
    obtain ⟨hf, hrest⟩ := List.forall_mem_cons.mp h
    refine ⟨[], [], ⟨[], ?_, (hmake f.input).symm⟩, Feed.owe_of_over hmake hrest, rfl⟩
    rw [Feed.Gives, hf]

/-! ### The queue -/

namespace FeedEvent

/-- The inputs that are pending after some events. -/
def pendingAfter (pending : List Nat) : List FeedEvent → List Nat
  | [] => pending
  | .batch _ _ :: rest => pendingAfter pending rest
  | .done input :: rest => pendingAfter (pending.filter (· ≠ input)) rest

/-- Whether all batches of tuples among some events come from inputs that are pending then. -/
def Fit (pending : List Nat) : List FeedEvent → Prop
  | [] => True
  | .batch input _ :: rest => input ∈ pending ∧ Fit pending rest
  | .done input :: rest => Fit (pending.filter (· ≠ input)) rest

theorem pendingAfter_append (e : FeedEvent) (queue : List FeedEvent) (pending : List Nat) :
    pendingAfter pending (queue ++ [e]) = pendingAfter (pendingAfter pending queue) [e] := by
  induction queue generalizing pending with
  | nil => rfl
  | cons first rest ih => cases first <;> exact ih _

theorem fit_append {e : FeedEvent} {queue : List FeedEvent} {pending : List Nat}
    (h : Fit pending queue) (he : Fit (pendingAfter pending queue) [e]) :
    Fit pending (queue ++ [e]) := by
  induction queue generalizing pending with
  | nil => exact he
  | cons first rest ih =>
    cases first with
    | batch input tuples => exact ⟨h.1, ih h.2 he⟩
    | done input => exact ih h he

end FeedEvent

namespace Iteration

variable {i : Iteration}

/-! ### The invariant -/

/-- What holds of an iteration at all times: between its acts no closed batch is left in it; every
event comes from an input that is pending then, and so will those of the streams that go on; and
once it does not listen any more, nothing is open and no stream goes on. -/
structure Sound (i : Iteration) : Prop where
  none_closed : i.batches.closed = []
  fit : FeedEvent.Fit i.batches.pending i.queue
  pending : ∀ f ∈ i.feeds, f.stream ≠ none →
    f.input ∈ FeedEvent.pendingAfter i.batches.pending i.queue
  nodup : (i.feeds.map (·.input)).Nodup
  mute : i.isListening = false →
    i.queue = [] ∧ i.batches.opened = [] ∧ ∀ f ∈ i.feeds, f.stream = none

/-- The solutions that an event brings. -/
def told (i : Iteration) : FeedEvent → List Solution
  | .batch input tuples => i.solutionsOf input tuples
  | .done _ => []

/-- The solutions that an iteration will still hand out if its streams give what they give: those in
its batches, those of the events it has not heard, and those of the streams. -/
def Owes (i : Iteration) (l : List Solution) : Prop :=
  ∃ rest, Feed.Owe i.solutionsOf i.feeds rest ∧
    l.Perm (i.batches.held ++ i.queue.flatMap i.told ++ rest)

theorem solutionsOf_of_getElem? {i : Iteration} {input : Nat} {s : Solution}
    (h : i.input.solutions[input]? = some s) (tuples : TupleBatch) :
    i.solutionsOf input tuples = tuples.map (s.withTuple i.vars) := by
  rw [solutionsOf, h]

theorem solutionsOf_append (i : Iteration) (input : Nat) (xs ys : List Tuple) :
    i.solutionsOf input (xs ++ ys) = i.solutionsOf input xs ++ i.solutionsOf input ys := by
  unfold solutionsOf
  split <;> simp

/-- What an event brings depends on the inputs and the variables alone. -/
theorem told_congr {i j : Iteration} (hvars : j.vars = i.vars) (hinput : j.input = i.input) :
    j.solutionsOf = i.solutionsOf ∧ j.told = i.told := by
  have hmake : j.solutionsOf = i.solutionsOf := by
    funext input tuples
    rw [solutionsOf, solutionsOf, hvars, hinput]
  refine ⟨hmake, funext fun e => ?_⟩
  cases e with
  | batch input tuples => exact congrFun (congrFun hmake input) tuples
  | done input => rfl

theorem solutionsOf_nil (i : Iteration) (input : Nat) : i.solutionsOf input [] = [] := by
  unfold solutionsOf
  split <;> rfl

/-- An iteration that does not listen any more owes nothing. -/
theorem Sound.owes_of_mute (h : i.Sound) (hm : i.isListening = false) : i.Owes [] := by
  obtain ⟨hqueue, hopened, hfeeds⟩ := h.mute hm
  refine ⟨[], Feed.owe_of_over i.solutionsOf_nil hfeeds, ?_⟩
  rw [hqueue, Batches.held_eq_nil _ hopened h.none_closed]
  exact .refl _

/-! ### Telling -/

/-- What becomes of the feed at an index when it tells something. -/
theorem tell_cases (i : Iteration) (index : Nat) :
    i.tell index = i ∨ ∃ before f after stream, i.feeds = before ++ f :: after ∧
      f.stream = some stream ∧
      ((∃ tuples rest, stream.next = .batch tuples rest ∧
          i.tell index = { i with
            feeds := before ++ { f with stream := some rest } :: after
            queue := i.queue ++ [.batch f.input tuples] }) ∨
        (stream.Gives [] ∧ i.tell index = { i with
          feeds := before ++ { f with stream := none } :: after
          queue := i.queue ++ [.done f.input] })) := by
  unfold tell
  cases hf : i.feeds[index]? with
  | none => exact .inl rfl
  | some f =>
    obtain ⟨hlt, hget⟩ := List.getElem?_eq_some_iff.mp hf
    have hfeeds : i.feeds = i.feeds.take index ++ f :: i.feeds.drop (index + 1) := by
      rw [← hget, List.getElem_cons_drop, List.take_append_drop]
    have hset : ∀ g, i.feeds.set index g = i.feeds.take index ++ g :: i.feeds.drop (index + 1) :=
      fun g => List.set_eq_take_append_cons_drop.trans (if_pos hlt)
    cases hs : f.stream with
    | none => exact .inl (by simp only [hs, Option.map_none])
    | some stream =>
      simp only [hs, Option.map_some]
      cases hn : stream.next with
      | batch tuples rest =>
        exact .inr ⟨_, f, _, stream, hfeeds, hs, .inl ⟨tuples, rest, hn, by simp only [hset]⟩⟩
      | finished =>
        exact .inr ⟨_, f, _, stream, hfeeds, hs, .inr ⟨.finished hn, by simp only [hset]⟩⟩
      | failed e =>
        exact .inr ⟨_, f, _, stream, hfeeds, hs, .inr ⟨.failed hn, by simp only [hset]⟩⟩
      | pending => exact .inl rfl

theorem Sound.tell (h : i.Sound) (index : Nat) : (i.tell index).Sound := by
  rcases i.tell_cases index with heq | ⟨before, f, after, stream, hfeeds, hs, hcase⟩
  · rw [heq]
    exact h
  have hmem : f ∈ i.feeds := hfeeds ▸ List.mem_append_right _ List.mem_cons_self
  have hlive : f.input ∈ FeedEvent.pendingAfter i.batches.pending i.queue :=
    h.pending f hmem (by simp [hs])
  have hlistening : i.isListening = true := by
    rw [← Bool.not_eq_false]
    exact fun hm => by simp [(h.mute hm).2.2 f hmem] at hs
  have hnodup := h.nodup
  rw [hfeeds, List.map_append, List.map_cons] at hnodup
  have hothers : ∀ g ∈ before ++ after, g ∈ i.feeds ∧ g.input ≠ f.input := by
    intro g hg
    rw [hfeeds]
    rw [List.nodup_append, List.nodup_cons] at hnodup
    rcases List.mem_append.mp hg with hg | hg
    · exact ⟨List.mem_append_left _ hg, hnodup.2.2 _ (List.mem_map_of_mem hg) _ List.mem_cons_self⟩
    · refine ⟨List.mem_append_right _ (List.mem_cons_of_mem _ hg), fun he => hnodup.2.1.1 ?_⟩
      exact he ▸ List.mem_map_of_mem hg
  have hsplit : ∀ {g g' : Feed}, g ∈ before ++ g' :: after → g = g' ∨ g ∈ before ++ after := by
    intro g g' hg
    simp only [List.mem_append, List.mem_cons] at hg ⊢
    tauto
  rcases hcase with ⟨tuples, rest, -, heq⟩ | ⟨-, heq⟩
  · rw [heq]
    refine ⟨h.none_closed, FeedEvent.fit_append h.fit ⟨hlive, trivial⟩, fun g hg hne => ?_, ?_, ?_⟩
    · rw [FeedEvent.pendingAfter_append]
      rcases hsplit hg with rfl | hg
      · exact hlive
      · exact h.pending g (hothers g hg).1 hne
    · simpa using hnodup
    · exact fun hm => absurd hm (by simp [hlistening])
  · rw [heq]
    refine ⟨h.none_closed, FeedEvent.fit_append h.fit trivial, fun g hg hne => ?_, ?_, ?_⟩
    · rw [FeedEvent.pendingAfter_append]
      rcases hsplit hg with rfl | hg
      · exact absurd rfl hne
      · refine List.mem_filter.mpr ⟨h.pending g (hothers g hg).1 hne, ?_⟩
        exact decide_eq_true (hothers g hg).2
    · simpa using hnodup
    · exact fun hm => absurd hm (by simp [hlistening])

theorem vars_tell (i : Iteration) (index : Nat) :
    (i.tell index).vars = i.vars ∧ (i.tell index).input = i.input ∧
      (i.tell index).batches = i.batches := by
  rcases i.tell_cases index with heq | ⟨_, _, _, _, _, _, ⟨_, _, _, heq⟩ | ⟨_, heq⟩⟩ <;> rw [heq] <;>
    exact ⟨rfl, rfl, rfl⟩

/-- What a stream tells it gave before. -/
theorem Owes.of_tell {index : Nat} {l : List Solution} (h : (i.tell index).Owes l) : i.Owes l := by
  classical
  obtain ⟨owed, howed, hl⟩ := h
  obtain ⟨hvars, hinput, hbatches⟩ := i.vars_tell index
  obtain ⟨hmake, htold⟩ := told_congr hvars hinput
  rw [hmake] at howed
  rw [htold, hbatches] at hl
  rcases i.tell_cases index with heq | ⟨before, f, after, stream, hfeeds, hs, hcase⟩
  · rw [heq] at howed hl
    exact ⟨owed, howed, hl⟩
  -- the feed that told something gave it, and what it will still give
  rcases hcase with ⟨tuples, rest, hn, heq⟩ | ⟨hgives, heq⟩
  · rw [heq] at howed hl
    obtain ⟨first, -, hb, ⟨-, second, ⟨more, hm, rfl⟩, ha, rfl⟩, rfl⟩ := Piecewise.append.mp howed
    refine ⟨first ++ (i.solutionsOf f.input (tuples ++ more) ++ second), ?_, hl.trans ?_⟩
    · rw [hfeeds]
      refine Piecewise.append.mpr
        ⟨first, _, hb, ⟨_, second, ⟨tuples ++ more, ?_, rfl⟩, ha, rfl⟩, rfl⟩
      rw [Feed.Gives, hs]
      exact .batch hn hm
    · rw [List.perm_iff_count]
      intro s
      simp only [List.flatMap_append, List.flatMap_cons, List.flatMap_nil, told,
        solutionsOf_append, List.count_append, List.count_nil]
      omega
  · rw [heq] at howed hl
    obtain ⟨first, -, hb, ⟨-, second, ⟨more, hm, rfl⟩, ha, rfl⟩, rfl⟩ := Piecewise.append.mp howed
    obtain rfl : more = [] := hm
    refine ⟨first ++ (i.solutionsOf f.input [] ++ second), ?_, ?_⟩
    · rw [hfeeds]
      refine Piecewise.append.mpr ⟨first, _, hb, ⟨_, second, ⟨[], ?_, rfl⟩, ha, rfl⟩, rfl⟩
      rw [Feed.Gives, hs]
      exact hgives
    · simpa [told] using hl

/-! ### Hearing -/

theorem vars_hear (i : Iteration) (wantsEmpty : Bool) :
    (i.hear.takeSequences wantsEmpty).2.vars = i.vars ∧
      (i.hear.takeSequences wantsEmpty).2.input = i.input ∧
      (i.hear.takeSequences wantsEmpty).2.feeds = i.feeds := by
  unfold hear
  split <;> exact ⟨rfl, rfl, rfl⟩

/-- Hearing keeps the invariant; that no more will come is heard only when all streams have ended. -/
theorem Sound.hear (h : i.Sound) (hover : i.queue = [] → ∀ f ∈ i.feeds, f.stream = none)
    (wantsEmpty : Bool) :
    (i.hear.takeSequences wantsEmpty).2.Sound := by
  have hlistening : i.queue ≠ [] → i.isListening = true := fun hq => by
    rw [← Bool.not_eq_false]
    exact fun hm => hq (h.mute hm).1
  unfold Iteration.hear
  have hfit := h.fit
  have hpending := h.pending
  split
  · next input tuples rest hq =>
    rw [hq] at hfit hpending
    refine ⟨rfl, ?_, ?_, h.nodup, fun hm => ?_⟩
    · show FeedEvent.Fit (i.batches.add input _).pending rest
      rw [Batches.pending_add]
      exact hfit.2
    · show ∀ f ∈ i.feeds, _ → _ ∈ FeedEvent.pendingAfter (i.batches.add input _).pending rest
      rw [Batches.pending_add]
      exact hpending
    · have hm' : i.isListening = false := hm
      rw [hlistening (by simp [hq])] at hm'
      cases hm'
  · next input rest hq =>
    rw [hq] at hfit hpending
    refine ⟨rfl, ?_, ?_, h.nodup, fun hm => ?_⟩
    · show FeedEvent.Fit (i.batches.complete input).pending rest
      rw [Batches.pending_complete]
      exact hfit
    · show ∀ f ∈ i.feeds, _ → _ ∈ FeedEvent.pendingAfter (i.batches.complete input).pending rest
      rw [Batches.pending_complete]
      exact hpending
    · have hm' : i.isListening = false := hm
      rw [hlistening (by simp [hq])] at hm'
      cases hm'
  · next hq =>
    refine ⟨rfl, ?_, fun f hf hne => absurd (hover hq f hf) hne, h.nodup, fun _ => ?_⟩
    · show FeedEvent.Fit _ i.queue
      rw [hq]
      trivial
    · exact ⟨hq, rfl, hover hq⟩

/-- The solutions of the sequences that are taken are the items of the closed batches. -/
theorem solutions_takeSequences (i : Iteration) (wantsEmpty : Bool) :
    (i.takeSequences wantsEmpty).1.flatMap (·.solutions) =
      i.batches.closed.flatMap (·.items) := by
  show (List.map _ (i.batches.closed.filter _)).flatMap _ = _
  rw [List.flatMap_map]
  show (i.batches.closed.filter _).flatMap (fun b => b.items) = _
  induction i.batches.closed with
  | nil => rfl
  | cons b rest ih =>
    rw [List.filter_cons, List.flatMap_cons]
    split
    · rw [List.flatMap_cons, ih]
    · next hb =>
      have hempty : b.items = [] := by
        rw [Bool.not_eq_true, Bool.or_eq_false_iff, Bool.not_eq_false', List.isEmpty_iff] at hb
        exact hb.2
      rw [ih, hempty, List.nil_append]

/-- What was heard goes to the batches, and from those that have closed to the branches. -/
theorem Owes.of_hear (h : i.Sound) {wantsEmpty : Bool} {l : List Solution}
    (ho : (i.hear.takeSequences wantsEmpty).2.Owes l) :
    i.Owes ((i.hear.takeSequences wantsEmpty).1.flatMap (·.solutions) ++ l) := by
  classical
  obtain ⟨owed, howed, hl⟩ := ho
  obtain ⟨hvars, hinput, hfeeds⟩ := i.vars_hear wantsEmpty
  obtain ⟨hmake, htold⟩ := told_congr hvars hinput
  rw [hmake, hfeeds] at howed
  rw [htold] at hl
  refine ⟨owed, howed, ?_⟩
  have hheld : (i.hear.batches.held ++ i.hear.queue.flatMap i.told).Perm
      (i.batches.held ++ i.queue.flatMap i.told) := by
    unfold Iteration.hear
    have hfit := h.fit
    split
    · next input tuples rest hq =>
      rw [hq] at hfit
      have hadd := i.batches.perm_held_add (i.solutionsOf input tuples) hfit.1
      rw [hq, List.flatMap_cons, ← List.append_assoc]
      exact hadd.append_right _
    · next input rest hq =>
      rw [hq, List.flatMap_cons]
      exact (i.batches.perm_held_complete input).append_right _
    · next hq => exact (i.batches.perm_held_forceClose).append_right _
  rw [solutions_takeSequences]
  rw [List.perm_iff_count] at hheld hl ⊢
  intro s
  have h₁ := hheld s
  have h₂ := hl s
  simp only [takeSequences, Batches.takeClosed, Batches.held, List.flatMap_nil, List.append_nil,
    List.count_append] at h₁ h₂ ⊢
  omega

end Iteration

/-! ### The beginning -/

/-- A change that neither names nor writes anything. -/
structure RunState.Still (s t : RunState) : Prop where
  scopes : t.scopes = s.scopes
  output : ∀ sink, t.output sink = s.output sink

theorem RunState.Still.refl (s : RunState) : s.Still s := ⟨rfl, fun _ => rfl⟩

theorem RunState.Still.trans {s t u : RunState} (h : s.Still t) (h' : t.Still u) : s.Still u :=
  ⟨h'.scopes.trans h.scopes, fun sink => (h'.output sink).trans (h.output sink)⟩

theorem RunState.Still.note (s : RunState) {e : Event} (h : ∀ sink, e.writtenTo? sink = none) :
    s.Still { s with record := e :: s.record } :=
  ⟨rfl, fun sink => by simp only [RunState.output, List.filterMap_cons, h]⟩

namespace Iteration

/-- What there is after the functions were invoked for some inputs, the first of which has the given
number. -/
structure Begun (make : Nat → List Tuple → List Solution) (results : Solution → List Solution)
    (input : Nat) (rest : List Solution) (before : Batches Solution) (feeds : List Feed)
    (after : Batches Solution) : Prop where
  opened : after.opened = []
  closed : after.closed = []
  kept : ∀ k ∈ before.pending, k < input → k ∈ after.pending
  later : ∀ f ∈ feeds, input ≤ f.input
  pending : ∀ f ∈ feeds, f.input ∈ after.pending
  nodup : (feeds.map (·.input)).Nodup
  owed : ∀ l, Feed.Owe make feeds l → l = rest.flatMap results

section

variable {make : Nat → List Tuple → List Solution} {results : Solution → List Solution}
variable {input : Nat} {s : Solution} {rest : List Solution} {before after : Batches Solution}
variable {feeds : List Feed}

/-- An input without results is complete at once. -/
theorem Begun.skip (h : Begun make results (input + 1) rest (before.complete input) feeds after)
    (hresults : results s = []) : Begun make results input (s :: rest) before feeds after where
  opened := h.opened
  closed := h.closed
  kept k hk hlt := by
    refine h.kept k ?_ (Nat.lt_succ_of_lt hlt)
    rw [Batches.pending_complete]
    exact List.mem_filter.mpr ⟨hk, decide_eq_true (Nat.ne_of_lt hlt)⟩
  later f hf := Nat.le_of_succ_le (h.later f hf)
  pending := h.pending
  nodup := h.nodup
  owed l hl := by rw [List.flatMap_cons, hresults, List.nil_append, ← h.owed l hl]

/-- An input with a stream stays pending. -/
theorem Begun.cons (h : Begun make results (input + 1) rest before feeds after)
    (hinput : input ∈ before.pending) {f : Feed} (hf : f.input = input)
    (hgives : ∀ tuples, f.Gives tuples → make input tuples = results s) :
    Begun make results input (s :: rest) before (f :: feeds) after where
  opened := h.opened
  closed := h.closed
  kept k hk hlt := h.kept k hk (Nat.lt_succ_of_lt hlt)
  later := List.forall_mem_cons.mpr
    ⟨Nat.le_of_eq hf.symm, fun g hg => Nat.le_of_succ_le (h.later g hg)⟩
  pending := List.forall_mem_cons.mpr
    ⟨hf ▸ h.kept input hinput (Nat.lt_succ_self input), h.pending⟩
  nodup := by
    rw [List.map_cons, List.nodup_cons]
    refine ⟨fun hmem => ?_, h.nodup⟩
    obtain ⟨g, hg, he⟩ := List.mem_map.mp hmem
    have := h.later g hg
    omega
  owed l hl := by
    obtain ⟨-, others, ⟨tuples, ht, rfl⟩, ho, rfl⟩ := hl
    rw [List.flatMap_cons, hf, hgives tuples ht, h.owed others ho]

end

section

variable (resolver : Resolver) {c : Context} {functions : FunctionRegistry} {produce : Production}
variable {name : Iri} {f : IteratorFunction} {arguments : List Expression} {vars : List Variable}
variable (hf : functions.iterator? name = some f) (hp : functions.Produces produce)
variable (hargs : Expression.callBnode arguments = false)

include hf hp hargs

/-- The invocation of a deterministic function for inputs that are all pending. -/
theorem invokeAll_spec (make : Nat → List Tuple → List Solution) :
    ∀ (input : Nat) (rest : List Solution) (before : Batches Solution) (state : RunState),
      before.opened = [] → before.closed = [] →
      (∀ k < rest.length, input + k ∈ before.pending) →
      (∀ k s, rest[k]? = some s → ∀ tuples,
        make (input + k) tuples = tuples.map (s.withTuple vars)) →
      Begun make ((BindingClause.iterator name arguments vars).results resolver
            (c.evalContext functions) produce) input rest before
          (invokeAll c functions name f arguments input rest before state).1.1
          (invokeAll c functions name f arguments input rest before state).1.2 ∧
        state.Still (invokeAll c functions name f arguments input rest before state).2
  | _, [], before, state, ho, hc, _, _ =>
    ⟨⟨ho, hc, fun _ hk _ => hk, by simp [invokeAll, pure_apply], by simp [invokeAll, pure_apply],
      by simp [invokeAll, pure_apply], fun _ hl => hl⟩, .refl state⟩
  | input, s :: rest, before, state, ho, hc, hpending, hmake => by
    have hnext : ∀ k < rest.length, input + 1 + k ∈ before.pending := fun k hk => by
      have := hpending (k + 1) (Nat.succ_lt_succ hk)
      rwa [show input + 1 + k = input + (k + 1) by omega]
    have hmakeNext : ∀ k s, rest[k]? = some s → ∀ tuples,
        make (input + 1 + k) tuples = tuples.map (s.withTuple vars) := fun k s hs tuples => by
      rw [show input + 1 + k = input + (k + 1) by omega]
      exact hmake (k + 1) s hs tuples
    -- an input that is complete at once leaves the others pending
    have hskip := fun state : RunState =>
      invokeAll_spec make (input + 1) rest (before.complete input) state
        (by rw [before.complete_of_unopened ho]) (by rw [before.complete_of_unopened ho, hc])
        (fun k hk => by
          rw [Batches.pending_complete]
          exact List.mem_filter.mpr ⟨hnext k hk, decide_eq_true (by omega)⟩) hmakeNext
    have hgo := fun state : RunState =>
      invokeAll_spec make (input + 1) rest before state ho hc hnext hmakeNext
    simp only [invokeAll, bind_apply, c.evalAll?_eq functions hargs, pure_apply]
    cases hv : Expression.values? (c.evalContext functions) s arguments with
    | none =>
      obtain ⟨hb, hs⟩ := hskip state
      exact ⟨hb.skip (by rw [BindingClause.results, hv]), hs⟩
    | some values =>
      have hproduce := hp name f hf (state.invocations name) values
      have hnote : state.Still { state with record := .invoked name values :: state.record } :=
        .note state fun _ => rfl
      have hresults : (BindingClause.iterator name arguments vars).results resolver
          (c.evalContext functions) produce s =
          (produce name values).map (s.withTuple vars) := by
        rw [BindingClause.results, hv]
      simp only [bind_apply, get_apply]
      cases hcall : f (state.invocations name) values with
      | error e =>
        rw [hcall] at hproduce
        obtain ⟨hb, hs⟩ := hskip { state with record := .invoked name values :: state.record }
        exact ⟨hb.skip (by rw [hresults, hproduce, List.map_nil]), hnote.trans hs⟩
      | ok stream =>
        rw [hcall] at hproduce
        obtain ⟨hb, hs⟩ := hgo { state with record := .invoked name values :: state.record }
        refine ⟨hb.cons (hpending 0 (Nat.zero_lt_succ _)) rfl fun tuples ht => ?_, hnote.trans hs⟩
        rw [hresults, ← hproduce tuples ht]
        exact hmake 0 s rfl tuples

variable (c vars) in
/-- At its beginning, an iteration owes all results of its inputs. -/
theorem start_spec (input : Sequence) (state : RunState) :
    (start c functions name f arguments vars input state).1.Sound ∧
      state.Still (start c functions name f arguments vars input state).2 ∧
      ∀ l, (start c functions name f arguments vars input state).1.Owes l →
        l.Perm (input.solutions.flatMap ((BindingClause.iterator name arguments vars).results
          resolver (c.evalContext functions) produce)) := by
  obtain ⟨hb, hs⟩ := invokeAll_spec resolver hf hp hargs
    (start c functions name f arguments vars input state).1.solutionsOf
    0 input.solutions (.ofInputs (List.range input.size)) state rfl rfl
    (fun k hk => by simpa [Batches.ofInputs, Sequence.size] using hk)
    (fun k s hs tuples => by
      show _ = tuples.map (s.withTuple vars)
      rw [Nat.zero_add]
      exact solutionsOf_of_getElem? hs tuples)
  refine ⟨⟨hb.closed, trivial, fun f hf _ => hb.pending f hf, hb.nodup, fun hm => ?_⟩, hs, ?_⟩
  · cases hm
  · rintro l ⟨rest, hrest, hl⟩
    rw [← hb.owed rest hrest]
    rwa [Batches.held_eq_nil (start c functions name f arguments vars input state).1.batches
      hb.opened hb.closed] at hl

end

end Iteration

end TripleLoom
