import TripleLoom.Proofs.Batches.Rounds

/-!
# TripleLoom.Proofs.Batches.Closing — when batches close

Of two open batches the later one waits for every input that the earlier one waits for, since it
waits for the same live inputs up to a higher round (`Ledger.Follows.expected_subset`).  So the
batches that are ready are always the first ones, and they close in the order of their numbers,
however many close at once and whatever closes them (`Ledger.Settled`).  No batch that has nothing to
wait for stays open, and none closes before (`Ledger.closes_when_awaited`).
-/

namespace TripleLoom.Batches

variable {α : Type}

/-- A list in which what has a property comes first is cut in two by it. -/
theorem filter_append_of_pairwise {β : Type} {p : β → Bool} :
    ∀ {l : List β}, l.Pairwise (fun a b => p b = true → p a = true) →
      l.filter p ++ l.filter (fun b => !p b) = l
  | [], _ => rfl
  | a :: l, h => by
    obtain ⟨ha, hl⟩ := List.pairwise_cons.mp h
    have ih := filter_append_of_pairwise hl
    by_cases hp : p a = true
    · rw [List.filter_cons_of_pos hp, List.filter_cons_of_neg (by simp [hp]), List.cons_append, ih]
    · have hnone : l.filter p = [] := List.filter_eq_nil_iff.mpr fun b hb hb' => hp (ha b hb hb')
      have hall : l.filter (fun b => !p b) = l := by
        rw [hnone, List.nil_append] at ih
        exact ih
      rw [List.filter_cons_of_neg hp, List.filter_cons_of_pos (by simp [hp]), hnone, hall,
        List.nil_append]

namespace Ledger

variable {inputs : List Nat} {calls : List (Call α)} {l : Ledger α}

/-! ### Closing in order -/

/-- Of two open batches the later one waits for every input that the earlier one waits for. -/
theorem Follows.expected_subset (h : Follows inputs calls l) :
    l.batches.opened.Pairwise fun b d => b.expected ⊆ d.expected := by
  refine h.sorted.imp_of_mem fun {b d} hb hd hlt input hi => ?_
  obtain ⟨hp, hle⟩ := (h.expected b hb input).mp hi
  exact (h.expected d hd input).mpr ⟨hp, by omega⟩

/-- The batches that are ready leave the open ones from the front. -/
theorem Follows.all_closeReady (h : Follows inputs calls l) :
    (l.withBatches l.batches.closeReady).all = l.all := by
  have hcut : (l.batches.opened.filter fun o => o.expected.isEmpty) ++
      l.batches.opened.filter (fun o => !o.expected.isEmpty) = l.batches.opened := by
    refine filter_append_of_pairwise (h.expected_subset.imp fun {b d} hsub hd => ?_)
    rw [List.isEmpty_iff] at hd ⊢
    exact List.subset_nil.mp (hd ▸ hsub)
  have hmap := congrArg (List.map OpenBatch.close) hcut
  rw [List.map_append] at hmap
  simp only [all, closed, withBatches, Batches.closeReady, List.partition_eq_filter_filter,
    List.append_assoc]
  rw [← hmap]
  rfl

/-- Between calls the batches were opened and have closed in the order of their numbers, and every
open one waits for an input. -/
structure Settled (l : Ledger α) : Prop where
  order : l.all.map (·.id) = List.range l.batches.nextId
  waits : ∀ b ∈ l.batches.opened, b.expected ≠ []

theorem Follows.settled_closeReady (h : Follows inputs calls l)
    (ho : l.all.map (·.id) = List.range l.batches.nextId) :
    Settled (l.withBatches l.batches.closeReady) where
  order := by
    rw [h.all_closeReady]
    exact ho
  waits b hb := by
    simp only [withBatches, Batches.closeReady, List.partition_eq_filter_filter] at hb
    have := (List.mem_filter.mp hb).2
    intro he
    simp [he] at this

theorem Settled.add (hs : Settled l) (h : Follows inputs calls l) (input : Nat) (items : List α) :
    Settled (l.receive (.add input items)) := by
  by_cases hi : input ∈ l.batches.pending
  · cases hd : OpenBatch.deliverFirst? input items l.batches.opened with
    | some delivered =>
      obtain ⟨front, b, back, ho, rfl, hb, hf⟩ := deliverFirst?_eq_some hd
      have hid := h.id_of_first hi ho hb hf
      have horder := hs.order
      have hsettled := (h.deliver items hi ho hid).settled_closeReady (by
        simpa [all, closed, withBatches, ho, OpenBatch.close, OpenBatch.deliver] using horder)
      simpa [receive, Batches.add, hi, hd, withBatches] using hsettled
    | none =>
      have horder := hs.order
      have hsettled := (h.openWith items hi (deliverFirst?_eq_none hd)).settled_closeReady (by
        show _ = List.range (l.batches.nextId + 1)
        rw [List.range_succ, ← horder]
        simp [all, closed, withBatches, OpenBatch.close, OpenBatch.deliver])
      simpa [receive, Batches.add, hi, hd, withBatches] using hsettled
  · have hr : l.receive (.add input items) = l := by simp [receive, Batches.add, hi]
    rw [hr]
    exact hs

theorem Settled.complete (hs : Settled l) (h : Follows inputs calls l) (input : Nat) :
    Settled (l.receive (.complete input)) := by
  by_cases hi : input ∈ l.batches.pending
  · have horder := hs.order
    have hsettled := (h.release input).settled_closeReady (by
      simpa [all, closed, withBatches, OpenBatch.release, OpenBatch.close, Function.comp_def]
        using horder)
    simpa [receive, Batches.complete, hi, withBatches] using hsettled
  · have hr : l.receive (.complete input) = l := by simp [receive, Batches.complete, hi]
    rw [hr]
    exact hs

theorem Settled.forceClose (hs : Settled l) : Settled (l.receive .forceClose) where
  order := by
    have hall : (l.receive .forceClose).all = l.all := by
      simp [all, closed, receive, Batches.forceClose]
    rw [hall]
    exact hs.order
  waits b hb := absurd hb List.not_mem_nil

theorem Settled.takeClosed (hs : Settled l) : Settled (l.receive .takeClosed) where
  order := by
    have hall : (l.receive .takeClosed).all = l.all := by
      simp [all, closed, receive, Batches.takeClosed]
    rw [hall]
    exact hs.order
  waits := hs.waits

theorem settled_ofCalls (inputs : List Nat) (calls : List (Call α)) :
    Settled (ofCalls inputs calls) := by
  induction calls using List.reverseRecOn with
  | nil => exact ⟨by simp [ofCalls, all, closed, ofInputs], by simp [ofCalls, ofInputs]⟩
  | append_singleton calls c ih =>
    have h := follows_ofCalls inputs calls
    rw [ofCalls_concat]
    cases c with
    | add input items => exact ih.add h input items
    | complete input => exact ih.complete h input
    | forceClose => exact ih.forceClose
    | takeClosed => exact ih.takeClosed

/-- The batches are taken in the order of their numbers. -/
theorem Settled.ids_taken (hs : Settled l) : l.taken.map (·.id) = List.range l.taken.length := by
  have hlen := congrArg List.length hs.order
  have horder := congrArg (List.take l.taken.length) hs.order
  rw [all, closed, List.append_assoc, List.map_append, List.take_left' (by simp)] at horder
  rw [horder, List.take_range]
  congr 1
  simp only [all, closed, List.length_map, List.length_append, List.length_range] at hlen
  omega

/-! ### Opening -/

/-- A call opens a batch if the batch is there with it and was not before. -/
def Opens (inputs : List Nat) (before : List (Call α)) (c : Call α) (id : Nat) : Prop :=
  id ∉ (ofCalls inputs before).all.map (·.id) ∧
    id ∈ (ofCalls inputs (before ++ [c])).all.map (·.id)

/-- There is a batch for every number below the next one. -/
theorem mem_ids_iff {id : Nat} : id ∈ (ofCalls inputs calls).all.map (·.id) ↔
    id < (ofCalls inputs calls).batches.nextId := by
  rw [(follows_ofCalls inputs calls).ids.mem_iff, List.mem_range]

/-- An add may open one batch, and no other call opens any. -/
theorem nextId_receive (l : Ledger α) (c : Call α) :
    (l.receive c).batches.nextId = l.batches.nextId ∨
      (∃ input items, c = .add input items) ∧
        (l.receive c).batches.nextId = l.batches.nextId + 1 := by
  cases c with
  | add input items =>
    simp only [receive, Batches.add]
    split
    · split
      · exact .inl rfl
      · exact .inr ⟨⟨input, items, rfl⟩, rfl⟩
    · exact .inl rfl
  | complete input =>
    simp only [receive, Batches.complete]
    split <;> exact .inl rfl
  | forceClose | takeClosed => exact .inl rfl

/-- A batch that was opened is there after any more calls. -/
theorem mem_ids_append {more : List (Call α)} {id : Nat}
    (hid : id ∈ (ofCalls inputs calls).all.map (·.id)) :
    id ∈ (ofCalls inputs (calls ++ more)).all.map (·.id) := by
  induction more using List.reverseRecOn with
  | nil => rwa [List.append_nil]
  | append_singleton more c ih =>
    rw [mem_ids_iff] at ih ⊢
    rw [← List.append_assoc, ofCalls_concat]
    have := nextId_receive (ofCalls inputs (calls ++ more)) c
    omega

/-- Every batch was opened by one of the calls. -/
theorem exists_opens {id : Nat} (hid : id ∈ (ofCalls inputs calls).all.map (·.id)) :
    ∃ before c after, calls = before ++ c :: after ∧ Opens inputs before c id := by
  induction calls using List.reverseRecOn with
  | nil => simp [ofCalls, all, closed, ofInputs] at hid
  | append_singleton calls c ih =>
    by_cases hold : id ∈ (ofCalls inputs calls).all.map (·.id)
    · obtain ⟨before, d, after, rfl, ho⟩ := ih hold
      exact ⟨before, d, after ++ [c], by simp, ho⟩
    · exact ⟨calls, c, [], rfl, hold, hid⟩

theorem Opens.eq_add {before : List (Call α)} {c : Call α} {id : Nat}
    (h : Opens inputs before c id) : ∃ input items, c = .add input items := by
  obtain ⟨hnew, hold⟩ := h
  rw [mem_ids_iff] at hnew hold
  rw [ofCalls_concat] at hold
  rcases nextId_receive (ofCalls inputs before) c with heq | ⟨hadd, -⟩
  · omega
  · exact hadd

/-! ### What closes a batch -/

/-- A batch has closed as soon as all live inputs have delivered to it. -/
theorem Follows.mem_closed_iff (h : Follows inputs calls l) (hs : Settled l) {id : Nat}
    (hid : id ∈ l.all.map (·.id)) :
    id ∈ l.closed.map (·.id) ↔
      ∀ input ∈ l.batches.pending, id < addCount (accepted inputs calls) input := by
  constructor
  · intro hc input hi
    obtain ⟨b, hb, rfl⟩ := List.mem_map.mp hc
    exact h.passed b hb input hi
  · intro hall
    rw [all, List.map_append, List.mem_append] at hid
    rcases hid with hid | hid
    · exact hid
    · -- an open batch waits for a live input that has not delivered to it
      rw [List.map_map] at hid
      obtain ⟨b, hb, rfl⟩ := List.mem_map.mp hid
      obtain ⟨input, hi⟩ := List.exists_mem_of_ne_nil _ (hs.waits b hb)
      obtain ⟨hp, hle⟩ := (h.expected b hb input).mp hi
      have hlt : b.id < addCount (accepted inputs calls) input := hall input hp
      omega

/-- The contributors of a batch are the inputs with an add in its round. -/
theorem Follows.contributes_iff (h : Follows inputs calls l) {id input : Nat}
    (hid : id ∈ l.all.map (·.id)) :
    (∃ b ∈ l.all, b.id = id ∧ input ∈ b.contributors) ↔
      id < addCount (accepted inputs calls) input := by
  rw [← mem_ofRound_inputs]
  constructor
  · rintro ⟨b, hb, rfl, hi⟩
    rwa [(h.holds b hb).1] at hi
  · intro hi
    obtain ⟨b, hb, rfl⟩ := List.mem_map.mp hid
    refine ⟨b, hb, rfl, ?_⟩
    rwa [(h.holds b hb).1]

theorem isLive_append {before after : List (Call α)} {input : Nat} :
    IsLive inputs (before ++ after) input ↔
      IsLive inputs before input ∧ ∀ c ∈ after, c.finishes input = false := by
  simp only [IsLive, List.forall_mem_append, and_assoc]

/-- A call finishes an input if it completes it or closes all batches. -/
theorem finishes_iff {calls : List (Call α)} {input : Nat} :
    (∃ c ∈ calls, c.finishes input = true) ↔ .complete input ∈ calls ∨ .forceClose ∈ calls := by
  constructor
  · rintro ⟨c, hc, hf⟩
    cases c with
    | complete i =>
      obtain rfl : i = input := by simpa [Call.finishes] using hf
      exact .inl hc
    | forceClose => exact .inr hc
    | add | takeClosed => cases hf
  · rintro (hc | hc)
    · exact ⟨_, hc, by simp [Call.finishes]⟩
    · exact ⟨_, hc, rfl⟩

/-- Of the inputs that were pending when a batch was opened, those that still are have not finished
since. -/
theorem pending_since {before after : List (Call α)} {c : Call α} {id input : Nat}
    (ho : Opens inputs before c id) (hi : input ∈ (ofCalls inputs before).batches.pending) :
    input ∈ (ofCalls inputs (before ++ c :: after)).batches.pending ↔
      ¬ (.complete input ∈ after ∨ .forceClose ∈ after) := by
  obtain ⟨j, items, rfl⟩ := ho.eq_add
  have hlive := ((follows_ofCalls inputs before).pending input).mp hi
  rw [(follows_ofCalls inputs (before ++ .add j items :: after)).pending, isLive_append,
    List.forall_mem_cons, ← finishes_iff]
  constructor
  · rintro ⟨-, -, hnone⟩ ⟨d, hd, hf⟩
    rw [hnone d hd] at hf
    cases hf
  · intro hnone
    refine ⟨hlive, rfl, fun d hd => ?_⟩
    rw [← Bool.not_eq_true]
    exact fun hf => hnone ⟨d, hd, hf⟩

theorem pending_of_pending {before after : List (Call α)} {input : Nat}
    (hi : input ∈ (ofCalls inputs (before ++ after)).batches.pending) :
    input ∈ (ofCalls inputs before).batches.pending := by
  rw [(follows_ofCalls inputs _).pending] at hi ⊢
  exact (isLive_append.mp hi).1

/-- The batches are finished once every input has and none of them is open. -/
theorem isFinished_iff (inputs : List Nat) (calls : List (Call α)) :
    (ofCalls inputs calls).batches.isFinished = true ↔
      (∀ input ∈ inputs, .complete input ∈ calls ∨ .forceClose ∈ calls) ∧
        ∀ id ∈ (ofCalls inputs calls).all.map (·.id),
          id ∈ (ofCalls inputs calls).closed.map (·.id) := by
  have h := follows_ofCalls inputs calls
  have hs := settled_ofCalls inputs calls
  rw [isFinished, Bool.and_eq_true, List.isEmpty_iff, List.isEmpty_iff]
  constructor
  · rintro ⟨hpending, hopened⟩
    refine ⟨fun input hi => ?_, fun id hid => ?_⟩
    · rw [← finishes_iff]
      by_contra hnone
      have hlive : IsLive inputs calls input :=
        ⟨hi, fun c hc => by simpa using fun hf => hnone ⟨c, hc, hf⟩⟩
      rw [← h.pending, hpending] at hlive
      cases hlive
    · rw [all, hopened, List.map_nil, List.append_nil] at hid
      exact hid
  · rintro ⟨hdone, hclosed⟩
    have hpending : (ofCalls inputs calls).batches.pending = [] := by
      rw [List.eq_nil_iff_forall_not_mem]
      intro input hi
      obtain ⟨hi, hnone⟩ := (h.pending input).mp hi
      obtain ⟨c, hc, hf⟩ := finishes_iff.mpr (hdone input hi)
      rw [hnone c hc] at hf
      cases hf
    refine ⟨hpending, ?_⟩
    -- an open batch would wait for a pending input
    rw [List.eq_nil_iff_forall_not_mem]
    intro b hb
    obtain ⟨input, hi⟩ := List.exists_mem_of_ne_nil _ (hs.waits b hb)
    have := ((h.expected b hb input).mp hi).1
    rw [hpending] at this
    cases this

/-- **Batches close when nothing is awaited.**  After any calls a batch is closed exactly if it was
opened and every input that was pending then has delivered to it since or has finished since; the
batches are taken in the order of their numbers, none left out and none twice; and they are finished
exactly if every input is and every batch that was opened is closed. -/
theorem closes_when_awaited (inputs : List Nat) (calls : List (Call α)) :
    let l := ofCalls inputs calls
    (∀ id, id ∈ l.closed.map (·.id) ↔
      ∃ before c after, calls = before ++ c :: after ∧ Opens inputs before c id ∧
        ∀ input ∈ (ofCalls inputs before).batches.pending,
          (∃ b ∈ l.all, b.id = id ∧ input ∈ b.contributors) ∨
            .complete input ∈ after ∨ .forceClose ∈ after) ∧
    l.taken.map (·.id) = List.range l.taken.length ∧
    (l.batches.isFinished = true ↔
      (∀ input ∈ inputs, .complete input ∈ calls ∨ .forceClose ∈ calls) ∧
        ∀ id ∈ l.all.map (·.id), id ∈ l.closed.map (·.id)) := by
  intro l
  have h : Follows inputs calls l := follows_ofCalls inputs calls
  have hs : Settled l := settled_ofCalls inputs calls
  refine ⟨fun id => ⟨fun hc => ?_, ?_⟩, hs.ids_taken, isFinished_iff inputs calls⟩
  · have hid : id ∈ l.all.map (·.id) := by
      rw [all, List.map_append]
      exact List.mem_append_left _ hc
    obtain ⟨before, c, after, rfl, ho⟩ := exists_opens hid
    refine ⟨before, c, after, rfl, ho, fun input hi => ?_⟩
    rw [h.contributes_iff hid, or_iff_not_imp_right, ← pending_since ho hi]
    exact (h.mem_closed_iff hs hid).mp hc input
  · rintro ⟨before, c, after, rfl, ho, hall⟩
    have hid : id ∈ l.all.map (·.id) := by
      have hthere : id ∈ (ofCalls inputs ((before ++ [c]) ++ after)).all.map (·.id) :=
        mem_ids_append ho.2
      rwa [List.append_assoc, List.singleton_append] at hthere
    refine (h.mem_closed_iff hs hid).mpr fun input hi => ?_
    have hthen := pending_of_pending hi
    have := hall input hthen
    rw [h.contributes_iff hid, or_iff_not_imp_right, ← pending_since ho hthen] at this
    exact this hi

/-- One input completes, and both batches that were waiting for it close. -/
example : (ofCalls [0, 1] [.add 0 ["a"], .add 0 ["b"], .complete 1, .takeClosed]).taken =
    [⟨0, [0], ["a"]⟩, ⟨1, [0], ["b"]⟩] := rfl

end Ledger

end TripleLoom.Batches
