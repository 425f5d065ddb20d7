import TripleLoom.Proofs.Batches.History

/-!
# TripleLoom.Proofs.Batches.Rounds — the batches are the rounds

The first open batch that waits for an input is the one whose number is the number of adds the input
has made.  `Ledger.Follows` is the invariant behind it: an open batch waits for exactly the live
inputs that have not made more adds than its number, and every live input is past the closed ones.
So the batch of a number holds the adds of that round (`Ledger.batch_eq_round`), and no item is lost
or doubled on the way.
-/

namespace TripleLoom.Batches

variable {α : Type}

/-! ### The first batch that waits -/

theorem deliverFirst?_eq_none {input : Nat} {items : List α} :
    ∀ {opened : List (OpenBatch α)}, OpenBatch.deliverFirst? input items opened = none →
      ∀ b ∈ opened, input ∉ b.expected
  | [], _ => by simp
  | b :: rest, h => by
    unfold OpenBatch.deliverFirst? at h
    split at h
    · simp at h
    · next hb =>
      rw [Option.map_eq_none_iff] at h
      intro d hd
      rcases List.mem_cons.mp hd with rfl | hd
      · exact hb
      · exact deliverFirst?_eq_none h d hd

theorem deliverFirst?_eq_some {input : Nat} {items : List α} :
    ∀ {opened delivered : List (OpenBatch α)},
      OpenBatch.deliverFirst? input items opened = some delivered →
      ∃ front b back, opened = front ++ b :: back ∧
        delivered = front ++ b.deliver input items :: back ∧ input ∈ b.expected ∧
        ∀ d ∈ front, input ∉ d.expected
  | [], _, h => by simp [OpenBatch.deliverFirst?] at h
  | b :: rest, delivered, h => by
    unfold OpenBatch.deliverFirst? at h
    split at h
    · next hb =>
      rw [Option.some.injEq] at h
      exact ⟨[], b, rest, rfl, h.symm, hb, by simp⟩
    · next hb =>
      obtain ⟨tail, ht, rfl⟩ := Option.map_eq_some_iff.mp h
      obtain ⟨front, d, back, rfl, rfl, hd, hf⟩ := deliverFirst?_eq_some ht
      refine ⟨b :: front, d, back, rfl, rfl, hd, fun e he => ?_⟩
      rcases List.mem_cons.mp he with rfl | he
      · exact hb
      · exact hf e he

/-! ### The invariant -/

/-- A batch holds exactly the given adds, in their order. -/
def Holds (b : ClosedBatch α) (adds : List (Nat × List α)) : Prop :=
  b.contributors = adds.map (·.1) ∧ b.items = adds.flatMap (·.2)

namespace Ledger

/-- A ledger is as the history of its calls says. -/
structure Follows (inputs : List Nat) (calls : List (Call α)) (l : Ledger α) : Prop where
  /-- The inputs that are not finished are the live ones. -/
  pending : ∀ input, input ∈ l.batches.pending ↔ IsLive inputs calls input
  /-- The batches are numbered without gaps. -/
  ids : (l.all.map (·.id)).Perm (List.range l.batches.nextId)
  sorted : l.batches.opened.Pairwise (·.id < ·.id)
  holds : ∀ b ∈ l.all, Holds b (ofRound b.id (accepted inputs calls))
  /-- There is a batch for every round that has adds, -/
  count_le : ∀ input, addCount (accepted inputs calls) input ≤ l.batches.nextId
  /-- and for no other. -/
  exists_count : ∀ id < l.batches.nextId, ∃ input, id < addCount (accepted inputs calls) input
  /-- An open batch waits for the live inputs that have not delivered to it. -/
  expected : ∀ b ∈ l.batches.opened, ∀ input, input ∈ b.expected ↔
    input ∈ l.batches.pending ∧ addCount (accepted inputs calls) input ≤ b.id
  /-- Every live input has delivered to all closed batches. -/
  passed : ∀ b ∈ l.closed, ∀ input ∈ l.batches.pending,
    b.id < addCount (accepted inputs calls) input

variable {inputs : List Nat} {calls : List (Call α)} {l : Ledger α}

theorem Follows.id_lt (h : Follows inputs calls l) {b : ClosedBatch α} (hb : b ∈ l.all) :
    b.id < l.batches.nextId :=
  List.mem_range.mp (h.ids.mem_iff.mp (List.mem_map_of_mem hb))

theorem Follows.nodup_ids (h : Follows inputs calls l) : (l.all.map (·.id)).Nodup :=
  h.ids.nodup_iff.mpr List.nodup_range

/-- The batch that is numbered by the adds of a live input, if there is one, is open and waits for
it. -/
theorem Follows.exists_opened (h : Follows inputs calls l) {input : Nat}
    (hi : input ∈ l.batches.pending)
    (hlt : addCount (accepted inputs calls) input < l.batches.nextId) :
    ∃ b ∈ l.batches.opened, b.id = addCount (accepted inputs calls) input ∧
      input ∈ b.expected := by
  have hmem := h.ids.mem_iff.mpr (List.mem_range.mpr hlt)
  obtain ⟨b, hb, hid⟩ := List.mem_map.mp hmem
  rcases List.mem_append.mp hb with hb | hb
  · have := h.passed b hb input hi
    omega
  · obtain ⟨o, ho, rfl⟩ := List.mem_map.mp hb
    have hid' : o.id = addCount (accepted inputs calls) input := hid
    exact ⟨o, ho, hid', (h.expected o ho input).mpr ⟨hi, Nat.le_of_eq hid'.symm⟩⟩

theorem follows_ofInputs (inputs : List Nat) :
    Follows inputs [] (⟨.ofInputs inputs, []⟩ : Ledger α) where
  pending input := by simp [ofInputs, IsLive]
  ids := by simp [all, closed, ofInputs]
  sorted := List.Pairwise.nil
  holds b hb := by simp [all, closed, ofInputs] at hb
  count_le input := by simp [accepted, acceptedAfter, addCount, ofInputs]
  exists_count id hid := by simp [ofInputs] at hid
  expected b hb := by simp [ofInputs] at hb
  passed b hb := by simp [closed, ofInputs] at hb

/-! ### Closing the batches that are ready -/

/-- A ledger with other batches. -/
def withBatches (l : Ledger α) (b : Batches α) : Ledger α := { l with batches := b }

theorem perm_all_closeReady (l : Ledger α) :
    (l.withBatches l.batches.closeReady).all.Perm l.all := by
  simp only [all, closed, withBatches, closeReady, List.partition_eq_filter_filter,
    List.append_assoc]
  refine (List.Perm.append_left _ ?_).append_left _
  rw [← List.map_append]
  exact (List.filter_append_perm _ _).map _

theorem Follows.closeReady (h : Follows inputs calls l) :
    Follows inputs calls (l.withBatches l.batches.closeReady) where
  pending := h.pending
  ids := ((perm_all_closeReady l).map _).trans h.ids
  sorted := by
    simp only [withBatches, Batches.closeReady, List.partition_eq_filter_filter]
    exact h.sorted.filter _
  holds b hb := h.holds b ((perm_all_closeReady l).mem_iff.mp hb)
  count_le := h.count_le
  exists_count := h.exists_count
  expected b hb input := by
    simp only [withBatches, Batches.closeReady, List.partition_eq_filter_filter] at hb
    exact h.expected b (List.mem_of_mem_filter hb) input
  passed b hb input hi := by
    simp only [closed, withBatches, Batches.closeReady, List.partition_eq_filter_filter,
      ← List.append_assoc] at hb
    rcases List.mem_append.mp hb with hb | hb
    · exact h.passed b hb input hi
    · -- a batch that is ready waits for no live input
      obtain ⟨o, ho, rfl⟩ := List.mem_map.mp hb
      obtain ⟨ho, he⟩ := List.mem_filter.mp ho
      have hnot : input ∉ o.expected := by
        rw [List.isEmpty_iff.mp he]
        exact List.not_mem_nil
      rw [h.expected o ho input] at hnot
      have : ¬ addCount (accepted inputs calls) input ≤ o.id := fun hc => hnot ⟨hi, hc⟩
      show o.id < _
      omega

/-! ### One call -/

/-- A call that adds nothing and finishes no live input changes nothing in the history. -/
theorem Follows.of_idle (h : Follows inputs calls l) {c : Call α}
    (ha : acceptedOf inputs calls c = [])
    (hf : ∀ input ∈ l.batches.pending, c.finishes input = false) :
    Follows inputs (calls ++ [c]) l := by
  have hacc : accepted inputs (calls ++ [c]) = accepted inputs calls := by
    rw [accepted_concat, ha, List.append_nil]
  constructor
  · intro input
    rw [isLive_concat, h.pending]
    exact ⟨fun hl => ⟨hl, hf input ((h.pending input).mpr hl)⟩, fun hl => hl.1⟩
  all_goals try rw [hacc]
  · exact h.ids
  · exact h.sorted
  · exact h.holds
  · exact h.count_le
  · exact h.exists_count
  · exact h.expected
  · exact h.passed

/-! ### Adding -/

/-- What an accepted add makes of the counts of adds. -/
theorem addCount_accepted (input : Nat) (items : List α) (adds : List (Nat × List α)) (j : Nat) :
    addCount (adds ++ [(input, items)]) j = addCount adds j + if input = j then 1 else 0 :=
  addCount_concat adds (input, items) j

/-- The results of an input go to the batch with the number of the adds it has made. -/
theorem Follows.id_of_first (h : Follows inputs calls l) {input : Nat}
    (hi : input ∈ l.batches.pending) {front back : List (OpenBatch α)} {b : OpenBatch α}
    (ho : l.batches.opened = front ++ b :: back) (hb : input ∈ b.expected)
    (hf : ∀ d ∈ front, input ∉ d.expected) :
    b.id = addCount (accepted inputs calls) input := by
  have hbo : b ∈ l.batches.opened := by rw [ho]; simp
  have hle := ((h.expected b hbo input).mp hb).2
  have hlt : b.id < l.batches.nextId :=
    h.id_lt (b := b.close) (List.mem_append_right _ (List.mem_map_of_mem hbo))
  obtain ⟨d, hd, hid, hde⟩ := h.exists_opened hi (Nat.lt_of_le_of_lt hle hlt)
  rw [ho, List.mem_append, List.mem_cons] at hd
  rcases hd with hd | rfl | hd
  · exact absurd hde (hf d hd)
  · exact hid
  · -- behind `b` the numbers are greater
    have hs := h.sorted
    rw [ho, List.pairwise_append] at hs
    have := (List.pairwise_cons.mp hs.2.1).1 d hd
    omega

/-- An add of a live input is accepted. -/
theorem Follows.accepted_add (h : Follows inputs calls l) {input : Nat} (items : List α)
    (hi : input ∈ l.batches.pending) :
    accepted inputs (calls ++ [.add input items]) =
      accepted inputs calls ++ [(input, items)] := by
  rw [accepted_concat, acceptedOf, if_pos ((h.pending input).mp hi)]

theorem Follows.pending_add (h : Follows inputs calls l) (input : Nat) (items : List α) (j : Nat) :
    j ∈ l.batches.pending ↔ IsLive inputs (calls ++ [.add input items]) j := by
  rw [isLive_concat]
  exact (h.pending j).trans ⟨fun hl => ⟨hl, rfl⟩, fun hl => hl.1⟩

/-- The batches of other rounds hold what they held. -/
theorem Follows.holds_add (h : Follows inputs calls l) {input : Nat} (items : List α)
    {d : ClosedBatch α} (hd : d ∈ l.all) (hne : d.id ≠ addCount (accepted inputs calls) input) :
    Holds d (ofRound d.id (accepted inputs calls ++ [(input, items)])) := by
  rw [ofRound_concat, if_neg (Ne.symm hne), List.append_nil]
  exact h.holds d hd

/-- The batches of other rounds wait for whom they waited for. -/
theorem Follows.expected_add (h : Follows inputs calls l) {input : Nat} (items : List α)
    {d : OpenBatch α} (hd : d ∈ l.batches.opened)
    (hne : d.id ≠ addCount (accepted inputs calls) input) (j : Nat) :
    j ∈ d.expected ↔ j ∈ l.batches.pending ∧
      addCount (accepted inputs calls ++ [(input, items)]) j ≤ d.id := by
  rw [addCount_accepted, h.expected d hd j]
  split
  · next he =>
    subst he
    constructor <;> rintro ⟨hp, hle⟩ <;> exact ⟨hp, by omega⟩
  · rfl

/-- A batch that gets the results of an input does not wait for it any more, nor should it. -/
theorem mem_deliver_expected {adds : List (Nat × List α)} {pending : List Nat} {b : OpenBatch α}
    {input : Nat} (items : List α) (hid : b.id = addCount adds input)
    (hb : ∀ j, j ∈ b.expected ↔ j ∈ pending ∧ addCount adds j ≤ b.id) (j : Nat) :
    j ∈ (b.deliver input items).expected ↔
      j ∈ pending ∧ addCount (adds ++ [(input, items)]) j ≤ (b.deliver input items).id := by
  rw [addCount_accepted]
  show j ∈ b.expected.filter (· ≠ input) ↔ _ ∧ _ ≤ b.id
  rw [List.mem_filter, hb j]
  split
  · next he =>
    subst he
    simp
    omega
  · next he => simp [Ne.symm he]

theorem Follows.passed_add (h : Follows inputs calls l) (input : Nat) (items : List α)
    {d : ClosedBatch α} (hd : d ∈ l.closed) {j : Nat} (hj : j ∈ l.batches.pending) :
    d.id < addCount (accepted inputs calls ++ [(input, items)]) j := by
  have := h.passed d hd j hj
  rw [addCount_accepted]
  omega

theorem Follows.exists_count_add (h : Follows inputs calls l) (input : Nat) (items : List α)
    {id : Nat} (hlt : id < l.batches.nextId) :
    ∃ j, id < addCount (accepted inputs calls ++ [(input, items)]) j := by
  obtain ⟨j, hj⟩ := h.exists_count id hlt
  refine ⟨j, ?_⟩
  rw [addCount_accepted]
  omega

/-- The batch that gets the results holds the adds of its round. -/
theorem holds_deliver {adds : List (Nat × List α)} {b : OpenBatch α} {input : Nat}
    (items : List α) (hid : b.id = addCount adds input)
    (hb : Holds b.close (ofRound b.id adds)) :
    Holds (b.deliver input items).close (ofRound b.id (adds ++ [(input, items)])) := by
  obtain ⟨hc, hx⟩ := hb
  have hc' : b.contributors = (ofRound b.id adds).map (·.1) := hc
  have hx' : b.items = (ofRound b.id adds).flatMap (·.2) := hx
  rw [ofRound_concat, if_pos hid.symm]
  constructor
  · simp [OpenBatch.close, OpenBatch.deliver, hc']
  · simp [OpenBatch.close, OpenBatch.deliver, hx']

/-- Delivering to an open batch. -/
theorem Follows.deliver (h : Follows inputs calls l) {input : Nat} (items : List α)
    (hi : input ∈ l.batches.pending) {front back : List (OpenBatch α)} {b : OpenBatch α}
    (ho : l.batches.opened = front ++ b :: back)
    (hid : b.id = addCount (accepted inputs calls) input) :
    Follows inputs (calls ++ [.add input items])
      (l.withBatches { l.batches with opened := front ++ b.deliver input items :: back }) := by
  have hacc := h.accepted_add items hi
  have hall : l.all = (l.closed ++ front.map OpenBatch.close) ++
      b.close :: back.map OpenBatch.close := by
    simp [all, ho]
  have hbo : b ∈ l.batches.opened := by rw [ho]; simp
  have hs := h.sorted
  rw [ho, List.pairwise_append, List.pairwise_cons] at hs
  constructor
  · exact h.pending_add input items
  · have hids := h.ids
    rw [hall] at hids
    simpa [all, closed, withBatches, OpenBatch.close, OpenBatch.deliver] using hids
  · show List.Pairwise _ (front ++ b.deliver input items :: back)
    rw [List.pairwise_append, List.pairwise_cons]
    refine ⟨hs.1, ⟨hs.2.1.1, hs.2.1.2⟩, fun d hd e he => ?_⟩
    rcases List.mem_cons.mp he with rfl | he
    · exact hs.2.2 d hd b (by simp)
    · exact hs.2.2 d hd e (by simp [he])
  · intro d hd
    rw [hacc]
    -- the numbers differ from each other, so only `b` gets the new add
    have hnd := h.nodup_ids
    rw [hall, List.map_append, List.map_cons, List.nodup_append, List.nodup_cons] at hnd
    have hd' : d ∈ (l.closed ++ front.map OpenBatch.close) ++
        (b.deliver input items).close :: back.map OpenBatch.close := by
      simpa [all, closed, withBatches] using hd
    rw [List.mem_append, List.mem_cons] at hd'
    rcases hd' with hd' | rfl | hd'
    · refine h.holds_add items (by rw [hall]; exact List.mem_append_left _ hd') fun he => ?_
      exact hnd.2.2 d.id (List.mem_map_of_mem hd') b.id (by simp [OpenBatch.close]) (he.trans hid.symm)
    · exact holds_deliver items hid (h.holds b.close (by rw [hall]; simp))
    · refine h.holds_add items (by rw [hall]; simp [hd']) fun he => ?_
      exact hnd.2.1.1 (by
        rw [show b.close.id = d.id from hid.trans he.symm]
        exact List.mem_map_of_mem hd')
  · intro j
    rw [hacc, addCount_accepted]
    have hlt : b.id < l.batches.nextId :=
      h.id_lt (b := b.close) (List.mem_append_right _ (List.mem_map_of_mem hbo))
    have := h.count_le j
    show _ ≤ l.batches.nextId
    split
    · next he => subst he; omega
    · omega
  · intro id hlt
    rw [hacc]
    exact h.exists_count_add input items hlt
  · intro d hd j
    have hd' : d ∈ front ++ b.deliver input items :: back := hd
    rw [hacc]
    rw [List.mem_append, List.mem_cons] at hd'
    rcases hd' with hd' | rfl | hd'
    · have hlt := hs.2.2 d hd' b (by simp)
      exact h.expected_add items (by rw [ho]; simp [hd']) (by omega) j
    · exact mem_deliver_expected items hid (h.expected b hbo) j
    · have hlt := hs.2.1.1 d hd'
      exact h.expected_add items (by rw [ho]; simp [hd']) (by omega) j
  · intro d hd j hj
    rw [hacc]
    exact h.passed_add input items hd hj

/-- Opening a batch with the results of an input. -/
theorem Follows.openWith (h : Follows inputs calls l) {input : Nat} (items : List α)
    (hi : input ∈ l.batches.pending) (hn : ∀ b ∈ l.batches.opened, input ∉ b.expected) :
    Follows inputs (calls ++ [.add input items])
      (l.withBatches { l.batches with
        opened := l.batches.opened ++
          [(OpenBatch.mk l.batches.nextId l.batches.pending [] []).deliver input items]
        nextId := l.batches.nextId + 1 }) := by
  have hacc := h.accepted_add items hi
  have hcount : l.batches.nextId = addCount (accepted inputs calls) input := by
    refine Nat.le_antisymm (Nat.le_of_not_lt fun hlt => ?_) (h.count_le input)
    obtain ⟨b, hb, -, he⟩ := h.exists_opened hi hlt
    exact hn b hb he
  have hall : (l.withBatches { l.batches with
      opened := l.batches.opened ++
        [(OpenBatch.mk l.batches.nextId l.batches.pending [] []).deliver input items]
      nextId := l.batches.nextId + 1 }).all = l.all ++
        [((OpenBatch.mk l.batches.nextId l.batches.pending [] []).deliver input items).close] := by
    simp [all, closed, withBatches]
  have hids : ∀ b ∈ l.batches.opened, b.id < l.batches.nextId := fun b hb =>
    h.id_lt (b := b.close) (List.mem_append_right _ (List.mem_map_of_mem hb))
  constructor
  · exact h.pending_add input items
  · rw [hall, List.map_append]
    show List.Perm _ (List.range (l.batches.nextId + 1))
    rw [List.range_succ]
    exact h.ids.append_right _
  · show List.Pairwise _ (l.batches.opened ++ [_])
    rw [List.pairwise_append]
    refine ⟨h.sorted, List.pairwise_singleton _ _, fun b hb d hd => ?_⟩
    rw [List.mem_singleton.mp hd]
    exact hids b hb
  · intro d hd
    rw [hall, List.mem_append, List.mem_singleton] at hd
    rw [hacc]
    rcases hd with hd | rfl
    · have := h.id_lt hd
      exact h.holds_add items hd (by omega)
    · -- nobody has an add in the new round yet
      have hempty : ofRound l.batches.nextId (accepted inputs calls) = [] := by
        rw [← List.map_eq_nil_iff (f := (·.1)), List.eq_nil_iff_forall_not_mem]
        intro j hj
        rw [mem_ofRound_inputs] at hj
        have := h.count_le j
        omega
      exact holds_deliver items hcount (by rw [hempty]; exact ⟨rfl, rfl⟩)
  · intro j
    have := h.count_le j
    rw [hacc, addCount_accepted]
    show _ ≤ l.batches.nextId + 1
    split <;> omega
  · intro id hlt
    have hlt' : id < l.batches.nextId + 1 := hlt
    rw [hacc]
    rcases Nat.lt_or_eq_of_le (Nat.le_of_lt_succ hlt') with hlt' | rfl
    · exact h.exists_count_add input items hlt'
    · refine ⟨input, ?_⟩
      rw [addCount_accepted, if_pos rfl]
      omega
  · intro d hd j
    have hd' : d ∈ l.batches.opened ++
      [(OpenBatch.mk l.batches.nextId l.batches.pending [] []).deliver input items] := hd
    rw [hacc]
    rw [List.mem_append, List.mem_singleton] at hd'
    rcases hd' with hd' | rfl
    · have := hids d hd'
      exact h.expected_add items hd' (by omega) j
    · refine mem_deliver_expected items hcount (fun k => ?_) j
      exact ⟨fun hk => ⟨hk, h.count_le k⟩, fun hk => hk.1⟩
  · intro d hd j hj
    rw [hacc]
    exact h.passed_add input items hd hj

/-! ### Every call -/

theorem Follows.add (h : Follows inputs calls l) (input : Nat) (items : List α) :
    Follows inputs (calls ++ [.add input items]) (l.receive (.add input items)) := by
  by_cases hi : input ∈ l.batches.pending
  · cases hd : OpenBatch.deliverFirst? input items l.batches.opened with
    | some delivered =>
      obtain ⟨front, b, back, ho, rfl, hb, hf⟩ := deliverFirst?_eq_some hd
      have hid := h.id_of_first hi ho hb hf
      simpa [receive, Batches.add, hi, hd, withBatches] using
        (h.deliver items hi ho hid).closeReady
    | none =>
      simpa [receive, Batches.add, hi, hd, withBatches] using
        (h.openWith items hi (deliverFirst?_eq_none hd)).closeReady
  · have hl : ¬ IsLive inputs calls input := fun hl => hi ((h.pending input).mpr hl)
    have hr : l.receive (.add input items) = l := by simp [receive, Batches.add, hi]
    rw [hr]
    exact h.of_idle (by rw [acceptedOf, if_neg hl]) fun _ _ => rfl

/-- No batch waits any more for an input that is complete. -/
theorem Follows.release (h : Follows inputs calls l) (input : Nat) :
    Follows inputs (calls ++ [.complete input]) (l.withBatches { l.batches with
      pending := l.batches.pending.filter (· ≠ input)
      opened := l.batches.opened.map (·.release input) }) := by
  have hacc : accepted inputs (calls ++ [.complete input]) = accepted inputs calls := by
    rw [accepted_concat, acceptedOf, List.append_nil]
    simp
  have hall : (l.withBatches { l.batches with
      pending := l.batches.pending.filter (· ≠ input)
      opened := l.batches.opened.map (·.release input) }).all = l.all := by
    simp [all, closed, withBatches, OpenBatch.release, OpenBatch.close, Function.comp_def]
  constructor
  · intro j
    rw [isLive_concat, ← h.pending j]
    show j ∈ l.batches.pending.filter (· ≠ input) ↔ _
    rw [List.mem_filter, decide_eq_true_iff, Call.finishes, beq_eq_false_iff_ne, ne_comm]
  · rw [hall]
    exact h.ids
  · show List.Pairwise _ (l.batches.opened.map (·.release input))
    rw [List.pairwise_map]
    exact h.sorted
  · rw [hall, hacc]
    exact h.holds
  · rw [hacc]
    exact h.count_le
  · rw [hacc]
    exact h.exists_count
  · intro d hd j
    obtain ⟨b, hb, rfl⟩ := List.mem_map.mp hd
    rw [hacc]
    show j ∈ b.expected.filter (· ≠ input) ↔
      j ∈ l.batches.pending.filter (· ≠ input) ∧ _ ≤ b.id
    rw [List.mem_filter, List.mem_filter, h.expected b hb j, and_right_comm]
  · intro d hd j hj
    rw [hacc]
    exact h.passed d hd j (List.mem_of_mem_filter hj)

theorem Follows.complete (h : Follows inputs calls l) (input : Nat) :
    Follows inputs (calls ++ [.complete input]) (l.receive (.complete input)) := by
  by_cases hi : input ∈ l.batches.pending
  · simpa [receive, Batches.complete, hi, withBatches] using (h.release input).closeReady
  · have hr : l.receive (.complete input) = l := by simp [receive, Batches.complete, hi]
    rw [hr]
    refine h.of_idle rfl fun j hj => ?_
    have hne : input ≠ j := fun he => hi (he ▸ hj)
    simp [Call.finishes, hne]

theorem Follows.forceClose (h : Follows inputs calls l) :
    Follows inputs (calls ++ [.forceClose]) (l.receive .forceClose) := by
  have hacc : accepted inputs (calls ++ [.forceClose]) = accepted inputs calls := by
    rw [accepted_concat, acceptedOf, List.append_nil]
    simp
  have hall : (l.receive .forceClose).all = l.all := by
    simp [all, closed, receive, Batches.forceClose]
  constructor
  · intro j
    rw [isLive_concat]
    simp [receive, Batches.forceClose, Call.finishes]
  · rw [hall]
    exact h.ids
  · exact List.Pairwise.nil
  · rw [hall, hacc]
    exact h.holds
  · rw [hacc]
    exact h.count_le
  · rw [hacc]
    exact h.exists_count
  · intro d hd
    exact absurd hd List.not_mem_nil
  · intro d hd j hj
    exact absurd hj List.not_mem_nil

theorem Follows.takeClosed (h : Follows inputs calls l) :
    Follows inputs (calls ++ [.takeClosed]) (l.receive .takeClosed) := by
  have hclosed : (l.receive .takeClosed).closed = l.closed := by
    simp [closed, receive, Batches.takeClosed]
  have hall : (l.receive .takeClosed).all = l.all := by
    rw [all, hclosed]
    rfl
  have h' := h.of_idle (c := .takeClosed) rfl fun _ _ => rfl
  constructor
  · exact h'.pending
  · rw [hall]
    exact h'.ids
  · exact h'.sorted
  · rw [hall]
    exact h'.holds
  · exact h'.count_le
  · exact h'.exists_count
  · exact h'.expected
  · rw [hclosed]
    exact h'.passed

/-- What one call keeps. -/
theorem Follows.receive (h : Follows inputs calls l) (c : Call α) :
    Follows inputs (calls ++ [c]) (l.receive c) := by
  cases c with
  | add input items => exact h.add input items
  | complete input => exact h.complete input
  | forceClose => exact h.forceClose
  | takeClosed => exact h.takeClosed

/-- What all calls keep. -/
theorem follows_ofCalls (inputs : List Nat) (calls : List (Call α)) :
    Follows inputs calls (ofCalls inputs calls) := by
  induction calls using List.reverseRecOn with
  | nil => exact follows_ofInputs inputs
  | append_singleton calls c ih =>
    rw [ofCalls_concat]
    exact ih.receive c

/-! ### What the batches hold -/

/-- The items of batches that hold their rounds are those of the rounds. -/
theorem Follows.flatMap_items (h : Follows inputs calls l) {bs : List (ClosedBatch α)}
    (hbs : ∀ b ∈ bs, b ∈ l.all) :
    bs.flatMap (·.items) = ((bs.map (·.id)).flatMap fun round =>
      ofRound round (accepted inputs calls)).flatMap (·.2) := by
  rw [List.flatMap_map, List.flatMap_assoc]
  exact List.flatMap_congr fun b hb => (h.holds b (hbs b hb)).2

theorem Follows.perm_items (h : Follows inputs calls l) :
    (l.all.flatMap (·.items)).Perm ((accepted inputs calls).flatMap (·.2)) := by
  rw [h.flatMap_items fun b hb => hb]
  exact ((h.ids.flatMap_right _).trans (perm_flatMap_ofRound h.count_le)).flatMap_right _

/-- Batches in the order of their numbers. -/
theorem Follows.ids_of_sorted (h : Follows inputs calls l) {bs : List (ClosedBatch α)}
    (hp : bs.Perm l.all) (hs : bs.Pairwise (·.id < ·.id)) :
    bs.map (·.id) = List.range l.batches.nextId := by
  have hperm := (hp.map (·.id)).trans h.ids
  refine hperm.eq_of_pairwise (fun a b _ _ hab hba => ?_) ?_ List.pairwise_lt_range
  · exact absurd hab (Nat.lt_asymm hba)
  · rw [List.pairwise_map]
    exact hs

/-- In the order of the batches' numbers the items of an input come in the order of its adds. -/
theorem Follows.filter_items (h : Follows inputs calls l) {bs : List (ClosedBatch α)}
    (hp : bs.Perm l.all) (hs : bs.Pairwise (·.id < ·.id)) (input : Nat) {owner : α → Nat}
    (ho : ∀ a ∈ accepted inputs calls, ∀ x ∈ a.2, owner x = a.1) :
    (bs.flatMap (·.items)).filter (owner · == input) =
      (addsOf input (accepted inputs calls)).flatMap (·.2) := by
  have hown : ∀ a ∈ accepted inputs calls,
      a.2.filter (owner · == input) = if a.1 == input then a.2 else [] := by
    intro a ha
    by_cases he : a.1 = input
    · simp only [he, beq_self_eq_true, if_true, List.filter_eq_self]
      intro x hx
      rw [ho a ha x hx, he, beq_self_eq_true]
    · rw [if_neg (by simpa using he), List.filter_eq_nil_iff]
      intro x hx
      rw [ho a ha x hx]
      simpa using he
  have hround : ∀ round, ((ofRound round (accepted inputs calls)).flatMap (·.2)).filter
      (owner · == input) = (addsOf input (ofRound round (accepted inputs calls))).flatMap (·.2) := by
    intro round
    rw [List.filter_flatMap, addsOf]
    have hmem : ∀ a ∈ ofRound round (accepted inputs calls), a ∈ accepted inputs calls :=
      fun a ha => (ofRound_sublist round _).subset ha
    generalize ofRound round (accepted inputs calls) = adds at hmem
    induction adds with
    | nil => rfl
    | cons a rest ih =>
      rw [List.flatMap_cons, List.filter_cons, hown a (hmem a (by simp)),
        ih fun b hb => hmem b (by simp [hb])]
      split <;> simp
  rw [h.flatMap_items fun b hb => hp.mem_iff.mp hb, h.ids_of_sorted hp hs, List.flatMap_assoc,
    List.filter_flatMap, ← flatMap_addsOf_ofRound input (h.count_le input), List.flatMap_assoc]
  exact List.flatMap_congr fun round _ => hround round

/-- In the order of the batches' numbers the items of an input are found in the order of its
adds. -/
theorem Follows.items_sublist (h : Follows inputs calls l) {bs : List (ClosedBatch α)}
    (hp : bs.Perm l.all) (hs : bs.Pairwise (·.id < ·.id)) (input : Nat) :
    ((addsOf input (accepted inputs calls)).flatMap (·.2)).Sublist (bs.flatMap (·.items)) := by
  rw [h.flatMap_items fun b hb => hp.mem_iff.mp hb, h.ids_of_sorted hp hs, List.flatMap_assoc,
    ← flatMap_addsOf_ofRound input (h.count_le input), List.flatMap_assoc]
  exact List.Sublist.flatMap_right _ fun round _ => List.filter_sublist.flatMap _

/-- Once the batches are finished nothing is missing from the closed ones. -/
theorem Follows.perm_closed_items (h : Follows inputs calls l)
    (hf : l.batches.isFinished = true) :
    (l.closed.flatMap (·.items)).Perm ((accepted inputs calls).flatMap (·.2)) := by
  have ho : l.batches.opened = [] := by
    rw [isFinished, Bool.and_eq_true, List.isEmpty_iff, List.isEmpty_iff] at hf
    exact hf.2
  have hall : l.all = l.closed := by simp [all, ho]
  rw [← hall]
  exact h.perm_items

/-- **Batches are rounds.**  After any calls the batches that were taken, are closed or still open
are numbered by the rounds that have adds, each number once; the batch of a number holds the adds of
its round and nothing else, and its contributors are their inputs, each once.  So all items of the
accepted adds are there once, those of one input in the order of the batches' numbers, and once the
batches are finished none is missing from the closed ones. -/
theorem batch_eq_round (inputs : List Nat) (calls : List (Call α)) :
    let adds := accepted inputs calls
    let l := Ledger.ofCalls inputs calls
    (l.all.map (·.id)).Nodup ∧
    (∀ id, id ∈ l.all.map (·.id) ↔ ∃ input, id < addCount adds input) ∧
    (∀ b ∈ l.all, b.contributors = (ofRound b.id adds).map (·.1) ∧ b.contributors.Nodup ∧
      b.items = (ofRound b.id adds).flatMap (·.2)) ∧
    (l.all.flatMap (·.items)).Perm (adds.flatMap (·.2)) ∧
    (∀ bs : List (ClosedBatch α), bs.Perm l.all → bs.Pairwise (·.id < ·.id) → ∀ input,
      ((addsOf input adds).flatMap (·.2)).Sublist (bs.flatMap (·.items)) ∧
      ∀ owner : α → Nat, (∀ a ∈ adds, ∀ x ∈ a.2, owner x = a.1) →
        (bs.flatMap (·.items)).filter (owner · == input) = (addsOf input adds).flatMap (·.2)) ∧
    (l.batches.isFinished = true → (l.closed.flatMap (·.items)).Perm (adds.flatMap (·.2))) := by
  intro adds l
  have h : Follows inputs calls l := follows_ofCalls inputs calls
  refine ⟨h.nodup_ids, fun id => ?_, fun b hb => ?_, h.perm_items, fun bs hp hs input => ?_,
    h.perm_closed_items⟩
  · rw [h.ids.mem_iff, List.mem_range]
    constructor
    · exact h.exists_count id
    · rintro ⟨input, hlt⟩
      exact Nat.lt_of_lt_of_le hlt (h.count_le input)
  · obtain ⟨hc, hx⟩ := h.holds b hb
    exact ⟨hc, hc ▸ nodup_ofRound_inputs b.id adds, hx⟩
  · exact ⟨h.items_sublist hp hs input, fun owner ho => h.filter_items hp hs input ho⟩

end Ledger

end TripleLoom.Batches
