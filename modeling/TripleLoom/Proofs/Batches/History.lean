import Mathlib.Data.List.Flatten
import Mathlib.Data.List.Induction
import Mathlib.Data.List.Perm.Basic
import TripleLoom.Batches

/-!
# TripleLoom.Proofs.Batches.History — what was asked of batches, and what came of it

A history is a list of calls on batches that started out with some inputs.  `accepted` reads off the
history alone which adds count: those of an initial input that nothing has finished before.
`ofRound k` are the adds among them that are the `k+1`-st of their input.  `Ledger.ofCalls` makes the
calls and keeps everything that was taken.
-/

namespace TripleLoom.Batches

variable {α : Type}

/-- A call on batches. -/
inductive Call (α : Type) where
  | add (input : Nat) (items : List α)
  | complete (input : Nat)
  | forceClose
  | takeClosed

/-! ### Which adds count -/

/-- Whether a call finishes an input. -/
def Call.finishes (input : Nat) : Call α → Bool
  | .complete i => i == input
  | .forceClose => true
  | .add .. | .takeClosed => false

/-- Whether an input is still live after some calls: it is an initial one and none of the calls
finished it. -/
def IsLive (inputs : List Nat) (calls : List (Call α)) (input : Nat) : Prop :=
  input ∈ inputs ∧ ∀ c ∈ calls, c.finishes input = false

instance (inputs : List Nat) (calls : List (Call α)) (input : Nat) :
    Decidable (IsLive inputs calls input) :=
  inferInstanceAs (Decidable (_ ∧ _))

/-- The accepted adds of some calls that come behind others. -/
def acceptedAfter (inputs : List Nat) (before : List (Call α)) :
    List (Call α) → List (Nat × List α)
  | [] => []
  | .add input items :: rest =>
    if IsLive inputs before input then
      (input, items) :: acceptedAfter inputs (before ++ [.add input items]) rest
    else acceptedAfter inputs (before ++ [.add input items]) rest
  | c :: rest => acceptedAfter inputs (before ++ [c]) rest

/-- The accepted adds of a history: their inputs and items, in order. -/
def accepted (inputs : List Nat) (calls : List (Call α)) : List (Nat × List α) :=
  acceptedAfter inputs [] calls

/-- What one more call adds to the accepted adds. -/
def acceptedOf (inputs : List Nat) (before : List (Call α)) : Call α → List (Nat × List α)
  | .add input items => if IsLive inputs before input then [(input, items)] else []
  | _ => []

theorem acceptedAfter_concat (inputs : List Nat) (c : Call α) :
    ∀ before calls : List (Call α), acceptedAfter inputs before (calls ++ [c]) =
      acceptedAfter inputs before calls ++ acceptedOf inputs (before ++ calls) c
  | before, [] => by
    cases c <;> simp [acceptedAfter, acceptedOf]
  | before, d :: calls => by
    have ih := acceptedAfter_concat inputs c (before ++ [d]) calls
    rw [List.append_assoc, List.singleton_append] at ih
    cases d with
    | add input items =>
      simp only [List.cons_append, acceptedAfter]
      split <;> simp [ih]
    | complete | forceClose | takeClosed => exact ih

theorem accepted_concat (inputs : List Nat) (calls : List (Call α)) (c : Call α) :
    accepted inputs (calls ++ [c]) = accepted inputs calls ++ acceptedOf inputs calls c :=
  acceptedAfter_concat inputs c [] calls

theorem isLive_concat {inputs : List Nat} {calls : List (Call α)} {c : Call α} {input : Nat} :
    IsLive inputs (calls ++ [c]) input ↔
      IsLive inputs calls input ∧ c.finishes input = false := by
  unfold IsLive
  constructor
  · rintro ⟨hi, hc⟩
    exact ⟨⟨hi, fun d hd => hc d (by simp [hd])⟩, hc c (by simp)⟩
  · rintro ⟨⟨hi, hc⟩, hl⟩
    refine ⟨hi, fun d hd => ?_⟩
    rcases List.mem_append.mp hd with hd | hd
    · exact hc d hd
    · rw [List.mem_singleton.mp hd]
      exact hl

/-! ### Rounds -/

/-- The adds of an input. -/
def addsOf (input : Nat) (adds : List (Nat × List α)) : List (Nat × List α) :=
  adds.filter (·.1 == input)

/-- The number of the adds of an input. -/
def addCount (adds : List (Nat × List α)) (input : Nat) : Nat := adds.countP (·.1 == input)

/-- The adds of a round that come behind others: those before which their input has made as many
adds as the round's number. -/
def ofRoundAfter (round : Nat) (before : List (Nat × List α)) :
    List (Nat × List α) → List (Nat × List α)
  | [] => []
  | a :: rest =>
    if addCount before a.1 = round then a :: ofRoundAfter round (before ++ [a]) rest
    else ofRoundAfter round (before ++ [a]) rest

/-- The adds of a round, in order: of every input the one before which it has made as many adds as
the round's number. -/
def ofRound (round : Nat) (adds : List (Nat × List α)) : List (Nat × List α) :=
  ofRoundAfter round [] adds

@[simp] theorem ofRound_nil (round : Nat) : ofRound round ([] : List (Nat × List α)) = [] := rfl

theorem ofRoundAfter_concat (round : Nat) (a : Nat × List α) :
    ∀ before adds : List (Nat × List α), ofRoundAfter round before (adds ++ [a]) =
      ofRoundAfter round before adds ++ if addCount (before ++ adds) a.1 = round then [a] else []
  | before, [] => by simp [ofRoundAfter]
  | before, b :: adds => by
    have ih := ofRoundAfter_concat round a (before ++ [b]) adds
    rw [List.append_assoc, List.singleton_append] at ih
    simp only [List.cons_append, ofRoundAfter]
    split <;> simp [ih]

theorem ofRound_concat (round : Nat) (adds : List (Nat × List α)) (a : Nat × List α) :
    ofRound round (adds ++ [a]) =
      ofRound round adds ++ if addCount adds a.1 = round then [a] else [] :=
  ofRoundAfter_concat round a [] adds

theorem ofRoundAfter_sublist (round : Nat) :
    ∀ before adds : List (Nat × List α), (ofRoundAfter round before adds).Sublist adds
  | _, [] => .slnil
  | before, a :: adds => by
    have ih := ofRoundAfter_sublist round (before ++ [a]) adds
    unfold ofRoundAfter
    split
    · exact ih.cons_cons a
    · exact ih.cons a

theorem ofRound_sublist (round : Nat) (adds : List (Nat × List α)) :
    (ofRound round adds).Sublist adds :=
  ofRoundAfter_sublist round [] adds

theorem addCount_concat (adds : List (Nat × List α)) (a : Nat × List α) (input : Nat) :
    addCount (adds ++ [a]) input = addCount adds input + if a.1 = input then 1 else 0 := by
  unfold addCount
  rw [List.countP_append]
  by_cases h : a.1 = input <;> simp [h]

theorem addCount_map {β : Type} (f : Nat × List α → List β) (adds : List (Nat × List α))
    (input : Nat) : addCount (adds.map fun a => (a.1, f a)) input = addCount adds input := by
  rw [addCount, List.countP_map]
  rfl

/-- The rounds depend on the inputs of the adds alone. -/
theorem ofRound_map {β : Type} (f : Nat × List α → List β) (round : Nat)
    (adds : List (Nat × List α)) : ofRound round (adds.map fun a => (a.1, f a)) =
      (ofRound round adds).map fun a => (a.1, f a) := by
  induction adds using List.reverseRecOn with
  | nil => rfl
  | append_singleton adds a ih =>
    rw [List.map_append, List.map_singleton, ofRound_concat, ofRound_concat, ih, addCount_map,
      List.map_append]
    split <;> rfl

/-- Inputs that are past a round add nothing to it any more. -/
theorem ofRound_append_of_lt {round : Nat} {adds more : List (Nat × List α)}
    (h : ∀ a ∈ more, round < addCount adds a.1) : ofRound round (adds ++ more) = ofRound round adds := by
  induction more using List.reverseRecOn with
  | nil => rw [List.append_nil]
  | append_singleton more a ih =>
    have hlt : round < addCount adds a.1 := h a (by simp)
    have hle : addCount adds a.1 ≤ addCount (adds ++ more) a.1 := by
      rw [addCount, addCount, List.countP_append]
      exact Nat.le_add_right _ _
    rw [← List.append_assoc, ofRound_concat, ih fun b hb => h b (List.mem_append_left _ hb),
      if_neg (by omega), List.append_nil]

/-- An input has an add in a round exactly if it has made more adds than the round's number. -/
theorem mem_ofRound_inputs {round : Nat} {adds : List (Nat × List α)} {input : Nat} :
    input ∈ (ofRound round adds).map (·.1) ↔ round < addCount adds input := by
  induction adds using List.reverseRecOn with
  | nil => simp [addCount]
  | append_singleton adds a ih =>
    rw [ofRound_concat, addCount_concat, List.map_append, List.mem_append, ih]
    by_cases ha : a.1 = input
    · subst ha
      by_cases hr : addCount adds a.1 = round
      · simp [hr]
      · simp only [hr, if_false, List.map_nil, List.not_mem_nil, or_false, if_true]
        omega
    · by_cases hr : addCount adds a.1 = round
      · simp [hr, ha, Ne.symm ha]
      · simp [hr, ha]

/-- No input has two adds in a round. -/
theorem nodup_ofRound_inputs (round : Nat) (adds : List (Nat × List α)) :
    ((ofRound round adds).map (·.1)).Nodup := by
  induction adds using List.reverseRecOn with
  | nil => simp
  | append_singleton adds a ih =>
    rw [ofRound_concat]
    by_cases hr : addCount adds a.1 = round
    · have hn : a.1 ∉ (ofRound round adds).map (·.1) := by
        rw [mem_ofRound_inputs]
        omega
      rw [if_pos hr, List.map_append, List.nodup_append]
      refine ⟨ih, by simp, fun i hi j hj hij => hn ?_⟩
      rw [List.map_singleton, List.mem_singleton] at hj
      rw [← hj, ← hij]
      exact hi
    · rw [if_neg hr, List.append_nil]
      exact ih

theorem addsOf_append (input : Nat) (adds more : List (Nat × List α)) :
    addsOf input (adds ++ more) = addsOf input adds ++ addsOf input more :=
  List.filter_append adds more

/-- Of an input a round holds the add with the round's number. -/
theorem addsOf_ofRound (input round : Nat) (adds : List (Nat × List α)) :
    addsOf input (ofRound round adds) = ((addsOf input adds)[round]?).toList := by
  induction adds using List.reverseRecOn with
  | nil => simp [addsOf]
  | append_singleton adds a ih =>
    have hlen : (addsOf input adds).length = addCount adds input :=
      List.countP_eq_length_filter.symm
    rw [ofRound_concat, addsOf_append, addsOf_append, ih, List.getElem?_append, hlen]
    by_cases ha : a.1 = input
    · subst ha
      have ha' : addsOf a.1 [a] = [a] := by simp [addsOf]
      rw [ha']
      rcases Nat.lt_trichotomy round (addCount adds a.1) with hr | hr | hr
      · rw [if_neg (Nat.ne_of_gt hr), if_pos hr]
        exact List.append_nil _
      · subst hr
        rw [if_pos rfl, ha', if_neg (Nat.lt_irrefl _), List.getElem?_eq_none (by omega)]
        simp
      · rw [if_neg (Nat.ne_of_lt hr), if_neg (by omega), List.getElem?_eq_none (by omega),
          List.getElem?_eq_none (by simp; omega)]
        rfl
    · have ha' : addsOf input [a] = [] := by simp [addsOf, ha]
      have hif : addsOf input (if addCount adds a.1 = round then [a] else []) = [] := by
        split
        · exact ha'
        · rfl
      rw [hif, ha', List.append_nil]
      split
      · rfl
      · rw [List.getElem?_eq_none (by omega)]
        rfl

/-- The rounds one after the other hold the adds of an input in their order. -/
theorem flatMap_addsOf_ofRound (input : Nat) {adds : List (Nat × List α)} {n : Nat}
    (h : addCount adds input ≤ n) :
    ((List.range n).flatMap fun round => addsOf input (ofRound round adds)) =
      addsOf input adds := by
  have htake : ∀ m, ((List.range m).flatMap fun round => addsOf input (ofRound round adds)) =
      (addsOf input adds).take m := by
    intro m
    induction m with
    | zero => rfl
    | succ m ih =>
      rw [List.range_succ, List.flatMap_append, ih, List.flatMap_singleton, addsOf_ofRound,
        List.take_add_one]
  rw [htake, List.take_of_length_le]
  rw [addsOf, ← List.countP_eq_length_filter]
  exact h

/-- The rounds together hold every add once. -/
theorem perm_flatMap_ofRound {adds : List (Nat × List α)} {n : Nat}
    (h : ∀ input, addCount adds input ≤ n) :
    ((List.range n).flatMap fun round => ofRound round adds).Perm adds := by
  induction adds using List.reverseRecOn with
  | nil => simp
  | append_singleton adds a ih =>
    have hle : ∀ input, addCount adds input ≤ n := fun input => by
      have := h input
      rw [addCount_concat] at this
      omega
    have hlt : addCount adds a.1 < n := by
      have := h a.1
      rw [addCount_concat, if_pos rfl] at this
      omega
    -- the new add goes into one round
    have hone : ∀ m, ((List.range m).flatMap fun round =>
        if addCount adds a.1 = round then [a] else []) =
          if addCount adds a.1 < m then [a] else [] := by
      intro m
      induction m with
      | zero => rfl
      | succ m ihm =>
        rw [List.range_succ, List.flatMap_append, ihm, List.flatMap_singleton]
        rcases Nat.lt_trichotomy (addCount adds a.1) m with hm | hm | hm
        · rw [if_pos hm, if_neg (Nat.ne_of_lt hm), if_pos (by omega), List.append_nil]
        · rw [if_neg (by omega), if_pos hm, if_pos (by omega), List.nil_append]
        · rw [if_neg (by omega), if_neg (Nat.ne_of_gt hm), if_neg (by omega), List.nil_append]
    simp only [ofRound_concat]
    refine (List.flatMap_append_perm _ _ _).symm.trans ?_
    rw [hone, if_pos hlt]
    exact (ih hle).append_right _

/-- Batches together with everything that was taken from them. -/
structure Ledger (α : Type) where
  batches : Batches α
  taken : List (ClosedBatch α)

namespace Ledger

/-- What is left after a call. -/
def receive (l : Ledger α) : Call α → Ledger α
  | .add input items => { l with batches := l.batches.add input items }
  | .complete input => { l with batches := l.batches.complete input }
  | .forceClose => { l with batches := l.batches.forceClose }
  | .takeClosed => ⟨l.batches.takeClosed.2, l.taken ++ l.batches.takeClosed.1⟩

/-- What is left after some calls on batches for the given inputs. -/
def ofCalls (inputs : List Nat) (calls : List (Call α)) : Ledger α :=
  calls.foldl receive ⟨.ofInputs inputs, []⟩

/-- The batches that have closed. -/
def closed (l : Ledger α) : List (ClosedBatch α) := l.taken ++ l.batches.closed

/-- All batches that were ever opened, each as it is now. -/
def all (l : Ledger α) : List (ClosedBatch α) := l.closed ++ l.batches.opened.map OpenBatch.close

theorem ofCalls_concat (inputs : List Nat) (calls : List (Call α)) (c : Call α) :
    ofCalls inputs (calls ++ [c]) = (ofCalls inputs calls).receive c := by
  simp [ofCalls, List.foldl_append]

end Ledger

end TripleLoom.Batches
