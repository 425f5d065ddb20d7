import Mathlib.Tactic.Ring
import TripleLoom.Function.Library
import TripleLoom.Proofs.Iterator.Account

/-!
# TripleLoom.Proofs.Function.Counting — the integers that a range iterator goes through

The iterator over a range of integers adds its step in the 64-bit range and stops where the sum is not in
it.  By then the last integer of the range has been passed, for what lies between two integers of the 64-bit
range is in it too.  So the stream counts like unbounded integers do (`TupleStream.Counts`), which is kept from
one integer to the next and so from one batch to the next.  It ends, and its batches are full but for the last
one (`Iri.iterFor_enumerates`).
-/

namespace TripleLoom

namespace TupleStream

/-- Some integers from a first one on, by steps. -/
def progression (first step : Int) (n : Nat) : List Int := (List.range n).map fun i : Nat => first + i * step

/-- Whether an integer is not beyond the last one in the direction of the step. -/
def Reaches (last step v : Int) : Prop := if 0 < step then v ≤ last else last ≤ v

instance (last step v : Int) : Decidable (Reaches last step v) :=
  inferInstanceAs (Decidable (if 0 < step then v ≤ last else last ≤ v))

/-- The integers that a counting stream has still to give: those of the progression that are not beyond the
last one. -/
def Counts (last step : Integer) : Option Integer → List Int → Prop
  | none, values => values = []
  | some next, values => ∃ n : Nat, values = progression next.val step.val n ∧
      ∀ i : Nat, i < n ↔ Reaches last.val step.val (next.val + i * step.val)

/-- The tuple of an integer. -/
def integerTuple (v : Int) : Tuple := [some (Term.ofInt v)]

section

variable {first step : Int} {n : Nat}

theorem progression_succ : progression first step (n + 1) = first :: progression (first + step) step n := by
  rw [progression, List.range_succ_eq_map, List.map_cons, List.map_map, progression]
  congr 1
  · simp
  · refine List.map_congr_left fun i _ => ?_
    simp only [Function.comp_apply]
    push_cast
    ring

end

variable {last step next : Integer} {values : List Int}

theorem within_iff : within last step next ↔ Reaches last.val step.val next.val := by
  unfold within Reaches
  split <;> exact decide_eq_true_iff

/-- The integers of a progression that are not beyond the last one are the first ones of it. -/
theorem exists_counts (hstep : step.val ≠ 0) (first last : Integer) :
    ∃ n : Nat, ∀ i : Nat, i < n ↔ Reaches last.val step.val (first.val + i * step.val) := by
  unfold Reaches
  split
  · next hpos =>
    refine ⟨((last.val - first.val) / step.val + 1).toNat, fun i => ?_⟩
    have hdiv := Int.le_ediv_iff_mul_le (a := (i : Int)) (b := last.val - first.val) hpos
    omega
  · next hneg =>
    have hpos : 0 < -step.val := by omega
    refine ⟨((first.val - last.val) / -step.val + 1).toNat, fun i => ?_⟩
    have hdiv := Int.le_ediv_iff_mul_le (a := (i : Int)) (b := first.val - last.val) hpos
    rw [mul_neg] at hdiv
    omega

/-- What is reached lies between the first integer and the last one, so it is in the range. -/
theorem fits_of_reaches {i : Nat} (h : Reaches last.val step.val (next.val + i * step.val)) :
    Bounded.Fits 64 (next.val + i * step.val) := by
  obtain ⟨hnext, hnext'⟩ : Bounded.Fits 64 next.val := ⟨next.lower, next.upper⟩
  obtain ⟨hlast, hlast'⟩ : Bounded.Fits 64 last.val := ⟨last.lower, last.upper⟩
  unfold Reaches at h
  split at h
  · next hpos =>
    have hforth : 0 ≤ i * step.val := Int.mul_nonneg (Int.natCast_nonneg i) hpos.le
    exact ⟨by omega, by omega⟩
  · next hneg =>
    have hback : i * step.val ≤ 0 := Int.mul_nonpos_of_nonneg_of_nonpos (Int.natCast_nonneg i) (not_lt.mp hneg)
    exact ⟨by omega, by omega⟩

/-- An integer that is reached is the next one, and the others are those that come after it. -/
theorem Counts.tail (h : Counts last step (some next) values) (hwithin : within last step next) :
    ∃ rest, values = next.val :: rest ∧ Counts last step (next.add? step) rest := by
  obtain ⟨n, rfl, hn⟩ := h
  have hfirst : 0 < n := (hn 0).mpr (by simpa using within_iff.mp hwithin)
  obtain ⟨m, rfl⟩ : ∃ m, n = m + 1 := ⟨n - 1, by omega⟩
  refine ⟨_, progression_succ, ?_⟩
  have hrest (i : Nat) : i < m ↔ Reaches last.val step.val (next.val + step.val + i * step.val) := by
    rw [← Nat.add_lt_add_iff_right (k := 1), hn (i + 1)]
    push_cast
    rw [add_mul, one_mul, add_assoc, add_comm (step.val)]
  cases hsum : next.add? step with
  | some sum =>
    have hval : sum.val = next.val + step.val := Bounded.ofInt?_eq_some_iff.mp hsum
    exact ⟨m, by rw [hval], by rw [hval]; exact hrest⟩
  | none =>
    -- the sum is out of the range, so it is not reached
    have hnone : ¬0 < m := by
      intro hm
      have hone : Reaches last.val step.val (next.val + (1 : Nat) * step.val) := (hn 1).mp (by omega)
      refine Bounded.ofInt?_eq_none_iff.mp hsum ?_
      simpa using fits_of_reaches hone
    obtain rfl : m = 0 := by omega
    rfl

theorem Counts.eq_nil (h : Counts last step (some next) values) (hwithin : ¬within last step next) :
    values = [] := by
  obtain ⟨n, rfl, hn⟩ := h
  have hnot : ¬0 < n := by
    rw [hn 0]
    simpa using mt within_iff.mpr hwithin
  obtain rfl : n = 0 := by omega
  rfl

/-- Some integers of a counting stream are the next ones that it has to give. -/
theorem Counts.count {next : Option Integer} (h : Counts last step next values) (k : Nat) :
    (count last step k next).1.map (·.val) = values.take k ∧
      Counts last step (count last step k next).2 (values.drop k) := by
  induction k generalizing next values with
  | zero => cases next with
    | none => exact ⟨rfl, h⟩
    | some v => exact ⟨rfl, h⟩
  | succ k ih => cases next with
    | none =>
      obtain rfl := h
      exact ⟨rfl, rfl⟩
    | some v =>
      by_cases hwithin : within last step v
      · obtain ⟨rest, rfl, hrest⟩ := h.tail hwithin
        obtain ⟨hvalues, hnext⟩ := ih hrest
        rw [TupleStream.count, if_pos hwithin]
        exact ⟨congrArg (v.val :: ·) hvalues, hnext⟩
      · obtain rfl := h.eq_nil hwithin
        rw [TupleStream.count, if_neg hwithin]
        exact ⟨rfl, rfl⟩

/-! ### Batches -/

theorem Counts.next_eq_finished {next : Option Integer} (h : Counts last step next []) :
    (counting next last step).next = .finished := by
  obtain ⟨hvalues, -⟩ := h.count batchSize
  rw [List.take_nil, List.map_eq_nil_iff] at hvalues
  rw [TupleStream.next]
  rcases hcount : TupleStream.count last step batchSize next with ⟨taken, rest⟩
  rw [hcount] at hvalues
  obtain rfl := hvalues
  rfl

theorem Counts.next_eq_batch {next : Option Integer} (h : Counts last step next values) (hne : values ≠ []) :
    ∃ rest, (counting next last step).next =
        .batch ((values.take batchSize).map integerTuple) (counting rest last step) ∧
      Counts last step rest (values.drop batchSize) := by
  obtain ⟨hvalues, hrest⟩ := h.count batchSize
  rw [TupleStream.next]
  rcases hcount : TupleStream.count last step batchSize next with ⟨taken, rest⟩
  rw [hcount] at hvalues hrest
  refine ⟨rest, ?_, hrest⟩
  cases taken with
  | nil =>
    rcases List.take_eq_nil_iff.mp hvalues.symm with h | h
    · exact absurd h (by decide)
    · exact absurd h hne
  | cons v taken =>
    rw [← hvalues, List.map_map]
    rfl

/-- Whether lists are of some length but for the last one, which is not empty and not longer. -/
structure FullButLast {α : Type} (size : Nat) (lists : List (List α)) : Prop where
  full : ∀ l ∈ lists.dropLast, l.length = size
  last : ∀ l ∈ lists.getLast?, 1 ≤ l.length ∧ l.length ≤ size

theorem FullButLast.nil {α : Type} (size : Nat) : FullButLast size ([] : List (List α)) := ⟨nofun, nofun⟩

theorem FullButLast.cons {α : Type} {size : Nat} {l : List α} {lists : List (List α)}
    (h : FullButLast size lists) (hl : 1 ≤ l.length ∧ l.length ≤ size)
    (hfull : lists ≠ [] → l.length = size) : FullButLast size (l :: lists) := by
  cases lists with
  | nil =>
    refine ⟨nofun, ?_⟩
    rintro _ ⟨⟩
    exact hl
  | cons l' lists =>
    refine ⟨?_, ?_⟩
    · rw [List.dropLast_cons_cons, List.forall_mem_cons]
      exact ⟨hfull (List.cons_ne_nil _ _), h.full⟩
    · rw [List.getLast?_cons_cons]
      exact h.last

theorem FullButLast.eq_nil {α : Type} {size : Nat} {lists : List (List α)} (h : FullButLast size lists)
    (hflatten : lists.flatten = []) : lists = [] := by
  by_contra hne
  have hlast := List.getLast_mem hne
  have hnil := List.flatten_eq_nil_iff.mp hflatten _ hlast
  have hpos := (h.last _ (List.getLast?_eq_some_getLast hne)).1
  rw [hnil] at hpos
  cases hpos

/-- A counting stream ends, and till then it gives the integers it has to give in batches that are full but
for the last one. -/
theorem Counts.yields {next : Option Integer} (h : Counts last step next values) :
    ∃ batches rest, (counting next last step).Yields batches rest ∧ rest.next = .finished ∧
      batches.flatten = values.map integerTuple ∧ FullButLast batchSize batches := by
  -- each batch leaves fewer integers to give
  induction hlength : values.length using Nat.strong_induction_on generalizing next values with
  | _ n ih =>
    by_cases hne : values = []
    · subst hne
      exact ⟨[], _, .nil _, h.next_eq_finished, rfl, .nil _⟩
    · obtain ⟨later, hbatch, hlater⟩ := h.next_eq_batch hne
      have hpos : 0 < values.length := List.length_pos_iff.mpr hne
      have hsize : 0 < batchSize := by decide
      have hdrop : (values.drop batchSize).length < n := by
        rw [List.length_drop]
        omega
      obtain ⟨batches, rest, hyields, hfinished, hflatten, hfull⟩ := ih _ hdrop hlater rfl
      refine ⟨_, rest, .batch hbatch hyields, hfinished, ?_, hfull.cons ?_ fun hbatches => ?_⟩
      · rw [List.flatten_cons, hflatten, ← List.map_append, List.take_append_drop]
      · rw [List.length_map, List.length_take]
        omega
      · have hmore : values.drop batchSize ≠ [] := by
          intro hnil
          rw [hnil, List.map_nil] at hflatten
          exact hbatches (hfull.eq_nil hflatten)
        rw [Ne, List.drop_eq_nil_iff] at hmore
        rw [List.length_map, List.length_take]
        omega

end TupleStream

/-! ### The function -/

/-- Whether a term is read as an integer. -/
def Term.IsInteger (t : Term) (n : Integer) : Prop := Value.ofTerm t = .numeric (.integer n)

/-- The first integer, the last one and the step that some arguments give. The step is one by default, and
what comes behind it is not looked at. -/
inductive RangeArguments : List Term → Integer → Integer → Integer → Prop where
  | two {a b : Term} {first last : Integer} (ha : a.IsInteger first) (hb : b.IsInteger last) :
    RangeArguments [a, b] first last .one
  | three {a b d : Term} {first last step : Integer} (ha : a.IsInteger first) (hb : b.IsInteger last)
    (hd : d.IsInteger step) (more : List Term) : RangeArguments (a :: b :: d :: more) first last step

theorem integerArgument_eq {arguments : List Term} {index : Nat} {t : Term} {n : Integer}
    (h : arguments[index]? = some t) (ht : t.IsInteger n) : integerArgument arguments index = .ok n := by
  have hvalue : Value.ofTerm t = .numeric (.integer n) := ht
  simp only [integerArgument, h, hvalue]
  rfl

theorem RangeArguments.countIntegers {arguments : List Term} {first last step : Integer}
    (h : RangeArguments arguments first last step) (hstep : step.val ≠ 0) :
    countIntegers arguments = .ok (.counting (some first) last step) := by
  unfold TripleLoom.countIntegers
  cases h with
  | two ha hb =>
    rw [integerArgument_eq rfl ha, integerArgument_eq rfl hb]
    rfl
  | @three a b d _ _ _ ha hb hd more =>
    have hthree : 2 < (a :: b :: d :: more).length := by simp
    rw [integerArgument_eq rfl ha, integerArgument_eq rfl hb, integerArgument_eq rfl hd]
    simp only [if_pos hthree, bind, Except.bind, if_neg hstep]
    rfl

/-- **The range iterator goes through its range.**  The iterator is registered, and however often it was
called before, it answers two integers and a step that is not zero, or one by default, with a stream that ends.
Till then the stream gives the integers from the first one on by steps, as unbounded integers, as far as they
are not beyond the last one in the direction of the step; all these are in the 64-bit range.  They come as
tuples of one integer each, in batches of 1024 but for the last one, which is not empty and not longer; for an
empty range there is no batch. -/
theorem Iri.iterFor_enumerates : ∃ f, FunctionRegistry.builtin.iterator? .iterFor = some f ∧
    ∀ (earlier : Nat) {arguments : List Term} {first last step : Integer},
      RangeArguments arguments first last step → step.val ≠ 0 →
      ∃ stream batches rest, f earlier arguments = .ok stream ∧ stream.Yields batches rest ∧
        rest.next = .finished ∧
        ∃ n : Nat, (∀ i : Nat, i < n ↔ TupleStream.Reaches last.val step.val (first.val + i * step.val)) ∧
          (∀ i < n, Bounded.Fits 64 (first.val + i * step.val)) ∧
          batches.flatten = (TupleStream.progression first.val step.val n).map TupleStream.integerTuple ∧
          (∀ batch ∈ batches.dropLast, batch.length = 1024) ∧
          (∀ batch ∈ batches.getLast?, 1 ≤ batch.length ∧ batch.length ≤ 1024) ∧
          (n = 0 → batches = []) := by
  refine ⟨_, rfl, fun earlier arguments first last step harguments hstep => ?_⟩
  obtain ⟨n, hn⟩ := TupleStream.exists_counts hstep first last
  have hcounts : TupleStream.Counts last step (some first) (TupleStream.progression first.val step.val n) :=
    ⟨n, rfl, hn⟩
  obtain ⟨batches, rest, hyields, hfinished, hflatten, hfull⟩ := hcounts.yields
  refine ⟨_, batches, rest, ?_, hyields, hfinished, n, hn, ?_, hflatten, hfull.full, hfull.last, ?_⟩
  · rw [IteratorFunction.ofPure, harguments.countIntegers hstep]
    rfl
  · exact fun i hi => TupleStream.fits_of_reaches ((hn i).mp hi)
  · rintro rfl
    exact hfull.eq_nil hflatten

/-- From the greatest integer but one up to the greatest by steps of two: the first sum is beyond the 64-bit
range already, and the stream ends behind the first integer. -/
theorem Iri.iterFor_ends_before_overflow :
    RangeArguments [.ofInt 9223372036854775806, .ofInt 9223372036854775807, .ofInt 2]
      ⟨9223372036854775806, by decide, by decide⟩ ⟨9223372036854775807, by decide, by decide⟩
      ⟨2, by decide, by decide⟩ ∧
    ∃ f stream batches rest, FunctionRegistry.builtin.iterator? .iterFor = some f ∧
      f 0 [.ofInt 9223372036854775806, .ofInt 9223372036854775807, .ofInt 2] = .ok stream ∧
      stream.Yields batches rest ∧ rest.next = .finished ∧
      batches.flatten = [[some (.ofInt 9223372036854775806)]] := by
  have harguments : RangeArguments [.ofInt 9223372036854775806, .ofInt 9223372036854775807, .ofInt 2]
      ⟨9223372036854775806, by decide, by decide⟩ ⟨9223372036854775807, by decide, by decide⟩
      ⟨2, by decide, by decide⟩ := .three (by exact rfl) (by exact rfl) (by exact rfl) []
  refine ⟨harguments, ?_⟩
  obtain ⟨f, hf, henumerates⟩ := iterFor_enumerates
  obtain ⟨stream, batches, rest, hstream, hyields, hfinished, n, hn, -, hflatten, -⟩ :=
    henumerates 0 harguments (by decide)
  have hone : n = 1 := by
    have hzero := (hn 0).mpr (by decide)
    have hnot := mt (hn 1).mp (by decide)
    omega
  subst hone
  exact ⟨f, stream, batches, rest, hf, hstream, hyields, hfinished, hflatten⟩

end TripleLoom
