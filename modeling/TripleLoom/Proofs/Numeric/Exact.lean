import Mathlib.Algebra.Order.Floor.Ring
import Mathlib.Data.Rat.Floor
import Mathlib.Tactic.Linarith
import Mathlib.Tactic.Ring
import TripleLoom.Numeric

/-!
# TripleLoom.Proofs.Numeric.Exact — exact arithmetic within a range

An integer or a decimal is a rational number (`Numeric.HasValue`), and each kind holds the rational
numbers that are a whole number of its units and fit its word (`ExactKind.Holds`).  Sums, differences,
products, negations and absolute values are those of the rational numbers: there is a result exactly
if the later of the two kinds holds it (`Numeric.add?_eq_some_iff` and its companions).  So a result
is exact (`Numeric.results_exact`), and none is missing that the kind could hold
(`Numeric.none_only_beyond_range`).  A quotient is that of the rational numbers too, cut off behind the
eighteenth place toward zero, but here a result may be missing.
-/

namespace TripleLoom

/-! ### Values -/

/-- The kinds of numbers that are computed with exactly. -/
inductive ExactKind where
  | integer
  | decimal

namespace ExactKind

/-- The later of two kinds, to which both are brought. -/
def later : ExactKind → ExactKind → ExactKind
  | .integer, .integer => .integer
  | _, _ => .decimal

/-- The size of the word that counts the units. -/
def bits : ExactKind → Nat
  | .integer => 64
  | .decimal => 128

/-- How many units make one. -/
def unit : ExactKind → Int
  | .integer => 1
  | .decimal => Decimal.unit

/-- Whether there is a number of the kind with a value: a whole number of units that fits the word. -/
def Holds (k : ExactKind) (x : ℚ) : Prop := ∃ n : Int, Bounded.Fits k.bits n ∧ x = n / k.unit

theorem later_comm (k l : ExactKind) : k.later l = l.later k := by
  cases k <;> cases l <;> rfl

theorem holds_zero (k : ExactKind) : k.Holds 0 :=
  ⟨0, ⟨Bounded.zero.lower, Bounded.zero.upper⟩, by rw [Int.cast_zero, zero_div]⟩

end ExactKind

/-- The value of a decimal. -/
def Decimal.value (d : Decimal) : ℚ := d.coefficient.val / unit

/-- The kind and the value of a number that is an integer or a decimal. -/
inductive Numeric.HasValue : Numeric → ExactKind → ℚ → Prop where
  | integer (n : Integer) : HasValue (.integer n) .integer n.val
  | decimal (d : Decimal) : HasValue (.decimal d) .decimal d.value

/-- The kind and the values of two numbers that were brought to it. -/
inductive NumericPair.HasValues : NumericPair → ExactKind → ℚ → ℚ → Prop where
  | integer (m n : Integer) : HasValues (.integer m n) .integer m.val n.val
  | decimal (c d : Decimal) : HasValues (.decimal c d) .decimal c.value d.value

theorem Decimal.unit_pos : (0 : Int) < unit := by decide

theorem Decimal.unit_ne_zero : (unit : ℚ) ≠ 0 := by
  exact_mod_cast unit_pos.ne'

theorem Decimal.value_eq_iff {d : Decimal} {x : ℚ} : d.value = x ↔ (d.coefficient.val : ℚ) = x * unit :=
  div_eq_iff unit_ne_zero

/-- A value is that of one decimal only. -/
theorem Decimal.value_inj {c d : Decimal} (h : c.value = d.value) : c = d := by
  have hval : (c.coefficient.val : ℚ) = d.coefficient.val := (div_left_inj' unit_ne_zero).mp h
  have hcoefficient : c.coefficient = d.coefficient := Bounded.ext_val (by exact_mod_cast hval)
  exact congrArg Decimal.mk hcoefficient

theorem Decimal.value_ofInteger (n : Integer) : (ofInteger n).value = n.val := by
  rw [value_eq_iff]
  exact Int.cast_mul n.val unit

namespace Numeric

variable {a b c : Numeric} {k l : ExactKind} {x y : ℚ}

theorem hasValue_integer_iff : c.HasValue .integer x ↔ ∃ n : Integer, c = .integer n ∧ n.val = x := by
  constructor
  · rintro ⟨n⟩
    exact ⟨n, rfl, rfl⟩
  · rintro ⟨n, rfl, rfl⟩
    exact .integer n

theorem hasValue_decimal_iff : c.HasValue .decimal x ↔ ∃ d, c = .decimal d ∧ d.value = x := by
  constructor
  · rintro ⟨⟩
    exact ⟨_, rfl, rfl⟩
  · rintro ⟨d, rfl, rfl⟩
    exact .decimal d

/-- A kind and a value are those of one number only. -/
theorem HasValue.unique (ha : a.HasValue k x) (hb : b.HasValue k x) : a = b := by
  cases k with
  | integer =>
    obtain ⟨m, rfl, rfl⟩ := hasValue_integer_iff.mp ha
    obtain ⟨n, rfl, heq⟩ := hasValue_integer_iff.mp hb
    exact congrArg Numeric.integer (Bounded.ext_val (by exact_mod_cast heq.symm))
  | decimal =>
    obtain ⟨c, rfl, rfl⟩ := hasValue_decimal_iff.mp ha
    obtain ⟨d, rfl, heq⟩ := hasValue_decimal_iff.mp hb
    rw [Decimal.value_inj heq]

/-- A kind holds the values of its numbers. -/
theorem exists_hasValue_iff : (∃ c : Numeric, c.HasValue k x) ↔ k.Holds x := by
  constructor
  · rintro ⟨_, n | d⟩
    · exact ⟨n.val, ⟨n.lower, n.upper⟩, by rw [ExactKind.unit, Int.cast_one, div_one]⟩
    · exact ⟨d.coefficient.val, ⟨d.coefficient.lower, d.coefficient.upper⟩, rfl⟩
  · rintro ⟨n, hn, rfl⟩
    cases k with
    | integer => exact ⟨.integer ⟨n, hn.1, hn.2⟩, by
        rw [ExactKind.unit, Int.cast_one, div_one]; exact .integer _⟩
    | decimal => exact ⟨.decimal ⟨⟨n, hn.1, hn.2⟩⟩, .decimal _⟩

/-- What a result is to be has none exactly if the kind does not hold it. -/
theorem eq_none_iff_of_some_iff {f : Option Numeric} (h : ∀ c, f = some c ↔ c.HasValue k x) :
    f = none ↔ ¬k.Holds x := by
  rw [Option.eq_none_iff_forall_ne_some, ← exists_hasValue_iff, not_exists]
  exact forall_congr' fun c => not_congr (h c)

/-- Bringing two numbers to the later of their kinds keeps their values. -/
theorem hasValues_promote (ha : a.HasValue k x) (hb : b.HasValue l y) :
    (promote a b).HasValues (k.later l) x y := by
  cases ha with
  | integer m =>
    cases hb with
    | integer n => exact .integer m n
    | decimal d => exact Decimal.value_ofInteger m ▸ .decimal (.ofInteger m) d
  | decimal d =>
    cases hb with
    | integer n => exact Decimal.value_ofInteger n ▸ .decimal d (.ofInteger n)
    | decimal e => exact .decimal d e

/-- What a kind holds, the later of it and another holds too. -/
theorem HasValue.holds_later (ha : a.HasValue k x) (l : ExactKind) : (k.later l).Holds x := by
  rw [← exists_hasValue_iff]
  cases ha with
  | integer m =>
    cases l with
    | integer => exact ⟨_, .integer m⟩
    | decimal => exact ⟨.decimal (.ofInteger m), Decimal.value_ofInteger m ▸ .decimal _⟩
  | decimal d => exact ⟨_, .decimal d⟩

end Numeric

/-! ### Sums, differences, negations and absolute values -/

namespace Decimal

variable {a b c : Decimal}

theorem ofCoefficient?_eq_some_iff {n : Int} : ofCoefficient? n = some c ↔ c.coefficient.val = n := by
  rw [ofCoefficient?, Option.map_eq_some_iff]
  constructor
  · rintro ⟨m, hm, rfl⟩
    exact Bounded.ofInt?_eq_some_iff.mp hm
  · exact fun h => ⟨c.coefficient, Bounded.ofInt?_eq_some_iff.mpr h, rfl⟩

theorem add?_eq_some_iff : a.add? b = some c ↔ c.value = a.value + b.value := by
  rw [show a.add? b = ofCoefficient? (a.coefficient.val + b.coefficient.val) from rfl,
    ofCoefficient?_eq_some_iff, value_eq_iff, value, value, ← add_div, div_mul_cancel₀ _ unit_ne_zero]
  exact_mod_cast Iff.rfl

theorem sub?_eq_some_iff : a.sub? b = some c ↔ c.value = a.value - b.value := by
  rw [show a.sub? b = ofCoefficient? (a.coefficient.val - b.coefficient.val) from rfl,
    ofCoefficient?_eq_some_iff, value_eq_iff, value, value, ← sub_div, div_mul_cancel₀ _ unit_ne_zero]
  exact_mod_cast Iff.rfl

theorem neg?_eq_some_iff : a.neg? = some c ↔ c.value = -a.value := by
  rw [show a.neg? = ofCoefficient? (-a.coefficient.val) from rfl,
    ofCoefficient?_eq_some_iff, value_eq_iff, value, ← neg_div, div_mul_cancel₀ _ unit_ne_zero]
  exact_mod_cast Iff.rfl

theorem abs?_eq_some_iff : a.abs? = some c ↔ c.value = |a.value| := by
  have habs : |a.value| = (|a.coefficient.val| : Int) / unit := by
    rw [value, abs_div, abs_of_pos (by exact_mod_cast unit_pos : (0 : ℚ) < unit), Int.cast_abs]
  rw [show a.abs? = ofCoefficient? a.coefficient.val.natAbs from rfl,
    ofCoefficient?_eq_some_iff, value_eq_iff, habs, div_mul_cancel₀ _ unit_ne_zero, ← Int.abs_eq_natAbs]
  exact_mod_cast Iff.rfl

end Decimal

/-! ### Products -/

/-- A product is there exactly if it is a whole number of units that fits. -/
theorem Decimal.mul?_eq_some_iff {a b c : Decimal} :
    a.mul? b = some c ↔ c.value = a.value * b.value := by
  -- both say that the product of the coefficients is the coefficient of the result, one unit more
  have hvalue : c.value = a.value * b.value ↔
      c.coefficient.val * unit = a.coefficient.val * b.coefficient.val := by
    rw [value_eq_iff, value, value, div_mul_div_comm, div_mul_eq_mul_div, mul_div_mul_right _ _
      unit_ne_zero, eq_div_iff unit_ne_zero]
    exact_mod_cast Iff.rfl
  rw [hvalue, mul?]
  split
  · next hdvd =>
    rw [ofCoefficient?_eq_some_iff]
    constructor
    · intro h
      rw [h, Int.tdiv_mul_cancel_of_tmod_eq_zero hdvd]
    · intro h
      rw [← h, Int.mul_tdiv_cancel _ unit_pos.ne']
  · next hdvd =>
    refine iff_of_false nofun fun h => hdvd ?_
    rw [← h, Int.mul_tmod_left]

/-! ### Quotients -/

/-- A rational number without what stands behind the point. -/
def truncated (x : ℚ) : Int := if 0 ≤ x then ⌊x⌋ else ⌈x⌉

theorem truncated_neg (x : ℚ) : truncated (-x) = -truncated x := by
  rcases lt_trichotomy x 0 with h | rfl | h
  · rw [truncated, truncated, if_pos (neg_nonneg.mpr h.le), if_neg (not_le.mpr h), Int.floor_neg]
  · rfl
  · rw [truncated, truncated, if_neg (not_le.mpr (neg_neg_of_pos h)), if_pos h.le, Int.ceil_neg]

/-- Division of integers toward zero is the quotient without what stands behind the point. -/
theorem truncated_div (m n : Int) : truncated (m / n) = m.tdiv n := by
  have hnat (i j : Nat) : truncated (i / j) = (i : Int).tdiv j := by
    rw [truncated, if_pos (by positivity)]
    exact Rat.floor_natCast_div_natCast i j
  obtain ⟨i, rfl | rfl⟩ := m.eq_nat_or_neg <;> obtain ⟨j, rfl | rfl⟩ := n.eq_nat_or_neg <;> push_cast
  · exact hnat i j
  · rw [div_neg, truncated_neg, hnat, Int.tdiv_neg]
  · rw [neg_div, truncated_neg, hnat, Int.neg_tdiv]
  · rw [neg_div_neg_eq, hnat, Int.neg_tdiv, Int.tdiv_neg, neg_neg]

/-- Dividing twice toward zero is dividing once by the product. -/
theorem tdiv_tdiv (m n k : Int) : (m.tdiv n).tdiv k = m.tdiv (n * k) := by
  have hnat (i j l : Nat) : ((i : Int).tdiv j).tdiv l = (i : Int).tdiv (j * l) := by
    exact_mod_cast congrArg Int.ofNat (Nat.div_div_eq_div_mul i j l)
  obtain ⟨i, rfl | rfl⟩ := m.eq_nat_or_neg <;> obtain ⟨j, rfl | rfl⟩ := n.eq_nat_or_neg <;>
    obtain ⟨l, rfl | rfl⟩ := k.eq_nat_or_neg <;>
    simp only [Int.neg_tdiv, Int.tdiv_neg, neg_mul, mul_neg, neg_neg, hnat]

namespace Decimal

/-- Dropping zeros takes out a power of ten. -/
theorem dropZeros_spec (bound : Nat) (n : Int) :
    n = (dropZeros bound n).1 * 10 ^ (dropZeros bound n).2 := by
  induction bound generalizing n with
  | zero => exact (mul_one n).symm
  | succ bound ih =>
    rw [dropZeros]
    split
    · next h =>
      have htenth := ih (n.tdiv 10)
      dsimp only
      rw [pow_succ, ← mul_assoc, ← htenth, Int.tdiv_mul_cancel_of_tmod_eq_zero h.2]
    · exact (mul_one n).symm

/-- Raising puts in a power of ten. -/
theorem raise_spec (bound : Nat) (n : Int) :
    (raise bound n).1 = n * 10 ^ (raise bound n).2 := by
  induction bound generalizing n with
  | zero => exact (mul_one n).symm
  | succ bound ih =>
    rw [raise]
    split
    · dsimp only
      rw [ih, pow_succ', mul_assoc]
    · exact (mul_one n).symm

theorem excess?_eq_some_iff {n m : Nat} : excess? n = some m ↔ n = places + m := by
  rw [excess?, Option.ite_none_right_eq_some, Option.some.injEq]
  omega

theorem power?_eq_some {n : Nat} {x : Int} (h : power? n = some x) : x = 10 ^ n := by
  rw [power?, Option.ite_none_right_eq_some, Option.some.injEq] at h
  rw [← h.2]
  exact Int.natCast_pow 10 n

/-- The dividend is raised, the divisor loses its zeros, and the scale takes back what is too much: the
quotient is that of the values, without what stands behind the last place. -/
theorem div?_eq_some {a b c : Decimal} (h : a.div? b = some c) :
    b.value ≠ 0 ∧ c.value = truncated (a.value / b.value * unit) / unit := by
  have hraise := raise_spec maxDigits a.coefficient.val
  have hdrop := dropZeros_spec maxDigits b.coefficient.val
  simp only [div?, Option.bind_eq_bind] at h
  generalize raise maxDigits a.coefficient.val = raised at hraise h
  generalize dropZeros maxDigits b.coefficient.val = dropped at hdrop h
  obtain ⟨left, steps⟩ := raised
  obtain ⟨right, zeros⟩ := dropped
  dsimp only at hraise hdrop h
  obtain ⟨shift, hshift, h⟩ := Option.bind_eq_some_iff.mp h
  split at h
  · cases h
  next hright =>
  obtain ⟨quotient, hquotient, h⟩ := Option.bind_eq_some_iff.mp h
  obtain ⟨scale, hscale, h⟩ := Option.bind_eq_some_iff.mp h
  rw [excess?_eq_some_iff] at hshift
  rw [Bounded.ofInt?_eq_some_iff] at hquotient
  rw [ofCoefficient?_eq_some_iff, hquotient, power?_eq_some hscale, tdiv_tdiv] at h
  have hunit : unit = 10 ^ places := rfl
  have hdivisor : b.coefficient.val ≠ 0 := by
    rw [hdrop]
    exact mul_ne_zero hright (pow_ne_zero _ (by decide))
  have hvalue : b.value ≠ 0 := div_ne_zero (by exact_mod_cast hdivisor) unit_ne_zero
  refine ⟨hvalue, ?_⟩
  -- the powers of ten on both sides of the quotient cancel out
  have hpowers : a.coefficient.val * unit * (right * 10 ^ shift) = left * b.coefficient.val := by
    rw [hraise, hdrop, hunit]
    calc a.coefficient.val * 10 ^ places * (right * 10 ^ shift)
        = a.coefficient.val * right * 10 ^ (places + shift) := by ring
      _ = a.coefficient.val * right * 10 ^ (steps + zeros) := by rw [hshift]
      _ = a.coefficient.val * 10 ^ steps * (right * 10 ^ zeros) := by ring
  have hdenominator : right * 10 ^ shift ≠ 0 := mul_ne_zero hright (pow_ne_zero _ (by decide))
  have hcoefficient : a.value / b.value * unit = left / (right * 10 ^ shift : Int) := by
    rw [value, value, div_div_div_cancel_right₀ unit_ne_zero, div_mul_eq_mul_div,
      div_eq_div_iff (by exact_mod_cast hdivisor) (by exact_mod_cast hdenominator)]
    exact_mod_cast hpowers
  rw [hcoefficient, truncated_div, ← h]
  rfl

end Decimal

/-! ### Numbers -/

namespace Numeric

variable {a b c : Numeric} {k l : ExactKind} {x y : ℚ}

/-- An integer that is there exactly if it has a value. -/
theorem map_integer_eq_some_iff {f : Option Integer} (h : ∀ n, f = some n ↔ (n.val : ℚ) = x) :
    f.map Numeric.integer = some c ↔ c.HasValue .integer x := by
  rw [Option.map_eq_some_iff, hasValue_integer_iff]
  exact exists_congr fun n => by rw [h n, and_comm, eq_comm (a := c)]

/-- A decimal that is there exactly if it has a value. -/
theorem map_decimal_eq_some_iff {f : Option Decimal} (h : ∀ d, f = some d ↔ d.value = x) :
    f.map Numeric.decimal = some c ↔ c.HasValue .decimal x := by
  rw [Option.map_eq_some_iff, hasValue_decimal_iff]
  exact exists_congr fun d => by rw [h d, and_comm, eq_comm (a := c)]

/-- A sum is there exactly if the later kind holds it. -/
theorem add?_eq_some_iff (ha : a.HasValue k x) (hb : b.HasValue l y) :
    a.add? b = some c ↔ c.HasValue (k.later l) (x + y) := by
  have hpair := hasValues_promote ha hb
  rw [add?]
  generalize promote a b = p, k.later l = kind at hpair
  cases hpair with
  | integer m n => exact map_integer_eq_some_iff fun _ =>
      Bounded.ofInt?_eq_some_iff.trans (by exact_mod_cast Iff.rfl)
  | decimal d e => exact map_decimal_eq_some_iff fun _ => Decimal.add?_eq_some_iff

/-- A difference is there exactly if the later kind holds it. -/
theorem sub?_eq_some_iff (ha : a.HasValue k x) (hb : b.HasValue l y) :
    a.sub? b = some c ↔ c.HasValue (k.later l) (x - y) := by
  have hpair := hasValues_promote ha hb
  rw [sub?]
  generalize promote a b = p, k.later l = kind at hpair
  cases hpair with
  | integer m n => exact map_integer_eq_some_iff fun _ =>
      Bounded.ofInt?_eq_some_iff.trans (by exact_mod_cast Iff.rfl)
  | decimal d e => exact map_decimal_eq_some_iff fun _ => Decimal.sub?_eq_some_iff

/-- A product is there exactly if the later kind holds it. -/
theorem mul?_eq_some_iff (ha : a.HasValue k x) (hb : b.HasValue l y) :
    a.mul? b = some c ↔ c.HasValue (k.later l) (x * y) := by
  have hpair := hasValues_promote ha hb
  rw [mul?]
  generalize promote a b = p, k.later l = kind at hpair
  cases hpair with
  | integer m n => exact map_integer_eq_some_iff fun _ =>
      Bounded.ofInt?_eq_some_iff.trans (by exact_mod_cast Iff.rfl)
  | decimal d e => exact map_decimal_eq_some_iff fun _ => Decimal.mul?_eq_some_iff

/-- A negation is there exactly if the kind holds it. -/
theorem neg?_eq_some_iff (ha : a.HasValue k x) : a.neg? = some c ↔ c.HasValue k (-x) := by
  cases ha with
  | integer n => exact map_integer_eq_some_iff fun _ =>
      Bounded.ofInt?_eq_some_iff.trans (by exact_mod_cast Iff.rfl)
  | decimal d => exact map_decimal_eq_some_iff fun _ => Decimal.neg?_eq_some_iff

/-- An absolute value is there exactly if the kind holds it. -/
theorem abs?_eq_some_iff (ha : a.HasValue k x) : a.abs? = some c ↔ c.HasValue k |x| := by
  cases ha with
  | integer n =>
    refine map_integer_eq_some_iff (f := n.abs?) fun m => ?_
    rw [Bounded.abs?, Bounded.ofInt?_eq_some_iff, ← Int.abs_eq_natAbs]
    exact_mod_cast Iff.rfl
  | decimal d => exact map_decimal_eq_some_iff (f := d.abs?) fun _ => Decimal.abs?_eq_some_iff

/-- The quotient of two numbers is a decimal. -/
theorem div?_eq_some (ha : a.HasValue k x) (hb : b.HasValue l y) (h : a.div? b = some c) :
    y ≠ 0 ∧ c.HasValue .decimal (truncated (x / y * Decimal.unit) / Decimal.unit) := by
  have hdecimals : ∃ d e : Decimal, d.value = x ∧ e.value = y ∧ (d.div? e).map .decimal = some c := by
    have hpair := hasValues_promote ha hb
    rw [div?] at h
    generalize promote a b = p, k.later l = kind at hpair h
    cases hpair with
    | integer m n => exact ⟨_, _, Decimal.value_ofInteger m, Decimal.value_ofInteger n, h⟩
    | decimal d e => exact ⟨d, e, rfl, rfl, h⟩
  obtain ⟨d, e, rfl, rfl, hquotient⟩ := hdecimals
  obtain ⟨q, hq, rfl⟩ := Option.map_eq_some_iff.mp hquotient
  obtain ⟨hne, hvalue⟩ := Decimal.div?_eq_some hq
  exact ⟨hne, hvalue ▸ .decimal q⟩

/-- **What arithmetic gives is exact.**  Take two numbers that are integers or decimals, mixed or not.
Their sum, difference and product, and the negation and absolute value of one of them, are those of the
values, and of the kind that the operands have or, if they have two, decimals.  Nothing wraps around:
at the ends of a range, where the kind does not hold the negation or the absolute value, there is none.
A quotient is there only for a divisor that is not zero; it is a decimal, and its value is that of the
exact quotient cut off toward zero behind the eighteenth place. -/
theorem results_exact (ha : a.HasValue k x) (hb : b.HasValue l y) :
    (∀ c, a.add? b = some c → c.HasValue (k.later l) (x + y)) ∧
    (∀ c, a.sub? b = some c → c.HasValue (k.later l) (x - y)) ∧
    (∀ c, a.mul? b = some c → c.HasValue (k.later l) (x * y)) ∧
    (∀ c, a.neg? = some c → c.HasValue k (-x)) ∧ (a.neg? = none ↔ ¬k.Holds (-x)) ∧
    (∀ c, a.abs? = some c → c.HasValue k |x|) ∧ (a.abs? = none ↔ ¬k.Holds |x|) ∧
    ∀ c, a.div? b = some c →
      y ≠ 0 ∧ c.HasValue .decimal (truncated (x / y * Decimal.unit) / Decimal.unit) :=
  ⟨fun _ => (add?_eq_some_iff ha hb).mp, fun _ => (sub?_eq_some_iff ha hb).mp,
    fun _ => (mul?_eq_some_iff ha hb).mp, fun _ => (neg?_eq_some_iff ha).mp,
    eq_none_iff_of_some_iff fun _ => neg?_eq_some_iff ha, fun _ => (abs?_eq_some_iff ha).mp,
    eq_none_iff_of_some_iff fun _ => abs?_eq_some_iff ha, fun _ => div?_eq_some ha hb⟩

/-- The least integer. -/
def least : Integer := ⟨-9223372036854775808, by decide, by decide⟩

/-- The decimal of a number of units. -/
def ofUnits (n : Int) (h : Bounded.Fits 128 n) : Numeric := .decimal ⟨⟨n, h.1, h.2⟩⟩

/-- A number of units has the value of that many parts of one. -/
theorem hasValue_ofUnits {n : Int} (h : Bounded.Fits 128 n) (hx : (n : ℚ) = x * Decimal.unit) :
    (ofUnits n h).HasValue .decimal x :=
  hasValue_decimal_iff.mpr ⟨_, rfl, Decimal.value_eq_iff.mpr hx⟩

/-- The least integer has no negation and no absolute value, and divided by minus three it is cut off
behind eighteen sixes. -/
theorem least_results_exact :
    (integer least).neg? = none ∧ (integer least).abs? = none ∧
    (integer least).div? (ofUnits (-3000000000000000000) (by decide)) =
      some (ofUnits 3074457345618258602666666666666666666 (by decide)) ∧
    (ofUnits 3074457345618258602666666666666666666 (by decide)).HasValue .decimal
      (truncated (-9223372036854775808 / -3 * Decimal.unit) / Decimal.unit) := by
  have hleast : (integer least).HasValue .integer (-9223372036854775808) :=
    hasValue_integer_iff.mpr ⟨least, rfl, by norm_num [least]⟩
  have hthree : (ofUnits (-3000000000000000000) (by decide)).HasValue .decimal (-3) :=
    hasValue_ofUnits _ (by rw [show Decimal.unit = 1000000000000000000 by decide]; norm_num)
  obtain ⟨-, -, -, -, hneg, -, habs, hdiv⟩ := results_exact hleast hthree
  have hbeyond : ¬ExactKind.integer.Holds 9223372036854775808 := by
    rintro ⟨n, hn, heq⟩
    rw [ExactKind.unit, Int.cast_one, div_one] at heq
    have hval : n = 9223372036854775808 := by exact_mod_cast heq.symm
    exact absurd (hval ▸ hn) (by decide)
  exact ⟨hneg.mpr (by norm_num; exact hbeyond), habs.mpr (by norm_num; exact hbeyond), rfl,
    (hdiv _ rfl).2⟩

/-- **A result is missing only beyond the range.**  Take two numbers that are integers or decimals, mixed
or not.  There is no sum, difference or product of them exactly if the exact one is not held by the kind
that it is computed in.  So a product with zero or one is never missing, and two numbers have a product
in one order if they have it in the other. -/
theorem none_only_beyond_range (ha : a.HasValue k x) (hb : b.HasValue l y) :
    (a.add? b = none ↔ ¬(k.later l).Holds (x + y)) ∧
    (a.sub? b = none ↔ ¬(k.later l).Holds (x - y)) ∧
    (a.mul? b = none ↔ ¬(k.later l).Holds (x * y)) ∧
    (x = 0 ∨ x = 1 ∨ y = 0 ∨ y = 1 → ∃ c, a.mul? b = some c ∧ c.HasValue (k.later l) (x * y)) ∧
    ((a.mul? b).isSome = (b.mul? a).isSome) := by
  have hx : (k.later l).Holds x := ha.holds_later l
  have hy : (k.later l).Holds y := ExactKind.later_comm l k ▸ hb.holds_later k
  refine ⟨eq_none_iff_of_some_iff fun _ => add?_eq_some_iff ha hb,
    eq_none_iff_of_some_iff fun _ => sub?_eq_some_iff ha hb,
    eq_none_iff_of_some_iff fun _ => mul?_eq_some_iff ha hb, fun hcase => ?_, ?_⟩
  · have hheld : (k.later l).Holds (x * y) := by
      obtain rfl | rfl | rfl | rfl := hcase
      · rw [zero_mul]
        exact ExactKind.holds_zero _
      · rwa [one_mul]
      · rw [mul_zero]
        exact ExactKind.holds_zero _
      · rwa [mul_one]
    obtain ⟨c, hc⟩ := exists_hasValue_iff.mpr hheld
    exact ⟨c, (mul?_eq_some_iff ha hb).mpr hc, hc⟩
  · have hiff : (a.mul? b).isSome ↔ (b.mul? a).isSome := by
      rw [Option.isSome_iff_exists, Option.isSome_iff_exists]
      refine exists_congr fun c => ?_
      rw [mul?_eq_some_iff ha hb, mul?_eq_some_iff hb ha, ExactKind.later_comm, mul_comm]
    exact Bool.eq_iff_iff.mpr hiff

/-- Half of the least decimal part is no decimal, half of two such parts is one, and half of none is
there in either order. -/
theorem halves_none_only_beyond_range :
    (ofUnits 1 (by decide)).mul? (ofUnits 500000000000000000 (by decide)) = none ∧
    (∃ c, (ofUnits 0 (by decide)).mul? (ofUnits 500000000000000000 (by decide)) = some c ∧
      c.HasValue .decimal (0 * (1 / 2))) ∧
    ((ofUnits 2 (by decide)).mul? (ofUnits 500000000000000000 (by decide))).isSome =
      ((ofUnits 500000000000000000 (by decide)).mul? (ofUnits 2 (by decide))).isSome := by
  have hunit : Decimal.unit = 1000000000000000000 := by decide
  have hhalf : (ofUnits 500000000000000000 (by decide)).HasValue .decimal (1 / 2) :=
    hasValue_ofUnits _ (by rw [hunit]; norm_num)
  have hone : (ofUnits 1 (by decide)).HasValue .decimal (1 / 1000000000000000000) :=
    hasValue_ofUnits _ (by rw [hunit]; norm_num)
  have htwo : (ofUnits 2 (by decide)).HasValue .decimal (2 / 1000000000000000000) :=
    hasValue_ofUnits _ (by rw [hunit]; norm_num)
  have hzero : (ofUnits 0 (by decide)).HasValue .decimal 0 :=
    hasValue_ofUnits _ (by rw [hunit]; norm_num)
  have hbeyond : ¬ExactKind.decimal.Holds (1 / 1000000000000000000 * (1 / 2)) := by
    rintro ⟨n, -, heq⟩
    rw [ExactKind.unit, hunit] at heq
    have htwice : 1 = 2 * n := by
      have hq : (1 : ℚ) = 2 * n := by linarith
      exact_mod_cast hq
    omega
  exact ⟨(none_only_beyond_range hone hhalf).2.2.1.mpr hbeyond,
    (none_only_beyond_range hzero hhalf).2.2.2.1 (.inl rfl),
    (none_only_beyond_range htwo hhalf).2.2.2.2⟩

end Numeric

end TripleLoom
