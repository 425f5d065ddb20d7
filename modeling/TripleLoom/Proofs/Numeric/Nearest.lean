import Mathlib.Algebra.Order.Field.Power
import Mathlib.Algebra.Order.Floor.Ring
import Mathlib.Order.Monotone.Basic
import Mathlib.Data.Nat.Cast.Order.Field
import Mathlib.Data.Rat.Floor
import Mathlib.Tactic.FieldSimp
import Mathlib.Tactic.GCongr
import Mathlib.Tactic.Linarith
import Mathlib.Tactic.Positivity
import Mathlib.Tactic.Ring
import TripleLoom.Numeric.Scientific

/-!
# TripleLoom.Proofs.Numeric.Nearest — rounding to the nearest pattern

A pattern up to that of infinity stands for a rational number (`BinaryFormat.magnitude`); that of infinity
stands for the number that would come next if the exponents went on.  The numbers ascend with the patterns.
So the pattern nearest to a number is one of two neighbours, and of two equally near ones exactly one is
even: there is exactly one nearest pattern (`BinaryFormat.IsNearest`), and rounding a ratio gives it
(`BinaryFormat.isNearest_nearest`).
-/

namespace TripleLoom

theorem cast_pow2 (n : Nat) : (pow2 n : ℚ) = 2 ^ n := Nat.cast_pow 2 n

theorem cast_pow10 (n : Nat) : (pow10 n : ℚ) = 10 ^ n := Nat.cast_pow 10 n

/-- A power with an exponent of any sign is the ratio of two powers. -/
theorem zpow_eq_div {b : ℚ} (hb : b ≠ 0) (n : Int) : b ^ n = b ^ n.toNat / b ^ (-n).toNat := by
  rw [← zpow_natCast, ← zpow_natCast, ← zpow_sub₀ hb, Int.toNat_sub_toNat_neg]

/-! ### Neighbours -/

/-- Whether a number of a sequence is nearer to a point than that of another index, or as near with an even
index where the other is odd. -/
def Beats (g : Nat → ℚ) (x : ℚ) (n m : Nat) : Prop :=
  |x - g n| < |x - g m| ∨ |x - g n| = |x - g m| ∧ n % 2 = 0 ∧ m % 2 = 1

theorem Beats.asymm {g : Nat → ℚ} {x : ℚ} {n m : Nat} (h : Beats g x n m) : ¬Beats g x m n := by
  rintro (h' | ⟨h', -, hn⟩) <;> obtain h | ⟨h, hn', -⟩ := h
  · exact lt_asymm h h'
  · exact h'.ne' h
  · exact h.ne h'.symm
  · omega

section Neighbours

variable {g : Nat → ℚ} {x : ℚ} {n m : Nat}

/-- The numbers up to one below a point are as far from it as they are below it. -/
theorem abs_sub_below (hg : StrictMono g) (hlow : g n ≤ x) (hm : m ≤ n) : |x - g m| = x - g m :=
  abs_of_nonneg (sub_nonneg.mpr ((hg.monotone hm).trans hlow))

/-- The numbers from one above a point on are as far from it as they are above it. -/
theorem abs_sub_above (hg : StrictMono g) (hhigh : x ≤ g n) (hm : n ≤ m) : |x - g m| = g m - x := by
  rw [abs_sub_comm]
  exact abs_of_nonneg (sub_nonneg.mpr (hhigh.trans (hg.monotone hm)))

/-- The lower of two neighbours around a point beats every other number if the upper one is farther, or as
far and odd. -/
theorem beats_lower (hg : StrictMono g) (hlow : g n ≤ x) (hhigh : x < g (n + 1))
    (hnear : 2 * x < g n + g (n + 1) ∨ 2 * x = g n + g (n + 1) ∧ n % 2 = 0) (hm : m ≠ n) :
    Beats g x n m := by
  rw [Beats, abs_sub_below hg hlow le_rfl]
  obtain hlt | rfl | hgt : m < n ∨ m = n + 1 ∨ n + 1 < m := by omega
  · rw [abs_sub_below hg hlow hlt.le]
    exact .inl (sub_lt_sub_left (hg hlt) x)
  · rw [abs_sub_above hg hhigh.le le_rfl]
    obtain hnear | ⟨htie, heven⟩ := hnear
    · exact .inl (by linarith)
    · exact .inr ⟨by linarith, heven, by omega⟩
  · rw [abs_sub_above hg hhigh.le hgt.le]
    have hfar := hg hgt
    obtain hnear | ⟨htie, -⟩ := hnear <;> exact .inl (by linarith)

/-- The upper of two neighbours around a point beats every other number if the lower one is farther, or as
far and odd. -/
theorem beats_upper (hg : StrictMono g) (hlow : g n ≤ x) (hhigh : x < g (n + 1))
    (hnear : ¬(2 * x < g n + g (n + 1) ∨ 2 * x = g n + g (n + 1) ∧ n % 2 = 0)) (hm : m ≠ n + 1) :
    Beats g x (n + 1) m := by
  rw [not_or, not_lt, not_and] at hnear
  obtain ⟨hnear, htie⟩ := hnear
  rw [Beats, abs_sub_above hg hhigh.le le_rfl]
  obtain hlt | rfl | hgt : m < n ∨ m = n ∨ n + 1 < m := by omega
  · rw [abs_sub_below hg hlow hlt.le]
    have hfar := hg hlt
    exact .inl (by linarith)
  · rw [abs_sub_below hg hlow le_rfl]
    obtain hlt | heq := hnear.lt_or_eq
    · exact .inl (by linarith)
    · have hodd := htie heq.symm
      exact .inr ⟨by linarith, by omega, by omega⟩
  · rw [abs_sub_above hg hhigh.le hgt.le]
    exact .inl (sub_lt_sub_right (hg hgt) x)

end Neighbours

namespace BinaryFormat

variable (f : BinaryFormat)

/-! ### The numbers of the patterns -/

/-- The number that a pattern up to that of infinity stands for. -/
def magnitude (pattern : Nat) : ℚ := (f.unpack pattern).1 * 2 ^ (f.unpack pattern).2

/-- Whether a pattern up to that of infinity is the one nearest to a number. -/
def IsNearest (x : ℚ) (pattern : Nat) : Prop :=
  pattern ≤ f.infinity ∧ ∀ other ≤ f.infinity, other ≠ pattern → Beats f.magnitude x pattern other

variable {f}

theorem IsNearest.unique {x : ℚ} {m n : Nat} (hm : f.IsNearest x m) (hn : f.IsNearest x n) : m = n := by
  by_contra hne
  exact (hm.2 n hn.1 (Ne.symm hne)).asymm (hn.2 m hm.1 hne)

/-- The patterns of one exponent, and the next one, stand for the multiples of one power of two. -/
theorem magnitude_add {k m : Nat} (hm : m ≤ 2 * pow2 f.fractionBits)
    (hk : k = 0 ∨ pow2 f.fractionBits ≤ m) :
    f.magnitude (k * pow2 f.fractionBits + m) = m * 2 ^ (f.minExponent + k) := by
  have hpos : 0 < pow2 f.fractionBits := pow2_pos _
  rw [magnitude, unpack]
  generalize pow2 f.fractionBits = size at *
  obtain hlow | hmid | rfl : m < size ∨ (size ≤ m ∧ m < 2 * size) ∨ m = 2 * size := by omega
  · obtain rfl : k = 0 := by omega
    rw [Nat.zero_mul, Nat.zero_add, Nat.div_eq_of_lt hlow]
    simp
  · have hdiv : (k * size + m) / size = k + 1 :=
      Nat.div_eq_of_lt_le (by rw [Nat.succ_mul]; omega) (by rw [Nat.succ_mul, Nat.succ_mul]; omega)
    have hmod : size + (k * size + m) % size = m := by
      have hsum := Nat.div_add_mod (k * size + m) size
      rw [hdiv] at hsum
      linarith [hsum]
    simp only [hdiv, hmod, Nat.succ_ne_zero, if_false]
    push_cast
    rw [add_sub_cancel_right]
  · have hdiv : (k * size + 2 * size) / size = k + 2 := by
      rw [← Nat.add_mul, Nat.mul_div_cancel _ hpos]
    have hmod : (k * size + 2 * size) % size = 0 := by
      rw [← Nat.add_mul, Nat.mul_mod_left]
    simp only [hdiv, hmod, Nat.succ_ne_zero, if_false]
    push_cast
    rw [show f.minExponent + ((k : Int) + 2 - 1) = f.minExponent + k + 1 by ring,
      zpow_add_one₀ two_ne_zero]
    ring

/-- The numbers ascend with the patterns. -/
theorem strictMono_magnitude : StrictMono f.magnitude := by
  refine strictMono_nat_of_lt_succ fun p => ?_
  have hpos : 0 < pow2 f.fractionBits := pow2_pos _
  have hmod := Nat.mod_lt p hpos
  have hsum := Nat.div_add_mod' p (pow2 f.fractionBits)
  obtain ⟨k, m, hp, hm, hk⟩ : ∃ k m, p = k * pow2 f.fractionBits + m ∧ m < 2 * pow2 f.fractionBits ∧
      (k = 0 ∨ pow2 f.fractionBits ≤ m) := by
    cases hdiv : p / pow2 f.fractionBits with
    | zero => exact ⟨0, p, by omega, by rw [hdiv] at hsum; omega, .inl rfl⟩
    | succ k =>
      refine ⟨k, pow2 f.fractionBits + p % pow2 f.fractionBits, ?_, by omega, .inr (by omega)⟩
      rw [hdiv, Nat.succ_mul] at hsum
      omega
  rw [hp, Nat.add_assoc, magnitude_add hm.le hk, magnitude_add (by omega) (by omega)]
  exact mul_lt_mul_of_pos_right (by push_cast; linarith) (zpow_pos two_pos _)

theorem magnitude_zero : f.magnitude 0 = 0 := by
  have h := magnitude_add (f := f) (k := 0) (m := 0) (by omega) (.inl rfl)
  simpa using h

/-! ### Rounding -/

/-- Scaling two numbers up and down by powers of two compares their ratio with a power of two. -/
theorem mul_pow2_le_iff {num den : Nat} (hden : 0 < den) (k : Int) :
    den * pow2 k.toNat ≤ num * pow2 (-k).toNat ↔ (2 : ℚ) ^ k ≤ num / den := by
  rw [zpow_eq_div two_ne_zero, div_le_div_iff₀ (by positivity) (by exact_mod_cast hden), ← cast_pow2,
    ← cast_pow2, mul_comm (pow2 k.toNat : ℚ)]
  exact_mod_cast Iff.rfl

/-- The exponent of a ratio is that of the greatest power of two that is not above it. -/
theorem floorLog2_spec {num den : Nat} (hnum : 0 < num) (hden : 0 < den) :
    (2 : ℚ) ^ floorLog2 num den ≤ num / den ∧ (num / den : ℚ) < 2 ^ (floorLog2 num den + 1) := by
  have hposden : (0 : ℚ) < den := by exact_mod_cast hden
  have hnumlow : (2 : ℚ) ^ (Nat.log2 num : Int) ≤ num := by
    rw [zpow_natCast]
    exact_mod_cast Nat.log2_self_le hnum.ne'
  have hnumhigh : (num : ℚ) < 2 ^ (Nat.log2 num + 1 : Int) := by
    rw [← Nat.cast_succ, zpow_natCast]
    exact_mod_cast Nat.lt_log2_self
  have hdenlow : (2 : ℚ) ^ (Nat.log2 den : Int) ≤ den := by
    rw [zpow_natCast]
    exact_mod_cast Nat.log2_self_le hden.ne'
  have hdenhigh : (den : ℚ) < 2 ^ (Nat.log2 den + 1 : Int) := by
    rw [← Nat.cast_succ, zpow_natCast]
    exact_mod_cast Nat.lt_log2_self
  rw [floorLog2]
  generalize (Nat.log2 num : Int) = i at *
  generalize (Nat.log2 den : Int) = j at *
  split
  · next hle =>
    refine ⟨(mul_pow2_le_iff hden _).mp hle, ?_⟩
    rw [div_lt_iff₀ hposden]
    calc (num : ℚ) < 2 ^ (i + 1) := hnumhigh
      _ = 2 ^ (i - j + 1) * 2 ^ j := by rw [← zpow_add₀ two_ne_zero]; ring_nf
      _ ≤ 2 ^ (i - j + 1) * den := by gcongr
  · next hle =>
    refine ⟨?_, ?_⟩
    · rw [le_div_iff₀ hposden]
      calc (2 : ℚ) ^ (i - j - 1) * den ≤ 2 ^ (i - j - 1) * 2 ^ (j + 1) := by gcongr
        _ = 2 ^ i := by rw [← zpow_add₀ two_ne_zero]; ring_nf
        _ ≤ num := hnumlow
    · rw [sub_add_cancel]
      exact not_le.mp fun h => hle ((mul_pow2_le_iff hden _).mpr h)

/-- The quotient is rounded to the nearer of the two integers around it, and to the even one of two equally
near ones. -/
theorem divToEven_spec (num : Nat) {den : Nat} (hden : 0 < den) :
    ((num / den : Nat) : ℚ) ≤ num / den ∧ (num / den : ℚ) < (num / den : Nat) + 1 ∧
    (2 * (num / den : ℚ) < 2 * (num / den : Nat) + 1 ∨
        2 * (num / den : ℚ) = 2 * (num / den : Nat) + 1 ∧ num / den % 2 = 0 →
      divToEven num den = num / den) ∧
    (¬(2 * (num / den : ℚ) < 2 * (num / den : Nat) + 1 ∨
        2 * (num / den : ℚ) = 2 * (num / den : Nat) + 1 ∧ num / den % 2 = 0) →
      divToEven num den = num / den + 1) := by
  have hposden : (0 : ℚ) < den := by exact_mod_cast hden
  have hsum : (num : ℚ) = den * (num / den : Nat) + (num % den : Nat) := by
    exact_mod_cast (Nat.div_add_mod num den).symm
  have hrest : ((num % den : Nat) : ℚ) < den := by exact_mod_cast Nat.mod_lt num hden
  have hratio : (num / den : ℚ) = (num / den : Nat) + (num % den : Nat) / den := by
    rw [div_eq_iff hposden.ne', add_mul, div_mul_cancel₀ _ hposden.ne', mul_comm _ (den : ℚ), ← hsum]
  have hless : 2 * (num / den : ℚ) < 2 * (num / den : Nat) + 1 ↔ 2 * (num % den) < den := by
    rw [hratio, mul_add, add_lt_add_iff_left, mul_div_assoc', div_lt_one hposden]
    exact_mod_cast Iff.rfl
  have hequal : 2 * (num / den : ℚ) = 2 * (num / den : Nat) + 1 ↔ 2 * (num % den) = den := by
    rw [hratio, mul_add, add_right_inj, mul_div_assoc', div_eq_one_iff_eq hposden.ne']
    exact_mod_cast Iff.rfl
  have hhigh : (num / den : ℚ) < (num / den : Nat) + 1 := by
    rw [hratio, add_lt_add_iff_left, div_lt_one hposden]
    exact hrest
  rw [hless, hequal]
  exact ⟨Nat.cast_div_le, hhigh, fun h => if_pos h, fun h => if_neg h⟩

/-- The integer that a quotient is rounded to beats every other, where neighbouring integers are a fixed step
apart and stand at even and odd places in turn. -/
theorem beats_divToEven {g : Nat → ℚ} (hg : StrictMono g) {num den base other : Nat} {step : ℚ}
    (hden : 0 < den) (hstep : 0 < step) (hbase : base % 2 = 0)
    (hlow : g (base + num / den) = (num / den : Nat) * step)
    (hhigh : g (base + num / den + 1) = (num / den + 1 : Nat) * step)
    (hne : other ≠ base + divToEven num den) :
    Beats g (num / den * step) (base + divToEven num den) other := by
  obtain ⟨hfloor, hceil, hdown, hup⟩ := divToEven_spec num hden
  have hbelow : g (base + num / den) ≤ num / den * step := by
    rw [hlow]
    exact mul_le_mul_of_nonneg_right hfloor hstep.le
  have habove : num / den * step < g (base + num / den + 1) := by
    rw [hhigh]
    push_cast
    exact mul_lt_mul_of_pos_right hceil hstep
  have hmiddle : g (base + num / den) + g (base + num / den + 1) = (2 * (num / den : Nat) + 1) * step := by
    rw [hlow, hhigh]
    push_cast
    ring
  have hparity : (base + num / den) % 2 = num / den % 2 := by omega
  -- in units of the step the choice between the neighbours is that of the quotient
  have hchoice : 2 * (num / den * step : ℚ) < (2 * (num / den : Nat) + 1) * step ∨
        2 * (num / den * step : ℚ) = (2 * (num / den : Nat) + 1) * step ∧ num / den % 2 = 0 ↔
      2 * (num / den : ℚ) < 2 * (num / den : Nat) + 1 ∨
        2 * (num / den : ℚ) = 2 * (num / den : Nat) + 1 ∧ num / den % 2 = 0 := by
    rw [← mul_assoc, mul_lt_mul_iff_left₀ hstep, mul_left_inj' hstep.ne']
  rw [← hmiddle, ← hparity] at hchoice
  by_cases hnear : 2 * (num / den * step : ℚ) < g (base + num / den) + g (base + num / den + 1) ∨
      2 * (num / den * step : ℚ) = g (base + num / den) + g (base + num / den + 1) ∧
        (base + num / den) % 2 = 0
  · rw [hdown (hparity ▸ hchoice.mp hnear)] at hne ⊢
    exact beats_lower hg hbelow habove hnear hne
  · rw [hup (hparity ▸ mt hchoice.mpr hnear), ← Nat.add_assoc] at hne ⊢
    exact beats_upper hg hbelow habove hnear hne

variable (f) in
/-- The exponent of the last place of the numbers around a ratio. -/
def lastPlace (num den : Nat) : Int := max f.minExponent (floorLog2 num den - f.fractionBits)

variable (f) in
/-- The pattern that a ratio is rounded to where the exponents go on beyond infinity. -/
def unbounded (num den : Nat) : Nat :=
  (f.lastPlace num den - f.minExponent).toNat * pow2 f.fractionBits +
    divToEven (num * pow2 (-f.lastPlace num den).toNat) (den * pow2 (f.lastPlace num den).toNat)

/-- In units of its last place a ratio has as many digits as the format, or fewer if it is small. -/
theorem lastPlace_spec {num den : Nat} (hnum : 0 < num) (hden : 0 < den) :
    (num / den : ℚ) < 2 * pow2 f.fractionBits * 2 ^ f.lastPlace num den ∧
      (f.lastPlace num den = f.minExponent ∨
        pow2 f.fractionBits * 2 ^ f.lastPlace num den ≤ (num / den : ℚ)) := by
  obtain ⟨hlow, hhigh⟩ := floorLog2_spec hnum hden
  rw [lastPlace, cast_pow2, ← zpow_natCast]
  generalize floorLog2 num den = e at *
  constructor
  · calc (num / den : ℚ) < 2 ^ (e + 1) := hhigh
      _ ≤ 2 ^ (1 + (f.fractionBits : Int) + max f.minExponent (e - f.fractionBits)) :=
        zpow_le_zpow_right₀ one_le_two (by omega)
      _ = _ := by rw [zpow_add₀ two_ne_zero, zpow_add₀ two_ne_zero, zpow_one]
  · obtain hmax | hmax := max_choice f.minExponent (e - f.fractionBits)
    · exact .inl hmax
    · right
      rw [hmax, ← zpow_add₀ two_ne_zero, add_sub_cancel]
      exact hlow

/-- Where the exponents go on, the pattern that a ratio is rounded to beats every other. -/
theorem beats_unbounded (hf : 0 < f.fractionBits) {num den other : Nat} (hnum : 0 < num) (hden : 0 < den)
    (hne : other ≠ f.unbounded num den) :
    Beats f.magnitude (num / den) (f.unbounded num den) other := by
  obtain ⟨hsmall, hlarge⟩ := lastPlace_spec (f := f) hnum hden
  have hmin : f.minExponent ≤ f.lastPlace num den := le_max_left _ _
  rw [unbounded] at hne ⊢
  generalize f.lastPlace num den = place at *
  obtain ⟨k, rfl⟩ : ∃ k : Nat, place = f.minExponent + k := Int.le.dest hmin |>.imp fun _ h => h.symm
  rw [add_sub_cancel_left, Int.toNat_natCast] at hne ⊢
  have hstep : (0 : ℚ) < 2 ^ (f.minExponent + k) := zpow_pos two_pos _
  have hscaled : (num / den : ℚ) = (num * pow2 (-(f.minExponent + k)).toNat : Nat) /
      (den * pow2 (f.minExponent + k).toNat : Nat) * 2 ^ (f.minExponent + k) := by
    have hden' : (den : ℚ) ≠ 0 := by exact_mod_cast hden.ne'
    rw [zpow_eq_div two_ne_zero, Nat.cast_mul, Nat.cast_mul, cast_pow2, cast_pow2]
    field_simp
  have hpos : 0 < den * pow2 (f.minExponent + k).toNat := Nat.mul_pos hden (pow2_pos _)
  generalize (num * pow2 (-(f.minExponent + k)).toNat) = scaledNum at *
  generalize (den * pow2 (f.minExponent + k).toNat) = scaledDen at *
  obtain ⟨hfloor, hceil, -⟩ := divToEven_spec scaledNum hpos
  rw [hscaled] at hsmall hlarge ⊢
  rw [mul_lt_mul_iff_left₀ hstep] at hsmall
  rw [mul_le_mul_iff_left₀ hstep] at hlarge
  -- both neighbours of the ratio are among the numbers of one exponent
  have hbelow : scaledNum / scaledDen + 1 ≤ 2 * pow2 f.fractionBits := by
    exact_mod_cast hfloor.trans_lt hsmall
  have hblock : k = 0 ∨ pow2 f.fractionBits ≤ scaledNum / scaledDen := by
    obtain hzero | hle := hlarge
    · exact .inl (by omega)
    · exact .inr (Nat.lt_succ_iff.mp (by exact_mod_cast hle.trans_lt hceil))
  have heven : k * pow2 f.fractionBits % 2 = 0 :=
    Nat.mod_eq_zero_of_dvd ((dvd_pow_self 2 hf.ne').mul_left k)
  exact beats_divToEven strictMono_magnitude hpos hstep heven (magnitude_add (by omega) hblock)
    (magnitude_add hbelow (by omega)) hne

/-- **Rounding gives the nearest pattern**, for a format with places. -/
theorem isNearest_nearest (hf : 0 < f.fractionBits) {num den : Nat} (hden : 0 < den) :
    f.IsNearest (num / den) (f.nearest num den) := by
  rw [nearest]
  split
  · next hzero =>
    subst hzero
    refine ⟨Nat.zero_le _, fun other _ hne => .inl ?_⟩
    have hother := strictMono_magnitude (f := f) (Nat.pos_of_ne_zero hne)
    rw [magnitude_zero] at hother
    rw [Nat.cast_zero, zero_div, magnitude_zero, sub_zero, abs_zero, zero_sub, abs_neg, abs_of_pos hother]
    exact hother
  · next hnum =>
    have hbeats (other : Nat) := @beats_unbounded f hf num den other (Nat.pos_of_ne_zero hnum) hden
    show f.IsNearest _ (min f.infinity (f.unbounded num den))
    generalize f.unbounded num den = p at *
    obtain hle | hlt := le_or_gt p f.infinity
    · rw [min_eq_right hle]
      exact ⟨hle, fun other _ hne => hbeats other hne⟩
    · rw [min_eq_left hlt.le]
      refine ⟨le_rfl, fun other hother hne => .inl ?_⟩
      -- the ratio is at least half-way from infinity to a greater pattern
      have hinfinity := strictMono_magnitude (f := f) hlt
      have hless := strictMono_magnitude (f := f) (lt_of_le_of_ne hother hne)
      have habove : f.magnitude f.infinity < num / den := by
        by_contra hnot
        have hbelow := not_lt.mp hnot
        obtain hnear | ⟨hnear, -⟩ := hbeats f.infinity hlt.ne
        all_goals
          rw [abs_of_nonpos (by linarith), abs_of_nonpos (by linarith)] at hnear
          linarith
      rw [abs_of_pos (by linarith), abs_of_pos (by linarith)]
      linarith

/-! ### Small and large numbers -/

theorem magnitude_one : f.magnitude 1 = 2 ^ f.minExponent := by
  have hpos : 0 < pow2 f.fractionBits := pow2_pos _
  have h := magnitude_add (f := f) (k := 0) (m := 1) (by omega) (.inl rfl)
  simpa using h

theorem magnitude_infinity (hf : 2 ≤ pow2 f.exponentBits) :
    f.magnitude f.infinity = 2 ^ (f.fractionBits + f.minExponent + (pow2 f.exponentBits - 2 : Nat)) := by
  have hblock : f.infinity = (pow2 f.exponentBits - 2) * pow2 f.fractionBits + pow2 f.fractionBits := by
    rw [infinity, ← Nat.succ_mul]
    congr 1
    omega
  rw [hblock, magnitude_add (by omega) (.inr le_rfl), cast_pow2, ← zpow_natCast, ← zpow_add₀ two_ne_zero,
    add_assoc]

/-- Less than half of the least positive number is rounded to zero. -/
theorem isNearest_zero {x : ℚ} (hx : 0 ≤ x) (h : 2 * x < f.magnitude 1) : f.IsNearest x 0 := by
  refine ⟨Nat.zero_le _, fun other _ hne => beats_lower strictMono_magnitude ?_ ?_ ?_ hne⟩
  · rwa [magnitude_zero]
  · linarith
  · left
    rwa [magnitude_zero, zero_add]

/-- What is beyond all finite numbers is rounded to infinity. -/
theorem isNearest_infinity {x : ℚ} (h : f.magnitude f.infinity ≤ x) : f.IsNearest x f.infinity := by
  refine ⟨le_rfl, fun other hother hne => .inl ?_⟩
  rw [abs_sub_below strictMono_magnitude h le_rfl, abs_sub_below strictMono_magnitude h hother]
  exact sub_lt_sub_left (strictMono_magnitude (lt_of_le_of_ne hother hne)) x

end BinaryFormat

/-! ### Numerals -/

namespace Scientific

open BinaryFormat

/-- The value of a numeral. -/
def value (x : Scientific) : ℚ := x.digits * 10 ^ x.exponent

/-- A numeral lies between the powers of ten that its number of digits says. -/
theorem value_bounds {x : Scientific} (hx : x.digits ≠ 0) :
    (10 : ℚ) ^ (x.exponent + (Nat.toDigits 10 x.digits).length - 1) ≤ x.value ∧
      x.value < 10 ^ (x.exponent + (Nat.toDigits 10 x.digits).length) := by
  obtain ⟨n, hn⟩ : ∃ n, (Nat.toDigits 10 x.digits).length = n + 1 :=
    Nat.exists_eq_succ_of_ne_zero (Nat.length_toDigits_pos).ne'
  have hhigh : x.digits < 10 ^ (n + 1) :=
    (Nat.length_toDigits_le_iff (by decide) n.succ_pos).mp hn.le
  have hlow : 10 ^ n ≤ x.digits := by
    by_contra hnot
    cases n with
    | zero => exact hnot (by omega)
    | succ n =>
      have hle := (Nat.length_toDigits_le_iff (b := 10) (by decide) n.succ_pos).mpr (not_le.mp hnot)
      omega
  have hpos : (0 : ℚ) < 10 ^ x.exponent := zpow_pos (by norm_num) _
  rw [value, hn]
  constructor
  · calc (10 : ℚ) ^ (x.exponent + (n + 1 : Nat) - 1) = (10 ^ n : Nat) * 10 ^ x.exponent := by
          rw [Nat.cast_pow, ← zpow_natCast, Nat.cast_ofNat, ← zpow_add₀ (by norm_num)]
          congr 1
          push_cast
          ring
      _ ≤ x.digits * 10 ^ x.exponent := by gcongr
  · calc (x.digits : ℚ) * 10 ^ x.exponent < (10 ^ (n + 1) : Nat) * 10 ^ x.exponent := by
          gcongr
      _ = 10 ^ (x.exponent + (n + 1 : Nat)) := by
          rw [Nat.cast_pow, ← zpow_natCast, Nat.cast_ofNat, ← zpow_add₀ (by norm_num), add_comm]

/-- Three binary places are less than one decimal place. -/
theorem two_zpow_le {n : Int} (h : n ≤ 3 * horizon) : (2 : ℚ) ^ n ≤ 10 ^ horizon := by
  calc (2 : ℚ) ^ n ≤ 2 ^ (3 * horizon) := zpow_le_zpow_right₀ one_le_two h
    _ = 8 ^ horizon := by rw [zpow_mul]; norm_num
    _ ≤ 10 ^ horizon := zpow_le_zpow_left₀ (by decide) (by norm_num) (by norm_num)

/-- The finite numbers of the two formats in use stay within the horizon. -/
theorem magnitude_within {f : BinaryFormat} (hf : f = single ∨ f = double) :
    (10 : ℚ) ^ (-horizon) ≤ f.magnitude 1 ∧ f.magnitude f.infinity ≤ 10 ^ horizon := by
  have hfields : 2 ≤ pow2 f.exponentBits ∧ -(3 * horizon) ≤ f.minExponent ∧
      f.fractionBits + f.minExponent + (pow2 f.exponentBits - 2 : Nat) ≤ 3 * horizon := by
    obtain rfl | rfl := hf <;> decide
  obtain ⟨hbits, hmin, hmax⟩ := hfields
  rw [magnitude_one, magnitude_infinity hbits]
  refine ⟨?_, two_zpow_le hmax⟩
  rw [← neg_neg f.minExponent, zpow_neg, zpow_neg]
  exact inv_anti₀ (zpow_pos two_pos _) (two_zpow_le (by omega))

/-- **A numeral is rounded to the nearest pattern** of each of the two formats in use. -/
theorem isNearest_toBinary {f : BinaryFormat} (hf : f = single ∨ f = double) (x : Scientific) :
    f.IsNearest x.value (x.toBinary f) := by
  obtain ⟨hsmall, hlarge⟩ := magnitude_within hf
  have hplaces : 0 < f.fractionBits := by obtain rfl | rfl := hf <;> decide
  have hvalue : x.value = (x.digits * pow10 x.exponent.toNat : Nat) / (pow10 (-x.exponent).toNat : Nat) := by
    rw [value, zpow_eq_div (by norm_num), Nat.cast_mul, cast_pow10, cast_pow10, mul_div_assoc]
  have hnonneg : 0 ≤ x.value := by
    rw [hvalue]
    positivity
  rw [toBinary]
  split
  · next h =>
    refine isNearest_zero hnonneg (lt_of_lt_of_le ?_ hsmall)
    obtain hzero | hless := h
    · rw [value, hzero, Nat.cast_zero, zero_mul, mul_zero]
      positivity
    · by_cases hzero : x.digits = 0
      · rw [value, hzero, Nat.cast_zero, zero_mul, mul_zero]
        positivity
      · calc 2 * x.value < 10 * 10 ^ (x.exponent + (Nat.toDigits 10 x.digits).length) := by
              linarith [(value_bounds hzero).2]
          _ = 10 ^ (x.exponent + (Nat.toDigits 10 x.digits).length + 1) := by
              rw [zpow_add_one₀ (by norm_num), mul_comm]
          _ ≤ 10 ^ (-horizon) := zpow_le_zpow_right₀ (by norm_num) (by omega)
  split
  · next h hfar =>
    rw [not_or] at h
    refine isNearest_infinity (hlarge.trans (le_trans ?_ (value_bounds h.1).1))
    exact zpow_le_zpow_right₀ (by norm_num) (by omega)
  · rw [hvalue]
    exact isNearest_nearest hplaces (Nat.pow_pos (by decide))

end Scientific

end TripleLoom
