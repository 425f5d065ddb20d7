import Mathlib.Data.List.DropRight
import TripleLoom.Proofs.Numeric.Exact

/-!
# TripleLoom.Proofs.Numeric.Numerals — what the numerals of integers and decimals stand for

A numeral is an optional sign in front of digits, and in that of a decimal a point may stand before,
among or behind the digits.  It spells a rational number (`ExactKind.Spells`).  A numeral is read as
the integer or the decimal of that value, and every numeral is read whose value there is an integer or
a decimal for (`Integer.read?_eq_some_iff`, `Decimal.read?_eq_some_iff`): zeros in front of the digits
or behind the point never take a number out of the range.
-/

namespace TripleLoom

namespace ExactKind

/-- The numerals of a kind without a sign, and what they spell. -/
inductive SpellsUnsigned : ExactKind → List Char → ℚ → Prop where
  | digits {k : ExactKind} {digits : List Char} (hne : digits ≠ [])
      (hdigits : ∀ c ∈ digits, c.isDigit) :
      SpellsUnsigned k digits (Nat.ofDigitChars 10 digits 0 : Nat)
  | pointed {whole fraction : List Char} (hne : whole ≠ [] ∨ fraction ≠ [])
      (hwhole : ∀ c ∈ whole, c.isDigit) (hfraction : ∀ c ∈ fraction, c.isDigit) :
      SpellsUnsigned .decimal (whole ++ '.' :: fraction)
        ((Nat.ofDigitChars 10 (whole ++ fraction) 0 : Nat) / 10 ^ fraction.length)

/-- The numerals of a kind and what they spell. -/
inductive Spells (k : ExactKind) : List Char → ℚ → Prop where
  | bare {s : List Char} {x : ℚ} (h : k.SpellsUnsigned s x) : Spells k s x
  | plus {s : List Char} {x : ℚ} (h : k.SpellsUnsigned s x) : Spells k ('+' :: s) x
  | minus {s : List Char} {x : ℚ} (h : k.SpellsUnsigned s x) : Spells k ('-' :: s) (-x)

variable {k : ExactKind} {s : List Char} {x : ℚ}

/-- Nothing is split off a numeral without a sign. -/
theorem SpellsUnsigned.splitSign_eq (h : k.SpellsUnsigned s x) : splitSign s = (false, s) := by
  have hhead : ∀ c ∈ s.head?, c.isDigit ∨ c = '.' := by
    cases h with
    | digits _ hdigits => exact fun c hc => .inl (hdigits c (List.mem_of_mem_head? hc))
    | @pointed whole _ _ hwhole _ =>
      cases whole with
      | nil => rintro _ ⟨⟩; exact .inr rfl
      | cons d _ => rintro _ ⟨⟩; exact .inl (hwhole d List.mem_cons_self)
  unfold splitSign
  split
  · exact absurd (hhead '+' rfl) (by decide)
  · exact absurd (hhead '-' rfl) (by decide)
  · rfl

theorem spells_iff_splitSign :
    k.Spells s x ↔
      ∃ y, k.SpellsUnsigned (splitSign s).2 y ∧ x = if (splitSign s).1 then -y else y := by
  constructor
  · rintro (h | h | h)
    · rw [h.splitSign_eq]
      exact ⟨x, h, rfl⟩
    · exact ⟨x, h, rfl⟩
    · exact ⟨_, h, rfl⟩
  · rintro ⟨y, h, rfl⟩
    unfold splitSign at h ⊢
    split at h
    · exact .plus h
    · exact .minus h
    · exact .bare h

theorem spellsUnsigned_digits_iff (hdigits : ∀ c ∈ s, c.isDigit) :
    k.SpellsUnsigned s x ↔ s ≠ [] ∧ x = (Nat.ofDigitChars 10 s 0 : Nat) := by
  constructor
  · rintro (⟨hne, -⟩ | _)
    · exact ⟨hne, rfl⟩
    · exact absurd (hdigits '.' (by simp)) (by decide)
  · rintro ⟨hne, rfl⟩
    exact .digits hne hdigits

/-- The first character of a numeral that is no digit is its point. -/
theorem spellsUnsigned_append_iff {whole fraction : List Char} {c : Char}
    (hwhole : ∀ d ∈ whole, d.isDigit) (hc : ¬c.isDigit) :
    decimal.SpellsUnsigned (whole ++ c :: fraction) x ↔
      c = '.' ∧ (whole ≠ [] ∨ fraction ≠ []) ∧ (∀ d ∈ fraction, d.isDigit) ∧
        x = (Nat.ofDigitChars 10 (whole ++ fraction) 0 : Nat) / 10 ^ fraction.length := by
  constructor
  · generalize htext : whole ++ c :: fraction = text
    rintro (⟨-, hdigits⟩ | @⟨whole', fraction', hne, hwhole', hfraction'⟩)
    · exact absurd (hdigits c (by simp [← htext])) hc
    · have hsame : whole = whole' := by
        have htake := congrArg (List.takeWhile Char.isDigit) htext
        rwa [List.takeWhile_append_of_pos hwhole, List.takeWhile_append_of_pos hwhole',
          List.takeWhile_cons_of_neg hc, List.takeWhile_cons_of_neg (by decide), List.append_nil,
          List.append_nil] at htake
      subst hsame
      obtain ⟨rfl, rfl⟩ := List.cons.inj (List.append_cancel_left htext)
      exact ⟨rfl, hne, hfraction', rfl⟩
  · rintro ⟨rfl, hne, hfraction, rfl⟩
    exact .pointed hne hwhole hfraction

end ExactKind

/-! ### Integers -/

theorem cast_signed (negative : Bool) (n : Nat) :
    ((signed negative n : Int) : ℚ) = if negative then -(n : ℚ) else n := by
  cases negative <;> simp [signed]

theorem isDigits_iff {s : List Char} : isDigits s ↔ s ≠ [] ∧ ∀ c ∈ s, c.isDigit := by
  simp [isDigits]

theorem readInteger?_eq_some_iff {s : List Char} {n : Int} :
    readInteger? s = some n ↔ ExactKind.integer.Spells s n := by
  rw [ExactKind.spells_iff_splitSign, readInteger?]
  generalize splitSign s = split
  obtain ⟨negative, digits⟩ := split
  rw [Option.ite_none_right_eq_some, isDigits_iff, Option.some.injEq]
  constructor
  · rintro ⟨⟨hne, hdigits⟩, rfl⟩
    exact ⟨_, .digits hne hdigits, cast_signed _ _⟩
  · rintro ⟨y, h, hy⟩
    cases h with
    | digits hne hdigits =>
      refine ⟨⟨hne, hdigits⟩, ?_⟩
      rw [← cast_signed] at hy
      exact_mod_cast hy.symm

/-- A numeral is read as the integer that it spells, if there is one. -/
theorem Integer.read?_eq_some_iff {s : String} {n : Integer} :
    Integer.read? s = some n ↔ ExactKind.integer.Spells s.toList n.val := by
  rw [← readInteger?_eq_some_iff, Integer.read?, Option.bind_eq_bind, Option.bind_eq_some_iff]
  constructor
  · rintro ⟨m, hread, hm⟩
    rw [hread, Bounded.ofInt?_eq_some_iff.mp hm]
  · exact fun hread => ⟨n.val, hread, Bounded.ofInt?_val n⟩

/-! ### Decimals -/

namespace Decimal

theorem trimZeros_append_zeros (s : List Char) :
    ∃ n, s = trimZeros s ++ List.replicate n '0' := by
  refine ⟨(s.rtakeWhile (· == '0')).length, ?_⟩
  have hzeros : s.rtakeWhile (· == '0') = List.replicate (s.rtakeWhile (· == '0')).length '0' :=
    List.eq_replicate_iff.mpr ⟨rfl, fun c hc => by simpa using List.mem_rtakeWhile_imp hc⟩
  rw [← hzeros]
  exact List.rdropWhile_append_rtakeWhile.symm

theorem getLast_trimZeros (s : List Char) (h : trimZeros s ≠ []) : (trimZeros s).getLast h ≠ '0' :=
  fun hzero => List.rdropWhile_last_not (· == '0') s h (beq_iff_eq.mpr hzero)

/-- The zeros that are cut off are digits. -/
theorem all_trimZeros_iff (s : List Char) :
    (trimZeros s).all Char.isDigit ↔ ∀ c ∈ s, c.isDigit := by
  obtain ⟨n, hs⟩ := trimZeros_append_zeros s
  rw [List.all_eq_true]
  constructor
  · intro h c hc
    rw [hs, List.mem_append] at hc
    obtain hc | hc := hc
    · exact h c hc
    · rw [List.eq_of_mem_replicate hc]
      decide
  · exact fun h c hc => h c (by rw [hs]; exact List.mem_append_left _ hc)

/-- The zeros that are cut off do not count. -/
theorem places_trimZeros (whole fraction : List Char) :
    ((Nat.ofDigitChars 10 (whole ++ trimZeros fraction) 0 : Nat) : ℚ) /
        10 ^ (trimZeros fraction).length =
      (Nat.ofDigitChars 10 (whole ++ fraction) 0 : Nat) / 10 ^ fraction.length := by
  obtain ⟨n, hs⟩ := trimZeros_append_zeros fraction
  generalize trimZeros fraction = trimmed at hs
  subst hs
  rw [← List.append_assoc, Nat.ofDigitChars_append (l := whole ++ trimmed), Nat.ofDigitChars_replicate_zero,
    List.length_append, List.length_replicate, pow_add, mul_comm (10 ^ trimmed.length), Nat.cast_mul,
    Nat.cast_pow]
  exact (mul_div_mul_left _ _ (pow_ne_zero n (by norm_num))).symm

/-- A number whose last digit is no zero is no multiple of ten. -/
theorem not_dvd_of_getLast (whole : List Char) {fraction : List Char} (hfraction : ∀ c ∈ fraction, c.isDigit)
    (hne : fraction ≠ []) (hlast : fraction.getLast hne ≠ '0') :
    ¬10 ∣ Nat.ofDigitChars 10 (whole ++ fraction) 0 := by
  obtain ⟨front, c, rfl⟩ := List.eq_nil_or_concat' fraction |>.resolve_left hne
  rw [List.getLast_append_singleton] at hlast
  have hdigit : 48 ≤ c.toNat ∧ c.toNat ≤ 57 := by
    simpa [Char.isDigit, UInt32.le_iff_toNat_le] using hfraction c (by simp)
  have hnonzero : c.toNat ≠ 48 := fun h => hlast (Char.toNat_inj.mp h)
  rw [← List.append_assoc, Nat.ofDigitChars_append, Nat.ofDigitChars_cons, Nat.ofDigitChars_nil]
  have hzero : '0'.toNat = 48 := rfl
  omega

/-- A number that is in the range when it is moved to the left is so before. -/
theorem fits_of_fits_mul {n p : Int} (hp : 0 < p) (h : Bounded.Fits 128 (n * p)) :
    Bounded.Fits 128 n := by
  obtain ⟨hl, hu⟩ := h
  constructor
  · by_contra hn
    nlinarith
  · by_contra hn
    nlinarith

/-- A number moved to the left is there exactly if the result is in the range. -/
theorem shifted_eq_some_iff {n p : Int} {d : Decimal} (hp : 0 < p) :
    ((Bounded.ofInt? n).bind fun number : Bounded 128 => ofCoefficient? (number.val * p)) = some d ↔
      d.coefficient.val = n * p := by
  rw [Option.bind_eq_some_iff]
  constructor
  · rintro ⟨number, hnumber, hd⟩
    rw [ofCoefficient?_eq_some_iff.mp hd, Bounded.ofInt?_eq_some_iff.mp hnumber]
  · intro h
    have hfits : Bounded.Fits 128 n :=
      fits_of_fits_mul hp (h ▸ ⟨d.coefficient.lower, d.coefficient.upper⟩)
    exact ⟨⟨n, hfits.1, hfits.2⟩, Bounded.ofInt?_eq_some_iff.mpr rfl, ofCoefficient?_eq_some_iff.mpr h⟩

/-- A decimal is a number over a power of ten if both are the same number of parts. -/
theorem value_eq_div_iff {d : Decimal} {m : Int} {n : Nat} :
    d.value = (m : ℚ) / 10 ^ n ↔ d.coefficient.val * 10 ^ n = m * 10 ^ places := by
  have hunit : (unit : ℚ) = 10 ^ places := by exact_mod_cast (rfl : unit = 10 ^ places)
  rw [value_eq_iff, hunit, div_mul_eq_mul_div, eq_div_iff (pow_ne_zero n (by norm_num))]
  exact_mod_cast Iff.rfl

/-- Digits behind the last of which no zero stands are read as the decimal that they spell, if there is
one. -/
theorem ofDigits?_eq_some_iff {negative : Bool} {whole fraction : List Char} {d : Decimal}
    (hfraction : ∀ c ∈ fraction, c.isDigit)
    (hlast : ∀ h : fraction ≠ [], fraction.getLast h ≠ '0') :
    ofDigits? negative whole fraction = some d ↔
      d.value = (signed negative (Nat.ofDigitChars 10 (whole ++ fraction) 0) : Int) /
        10 ^ fraction.length := by
  have hpower (n : Nat) : (10 : Int) ^ n ≠ 0 := pow_ne_zero n (by decide)
  rw [ofDigits?, value_eq_div_iff]
  split
  · next hlong =>
    -- the last digit of too many would have to be a zero
    refine iff_of_false nofun fun hvalue => ?_
    have hne : fraction ≠ [] := List.ne_nil_of_length_pos (by omega)
    obtain ⟨rest, hrest⟩ := Nat.exists_eq_add_of_lt hlong
    rw [hrest, add_assoc, add_comm places, pow_add, ← mul_assoc] at hvalue
    have hnumber := mul_right_cancel₀ (hpower places) hvalue
    have htenth : (10 : Int) ∣ signed negative (Nat.ofDigitChars 10 (whole ++ fraction) 0) :=
      hnumber ▸ Dvd.dvd.mul_left (dvd_pow_self 10 rest.succ_ne_zero) _
    refine not_dvd_of_getLast whole hfraction hne (hlast hne) ?_
    rw [signed] at htenth
    split at htenth <;> omega
  · next hshort =>
    obtain ⟨rest, hrest⟩ := Nat.exists_eq_add_of_le (not_lt.mp hshort)
    have hshift : places - fraction.length = rest := by omega
    rw [Option.bind_eq_bind, hshift, shifted_eq_some_iff (by exact_mod_cast Nat.pow_pos (by decide)),
      hrest, add_comm, pow_add, ← mul_assoc, mul_left_inj' (hpower _)]
    exact_mod_cast Iff.rfl

/-- A numeral is read as the decimal that it spells, if there is one. -/
theorem read?_eq_some_iff {s : String} {d : Decimal} :
    Decimal.read? s = some d ↔ ExactKind.decimal.Spells s.toList d.value := by
  rw [ExactKind.spells_iff_splitSign, read?]
  generalize splitSign s.toList = parts
  obtain ⟨negative, rest⟩ := parts
  dsimp only
  have hrest : rest.takeWhile Char.isDigit ++ rest.dropWhile Char.isDigit = rest :=
    List.takeWhile_append_dropWhile
  have hwhole : ∀ c ∈ rest.takeWhile Char.isDigit, c.isDigit := fun c hc => List.mem_takeWhile_imp hc
  have hhead := List.head_dropWhile_not Char.isDigit (l := rest)
  generalize rest.takeWhile Char.isDigit = whole at *
  generalize rest.dropWhile Char.isDigit = behind at *
  subst hrest
  have hsign (n : Nat) (q : ℚ) :
      ((signed negative n : Int) : ℚ) / q = if negative then -(n / q : ℚ) else n / q := by
    rw [cast_signed]
    cases negative with
    | false => rfl
    | true => exact neg_div q (n : ℚ)
  cases hbehind : behind with
  | nil =>
    simp only [List.append_nil, ExactKind.spellsUnsigned_digits_iff hwhole, and_assoc,
      exists_and_left, exists_eq_left]
    rw [Option.ite_none_left_eq_some, ofDigits?_eq_some_iff (List.forall_mem_nil _) (fun h => absurd rfl h), hsign,
      List.append_nil, List.length_nil, pow_zero, div_one, List.isEmpty_iff]
  | cons c fraction =>
    subst hbehind
    have hc : ¬c.isDigit := by simpa using hhead (List.cons_ne_nil _ _)
    have hdigits := all_trimZeros_iff fraction
    simp only [ExactKind.spellsUnsigned_append_iff hwhole hc, and_assoc, exists_and_left, exists_eq_left]
    rw [Option.ite_none_left_eq_some, Option.ite_none_right_eq_some, hdigits, not_or, not_not, not_and_or,
      List.isEmpty_iff, List.isEmpty_iff, or_comm, and_assoc]
    refine and_congr_right fun _ => and_congr_right fun _ => and_congr_right fun hfraction => ?_
    rw [ofDigits?_eq_some_iff (List.all_eq_true.mp (hdigits.mpr hfraction)) (getLast_trimZeros fraction),
      hsign, places_trimZeros]

end Decimal

end TripleLoom
