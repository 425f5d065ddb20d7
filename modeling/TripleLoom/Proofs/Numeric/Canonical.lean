import TripleLoom.Proofs.Numeric.Numerals

/-!
# TripleLoom.Proofs.Numeric.Canonical — what the canonical numerals spell

The canonical numeral of an integer or a decimal spells its value (`Integer.spells_display`,
`Decimal.spells_display`): the digits before the point and the eighteen behind it are those of the
coefficient, and the zeros that are cut off at the end do not count.  As a numeral is read as the number
that it spells, every number is read back from its canonical numeral.
-/

namespace TripleLoom

/-! ### Integers -/

theorem ExactKind.SpellsUnsigned.toDigits (k : ExactKind) (n : Nat) :
    k.SpellsUnsigned (Nat.toDigits 10 n) n := by
  have hdigits : ∀ c ∈ Nat.toDigits 10 n, c.isDigit :=
    fun c hc => Nat.isDigit_of_mem_toDigits (by decide) (by decide) hc
  rw [ExactKind.spellsUnsigned_digits_iff hdigits, Nat.ofDigitChars_ten_toDigits]
  exact ⟨Nat.toDigits_ne_nil, rfl⟩

/-- A minus stands in front of the numerals of negative numbers. -/
theorem ExactKind.spells_signed {k : ExactKind} {s : List Char} {n : Int} {q : ℚ}
    (h : k.SpellsUnsigned s (n.natAbs / q)) :
    k.Spells ((if n < 0 then ['-'] else []) ++ s) (n / q) := by
  split
  · next hneg =>
    have hn : (n : ℚ) = -(n.natAbs : ℚ) := by
      rw [Nat.cast_natAbs, abs_of_neg hneg, Int.cast_neg, neg_neg]
    rw [hn, neg_div]
    exact .minus h
  · next hneg =>
    have hn : (n : ℚ) = (n.natAbs : ℚ) := by
      rw [Nat.cast_natAbs, abs_of_nonneg (not_lt.mp hneg)]
    rw [hn]
    exact .bare h

theorem spells_showInteger (n : Int) : ExactKind.integer.Spells (showInteger n) n := by
  have htext : showInteger n = (if n < 0 then ['-'] else []) ++ Nat.toDigits 10 n.natAbs := by
    rw [showInteger]
    split <;> rfl
  have hspells : ExactKind.integer.Spells (showInteger n) (n / 1) := by
    rw [htext]
    exact ExactKind.spells_signed (by rw [div_one]; exact .toDigits _ _)
  rwa [div_one] at hspells

theorem Integer.spells_display (n : Integer) : ExactKind.integer.Spells n.display.toList n.val := by
  rw [Integer.display, String.toList_ofList]
  exact spells_showInteger n.val

/-! ### Decimals -/

namespace Decimal

/-- The point stands only in front of digits. -/
theorem spellsUnsigned_pointed {whole fraction : List Char} (hne : whole ≠ [])
    (hwhole : ∀ c ∈ whole, c.isDigit) (hfraction : ∀ c ∈ fraction, c.isDigit) :
    ExactKind.decimal.SpellsUnsigned (whole ++ if fraction.isEmpty then [] else '.' :: fraction)
      ((Nat.ofDigitChars 10 (whole ++ fraction) 0 : Nat) / 10 ^ fraction.length) := by
  cases fraction with
  | nil =>
    rw [List.isEmpty_nil, if_pos rfl, List.append_nil, List.length_nil, pow_zero, div_one]
    exact .digits hne hwhole
  | cons c rest =>
    rw [List.isEmpty_cons, if_neg Bool.false_ne_true]
    exact .pointed (.inl hne) hwhole hfraction

/-- Digits filled up with zeros to a number of places. -/
theorem leftpad_toDigits {n k : Nat} (hk : 0 < k) (h : n < 10 ^ k) :
    ((Nat.toDigits 10 n).leftpad k '0').length = k ∧
      (∀ c ∈ (Nat.toDigits 10 n).leftpad k '0', c.isDigit) ∧
      Nat.ofDigitChars 10 ((Nat.toDigits 10 n).leftpad k '0') 0 = n := by
  have hlength : (Nat.toDigits 10 n).length ≤ k :=
    (Nat.length_toDigits_le_iff (by decide) hk).mpr h
  refine ⟨?_, fun c hc => ?_, ?_⟩
  · rw [List.length_leftpad, max_eq_left hlength]
  · rw [List.leftpad, List.mem_append] at hc
    obtain hc | hc := hc
    · rw [List.eq_of_mem_replicate hc]
      decide
    · exact Nat.isDigit_of_mem_toDigits (by decide) (by decide) hc
  · rw [List.leftpad, Nat.ofDigitChars_append, Nat.ofDigitChars_replicate_zero, mul_zero,
      Nat.ofDigitChars_ten_toDigits]

/-- The digits before the point and those behind it are the digits of the number. -/
theorem ofDigitChars_split (n k : Nat) (hk : 0 < k) :
    Nat.ofDigitChars 10
      (Nat.toDigits 10 (n / 10 ^ k) ++ (Nat.toDigits 10 (n % 10 ^ k)).leftpad k '0') 0 = n := by
  obtain ⟨hlength, -, hvalue⟩ := leftpad_toDigits hk (Nat.mod_lt n (Nat.pow_pos (by decide)))
  rw [Nat.ofDigitChars_append, Nat.ofDigitChars_eq_ofDigitChars_zero, hlength, hvalue,
    Nat.ofDigitChars_ten_toDigits, Nat.div_add_mod]

theorem spells_display (d : Decimal) : ExactKind.decimal.Spells d.display.toList d.value := by
  have hpad := leftpad_toDigits (n := d.coefficient.val.natAbs % 10 ^ places) (k := places) (by decide)
    (Nat.mod_lt _ (Nat.pow_pos (by decide)))
  have hsplit := ofDigitChars_split d.coefficient.val.natAbs places (by decide)
  have hwhole : ∀ c ∈ Nat.toDigits 10 (d.coefficient.val.natAbs / 10 ^ places), c.isDigit :=
    fun c hc => Nat.isDigit_of_mem_toDigits (by decide) (by decide) hc
  have hne : Nat.toDigits 10 (d.coefficient.val.natAbs / 10 ^ places) ≠ [] := Nat.toDigits_ne_nil
  simp only [display, String.toList_ofList, show pow10 places = 10 ^ places from rfl]
  generalize Nat.toDigits 10 (d.coefficient.val.natAbs / 10 ^ places) = whole at *
  generalize (Nat.toDigits 10 (d.coefficient.val.natAbs % 10 ^ places)).leftpad places '0' = padded at *
  obtain ⟨hlength, hdigits, -⟩ := hpad
  have hunsigned := spellsUnsigned_pointed hne hwhole
    (List.all_eq_true.mp ((all_trimZeros_iff padded).mpr hdigits))
  have hunit : (unit : ℚ) = 10 ^ places := by exact_mod_cast (rfl : unit = 10 ^ places)
  rw [places_trimZeros, hsplit, hlength, ← hunit] at hunsigned
  rw [value, List.append_assoc]
  exact ExactKind.spells_signed hunsigned

end Decimal

end TripleLoom
