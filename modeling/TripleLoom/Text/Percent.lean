/-!
# TripleLoom.Text.Percent — bytes behind percent signs

`encode` writes every byte of a text that is no unreserved character of a URI as a percent sign
and two hexadecimal digits; `decode?` reads the bytes back, and `decode?_encodeBytes` says that
nothing is lost.
-/

namespace TripleLoom.Percent

/-- Whether a byte is an unreserved character: an ASCII letter or digit, or one of `-._~`. -/
def isUnreserved (b : UInt8) : Bool :=
  (0x30 ≤ b && b ≤ 0x39) || (0x41 ≤ b && b ≤ 0x5A) || (0x61 ≤ b && b ≤ 0x7A) ||
    b == 0x2D || b == 0x2E || b == 0x5F || b == 0x7E

/-- The hexadecimal digit of a value below 16. -/
def hexDigit (n : Nat) : Char := Char.ofNat (if n < 10 then 0x30 + n else 0x37 + n)

/-- The value of a hexadecimal digit with a capital letter. -/
def hexValue? (c : Char) : Option Nat :=
  if '0' ≤ c ∧ c ≤ '9' then some (c.toNat - 0x30)
  else if 'A' ≤ c ∧ c ≤ 'F' then some (c.toNat - 0x37)
  else none

/-- The characters that stand for a byte. -/
def encodeByte (b : UInt8) : List Char :=
  if isUnreserved b then [Char.ofNat b.toNat]
  else ['%', hexDigit (b.toNat / 16), hexDigit (b.toNat % 16)]

/-- The characters that stand for some bytes. -/
def encodeBytes (bytes : List UInt8) : List Char := bytes.flatMap encodeByte

/-- The bytes that some characters stand for, if they stand for any. -/
def decode? : List Char → Option (List UInt8)
  | [] => some []
  | '%' :: a :: b :: rest => do
    let a ← hexValue? a
    let b ← hexValue? b
    return UInt8.ofNat (16 * a + b) :: (← decode? rest)
  | c :: rest => do
    if c.toNat < 128 ∧ isUnreserved (UInt8.ofNat c.toNat) then
      return UInt8.ofNat c.toNat :: (← decode? rest)
    else none

/-- A text with the bytes of its UTF-8 form encoded. -/
def encode (s : String) : String := String.ofList (encodeBytes s.toUTF8.toList)

/-! ### Reading back what was written -/

theorem hexValue?_hexDigit : ∀ n < 16, hexValue? (hexDigit n) = some n := by decide

theorem toNat_ofNat {n : Nat} (h : n < 256) : (Char.ofNat n).toNat = n := by
  have hv : n.isValidChar := Or.inl (by omega)
  rw [Char.ofNat, dif_pos hv]
  rfl

theorem ne_percent_of_isUnreserved {b : UInt8} (h : isUnreserved b) :
    Char.ofNat b.toNat ≠ '%' := by
  intro he
  have := congrArg Char.toNat he
  rw [toNat_ofNat b.toNat_lt] at this
  have : b = 37 := UInt8.toNat_inj.mp this
  subst this
  exact absurd h (by decide)

theorem toNat_lt_of_isUnreserved {b : UInt8} (h : isUnreserved b) : b.toNat < 128 := by
  simp only [isUnreserved, Bool.or_eq_true, Bool.and_eq_true, decide_eq_true_eq, beq_iff_eq,
    UInt8.le_iff_toNat_le] at h
  rcases h with (((((h | h) | h) | rfl) | rfl) | rfl) | rfl
  all_goals try decide
  all_goals
    have := h.2
    simp at this
    omega

theorem decode?_encodeByte (b : UInt8) (rest : List Char) :
    decode? (encodeByte b ++ rest) = (decode? rest).map (b :: ·) := by
  unfold encodeByte
  split
  · next h =>
    have hlt := toNat_lt_of_isUnreserved h
    have hc : (Char.ofNat b.toNat).toNat = b.toNat := toNat_ofNat b.toNat_lt
    rw [List.singleton_append, decode?.eq_3]
    · simp [hc, hlt, h]
      cases decode? rest <;> rfl
    · intro a b' rest' he
      exact absurd he (ne_percent_of_isUnreserved h)
  · have h1 : b.toNat / 16 < 16 := by have := b.toNat_lt; omega
    have h2 : b.toNat % 16 < 16 := Nat.mod_lt _ (by decide)
    have h3 : 16 * (b.toNat / 16) + b.toNat % 16 = b.toNat := Nat.div_add_mod _ _
    have h4 : UInt8.ofNat (16 * (b.toNat / 16) + b.toNat % 16) = b := by
      rw [h3, UInt8.ofNat_toNat]
    simp only [List.cons_append, List.nil_append, decode?, hexValue?_hexDigit _ h1,
      hexValue?_hexDigit _ h2, bind, Option.bind, h4]
    cases decode? rest <;> rfl

theorem decode?_encodeBytes (bytes : List UInt8) : decode? (encodeBytes bytes) = some bytes := by
  induction bytes with
  | nil => rfl
  | cons b bytes ih =>
    rw [encodeBytes] at ih ⊢
    rw [List.flatMap_cons, decode?_encodeByte, ih]
    rfl

end TripleLoom.Percent
