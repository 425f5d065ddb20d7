/-!
# TripleLoom.Numeric.Power — powers of two and of ten

The sizes of words, the places of decimals and the steps of binary numbers are powers of these two
bases.
-/

namespace TripleLoom

/-- The power of two with an exponent. -/
def pow2 (exponent : Nat) : Nat := Nat.pow 2 exponent

/-- The power of ten with an exponent. -/
def pow10 (exponent : Nat) : Nat := Nat.pow 10 exponent

theorem pow2_pos (exponent : Nat) : 0 < pow2 exponent := Nat.pow_pos (by decide)

end TripleLoom
