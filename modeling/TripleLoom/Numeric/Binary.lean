import TripleLoom.Numeric.Bounded

/-!
# TripleLoom.Numeric.Binary — binary floating-point numbers in exact arithmetic

A binary format lays out a non-negative number as a bit pattern: the patterns below that of
infinity are the multiples `m * 2 ^ q` that the format holds, in ascending order.  This module
reads a pattern back as its multiple and rounds a ratio of natural numbers to the nearest pattern
(of two equally near ones the even one), all in exact arithmetic, so that both formats in use
share one rule.
-/

namespace TripleLoom

/-- A binary interchange format, by the widths of its two fields. -/
structure BinaryFormat where
  fractionBits : Nat
  exponentBits : Nat
  deriving DecidableEq, Repr

namespace BinaryFormat

/-- The format of `xsd:float`. -/
def single : BinaryFormat := ⟨23, 8⟩

/-- The format of `xsd:double`. -/
def double : BinaryFormat := ⟨52, 11⟩

variable (f : BinaryFormat)

/-- The exponent of the last place of the smallest numbers. -/
def minExponent : Int := 2 - pow2 (f.exponentBits - 1) - f.fractionBits

/-- The pattern of infinity. -/
def infinity : Nat := (pow2 f.exponentBits - 1) * pow2 f.fractionBits

/-- The pattern of "not a number". -/
def notANumber : Nat := f.infinity + pow2 (f.fractionBits - 1)

/-- The bit that marks a negative number. -/
def signBit : Nat := pow2 (f.fractionBits + f.exponentBits)

/-- The `m` and `q` of the number `m * 2 ^ q` that a pattern below infinity stands for. -/
def unpack (pattern : Nat) : Nat × Int :=
  let e := pattern / pow2 f.fractionBits
  if e = 0 then (pattern, f.minExponent)
  else (pow2 f.fractionBits + pattern % pow2 f.fractionBits, f.minExponent + (e - 1))

/-! ### Rounding -/

/-- The quotient rounded to the nearest integer, a tie to the even one. -/
def divToEven (num den : Nat) : Nat :=
  let q := num / den
  let r := num % den
  if 2 * r < den ∨ (2 * r = den ∧ q % 2 = 0) then q else q + 1

/-- The greatest `k` with `2 ^ k ≤ num / den`, for a positive ratio. -/
def floorLog2 (num den : Nat) : Int :=
  let k : Int := (Nat.log2 num : Int) - Nat.log2 den
  if den * pow2 k.toNat ≤ num * pow2 (-k).toNat then k else k - 1

/-- The pattern nearest to the ratio of two numbers. -/
def nearest (num den : Nat) : Nat :=
  if num = 0 then 0
  else
    let q := max f.minExponent (floorLog2 num den - f.fractionBits)
    let m := divToEven (num * pow2 (-q).toNat) (den * pow2 q.toNat)
    min f.infinity ((q - f.minExponent).toNat * pow2 f.fractionBits + m)

/-- The pattern nearest to an integer, with its sign. -/
def ofInt (n : Int) : Nat := (if n < 0 then f.signBit else 0) + f.nearest n.natAbs 1

end BinaryFormat

end TripleLoom
