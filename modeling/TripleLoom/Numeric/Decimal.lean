import TripleLoom.Numeric.Bounded

/-!
# TripleLoom.Numeric.Decimal — decimals with eighteen places

A decimal is a 128-bit coefficient counting units of `10 ^ -18`.  Sums and differences are those
of the coefficients.  A product exists if it has no more than eighteen places and is in the range.
A quotient is formed from a dividend that is first moved as far to the left as the range allows; it
is cut off after the last place, toward zero.
-/

namespace TripleLoom

/-- A decimal number, as its multiple of `10 ^ -18`. -/
structure Decimal where
  coefficient : Bounded 128
  deriving DecidableEq, Repr, Inhabited

namespace Decimal

/-- The number of places behind the point. -/
def places : Nat := 18

/-- The coefficient of one. -/
def unit : Int := pow10 places

/-- The decimal of a coefficient, if it is in the range. -/
def ofCoefficient? (n : Int) : Option Decimal := (Bounded.ofInt? n).map Decimal.mk

/-- The decimal of zero. -/
def zero : Decimal := ⟨Bounded.zero⟩

theorem fits_mul_unit (n : Integer) : Bounded.Fits 128 (n.val * unit) := by
  have hl := n.lower
  have hu := n.upper
  have h63 : pow2 (64 - 1) = 9223372036854775808 := by decide
  have h127 : pow2 (128 - 1) = 170141183460469231731687303715884105728 := by decide
  have h18 : unit = 1000000000000000000 := by decide
  rw [h63] at hl hu
  unfold Bounded.Fits
  rw [h127, h18]
  constructor <;> omega

/-- An integer as a decimal: every one has a coefficient in the range. -/
def ofInteger (n : Integer) : Decimal :=
  ⟨⟨n.val * unit, (fits_mul_unit n).1, (fits_mul_unit n).2⟩⟩

/-! ### Arithmetic -/

/-- The sum, if it is in the range. -/
def add? (a b : Decimal) : Option Decimal := (a.coefficient.add? b.coefficient).map Decimal.mk

/-- The difference, if it is in the range. -/
def sub? (a b : Decimal) : Option Decimal := (a.coefficient.sub? b.coefficient).map Decimal.mk

/-- The negation, if it is in the range. -/
def neg? (a : Decimal) : Option Decimal := a.coefficient.neg?.map Decimal.mk

/-- The absolute value, if it is in the range. -/
def abs? (a : Decimal) : Option Decimal := a.coefficient.abs?.map Decimal.mk

/-- The order of the values. -/
def compare (a b : Decimal) : Ordering := a.coefficient.compare b.coefficient

/-- A number without its trailing decimal zeros, and how many there were; zero has none. The
bound is a number of zeros that suffices. -/
def dropZeros : Nat → Int → Int × Nat
  | 0, n => (n, 0)
  | bound + 1, n =>
    if n ≠ 0 ∧ n.tmod 10 = 0 then
      let (m, zeros) := dropZeros bound (n.tdiv 10)
      (m, zeros + 1)
    else (n, 0)

/-- A number multiplied by ten as often as the 128-bit range allows, and how often that was;
zero stays as it is. The bound is a number of steps that suffices. -/
def raise : Nat → Int → Int × Nat
  | 0, n => (n, 0)
  | bound + 1, n =>
    if n ≠ 0 ∧ Bounded.Fits 128 (n * 10) then
      let (m, steps) := raise bound (n * 10)
      (m, steps + 1)
    else (n, 0)

/-- A number in the 128-bit range has at most this many digits. -/
def maxDigits : Nat := 39

/-- The power of ten, if it is in the 128-bit range. -/
def power? (exponent : Nat) : Option Int :=
  if exponent < maxDigits then some (pow10 exponent) else none

/-- The excess of a number of places over the eighteen that a coefficient has. -/
def excess? (n : Nat) : Option Nat := if places ≤ n then some (n - places) else none

/-- The product, if eighteen places hold it and it is in the range. -/
def mul? (a b : Decimal) : Option Decimal :=
  let product := a.coefficient.val * b.coefficient.val
  if product.tmod unit = 0 then ofCoefficient? (product.tdiv unit) else none

/-- The quotient, cut off toward zero after the last place. -/
def div? (a b : Decimal) : Option Decimal := do
  let (left, leftSteps) := raise maxDigits a.coefficient.val
  let (right, rightZeros) := dropZeros maxDigits b.coefficient.val
  let shift ← excess? (leftSteps + rightZeros)
  if right = 0 then none
  let quotient : Bounded 128 ← Bounded.ofInt? (left.tdiv right)
  let scale ← power? shift
  ofCoefficient? (quotient.val.tdiv scale)

/-! ### Rounding to integers -/

/-- The decimal of an unbounded integer, if it is in the range. -/
def ofInt? (n : Int) : Option Decimal := ofCoefficient? (n * unit)

/-- The least integer that is not below the number. -/
def ceil? (a : Decimal) : Option Decimal :=
  let c := a.coefficient.val
  ofInt? (if 0 < c ∧ c.tmod unit ≠ 0 then c.tdiv unit + 1 else c.tdiv unit)

/-- The greatest integer that is not above the number. -/
def floor? (a : Decimal) : Option Decimal :=
  let c := a.coefficient.val
  ofInt? (if 0 ≤ c ∨ c.tmod unit = 0 then c.tdiv unit else c.tdiv unit - 1)

/-- The integer nearest to the number, upwards from half-way: the greatest one that is not above
the number and a half. -/
def round? (a : Decimal) : Option Decimal := ofInt? ((2 * a.coefficient.val + unit) / (2 * unit))

/-! ### Lexical forms -/

/-- A text without the zeros at its end. -/
def trimZeros (s : List Char) : List Char := (s.reverse.dropWhile (· == '0')).reverse

/-- The decimal of a sign, the digits before the point and those behind it. More than eighteen
places are too many, and so are digits whose number leaves the range on the way. -/
def ofDigits? (negative : Bool) (whole fraction : List Char) : Option Decimal :=
  if places < fraction.length then none
  else do
    let number : Bounded 128 ←
      Bounded.ofInt? (signed negative (Nat.ofDigitChars 10 (whole ++ fraction) 0))
    ofCoefficient? (number.val * pow10 (places - fraction.length))

/-- The decimal that a lexical form denotes: an optional sign, digits, and possibly a point with
more digits, at least one of the two runs of digits being there. -/
def read? (s : String) : Option Decimal :=
  let (negative, rest) := splitSign s.toList
  let whole := rest.takeWhile Char.isDigit
  match rest.dropWhile Char.isDigit with
  | [] => if whole.isEmpty then none else ofDigits? negative whole []
  | c :: fraction =>
    if c ≠ '.' ∨ (fraction.isEmpty ∧ whole.isEmpty) then none
    else
      let fraction := trimZeros fraction
      if fraction.all Char.isDigit then ofDigits? negative whole fraction else none

/-- The canonical lexical form: no point without a place behind it, no zero behind the last
place. -/
def display (a : Decimal) : String :=
  let c := a.coefficient.val
  let size := c.natAbs
  let sign := if c < 0 then ['-'] else []
  let whole := Nat.toDigits 10 (size / pow10 places)
  let fraction := trimZeros ((Nat.toDigits 10 (size % pow10 places)).leftpad places '0')
  let point := if fraction.isEmpty then [] else '.' :: fraction
  String.ofList (sign ++ whole ++ point)

end Decimal

end TripleLoom
