import TripleLoom.Numeric.Binary

/-!
# TripleLoom.Numeric.Shortest — the fewest digits that read back

A finite binary number is written with the fewest decimal digits that read back to it.  The reals
that round to the number form an interval around it, whose ends belong to it if the number is
even.  The text is a point of the coarsest decimal grid that meets the interval: of the two
neighbours of the number on that grid the nearer one that lies in the interval, and of two equally
near ones the upper.  It is written without an exponent.
-/

namespace TripleLoom

namespace Shortest

/-- A number and the interval of the reals that round to it, all as multiples of one unit. The
unit is the ratio of two powers of two. -/
structure Rounding where
  low : Nat
  value : Nat
  high : Nat
  /-- Whether the two ends of the interval belong to it. -/
  closed : Bool
  unitNum : Nat
  unitDen : Nat
  deriving Repr

/-- The interval of the finite number `m * 2 ^ q` of a format, in quarters of its last place.
Below a power of two the neighbours are half as far apart as above it. -/
def Rounding.of (f : BinaryFormat) (m : Nat) (q : Int) : Rounding where
  low := if m = pow2 f.fractionBits ∧ f.minExponent < q then 4 * m - 1 else 4 * m - 2
  value := 4 * m
  high := 4 * m + 2
  closed := m % 2 = 0
  unitNum := pow2 (q - 2).toNat
  unitDen := pow2 (2 - q).toNat

/-- A point `d * 10 ^ k` of the grid of step `10 ^ k`. -/
structure Point where
  digits : Nat
  exponent : Int
  deriving DecidableEq, Repr

namespace Rounding

variable (r : Rounding)

/-- The unit over the step of a grid, as a ratio. -/
def perStep (k : Int) : Nat × Nat :=
  (r.unitNum * pow10 (-k).toNat, r.unitDen * pow10 k.toNat)

/-- Whether a point lies in the interval. -/
def contains (p : Point) : Bool :=
  let (num, den) := r.perStep p.exponent
  let point := p.digits * den
  if r.closed then r.low * num ≤ point ∧ point ≤ r.high * num
  else r.low * num < point ∧ point < r.high * num

/-- The point of a grid that stands for the number, if one of the two neighbours does. -/
def onGrid? (k : Int) : Option Point :=
  let (num, den) := r.perStep k
  let d := r.value * num / den
  let below : Point := ⟨d, k⟩
  let above : Point := ⟨d + 1, k⟩
  match r.contains below, r.contains above with
  | true, true => some (if 2 * (r.value * num) < (2 * d + 1) * den then below else above)
  | true, false => some below
  | false, true => some above
  | false, false => none

/-- The first hit on the grids from step `10 ^ k` downwards. -/
def search : Nat → Int → Option Point
  | 0, _ => none
  | grids + 1, k => (r.onGrid? k).orElse fun _ => search grids (k - 1)

end Rounding

/-- A grid with a step above the finite number `m * 2 ^ q`. -/
def coarse (m : Nat) (q : Int) : Int := (Nat.log2 m + q) * 1233 / 4096 + 2

/-- The digits of a positive finite number of a format. Twenty-five grids from a step above the
number cover the seventeen digits that always suffice. -/
def ofFinite (f : BinaryFormat) (m : Nat) (q : Int) : Point :=
  ((Rounding.of f m q).search 25 (coarse m q)).getD ⟨0, 0⟩

/-- The text of a point, without an exponent. -/
def Point.display (p : Point) : List Char :=
  let digits := Nat.toDigits 10 p.digits
  if 0 ≤ p.exponent then digits ++ List.replicate p.exponent.toNat '0'
  else
    let fraction := (-p.exponent).toNat
    let padded := digits.leftpad (fraction + 1) '0'
    padded.take (padded.length - fraction) ++ '.' :: padded.drop (padded.length - fraction)

end Shortest

/-- The text of a pattern: the names of infinity and "not a number", or the fewest digits. -/
def BinaryFormat.display (f : BinaryFormat) (pattern : Nat) : String :=
  let negative := f.signBit ≤ pattern
  let size := pattern % f.signBit
  if f.infinity < size then "NaN"
  else
    let text :=
      if size = f.infinity then ['I', 'N', 'F']
      else if size = 0 then ['0']
      else
        let (m, q) := f.unpack size
        (Shortest.ofFinite f m q).display
    String.ofList (if negative then '-' :: text else text)

end TripleLoom
