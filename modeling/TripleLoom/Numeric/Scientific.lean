import TripleLoom.Numeric.Binary

/-!
# TripleLoom.Numeric.Scientific — reading binary numbers from decimal numerals

A numeral is a sign, digits with a point among, before or behind them, and possibly an exponent;
or it is one of the names of infinity and of "not a number", in any case of letters.  It denotes
the number of the format nearest to its value.
-/

namespace TripleLoom

/-- An unsigned decimal numeral: the number its digits form and the power of ten to multiply
it by. -/
structure Scientific where
  digits : Nat
  exponent : Int
  deriving DecidableEq, Repr

namespace Scientific

/-- The exponent part of a numeral: nothing, or the letter and a signed run of digits. -/
def readExponent? : List Char → Option Int
  | [] => some 0
  | c :: rest => if c = 'e' ∨ c = 'E' then readInteger? rest else none

/-- The numeral that a text spells. -/
def read? (s : List Char) : Option Scientific := do
  let whole := s.takeWhile Char.isDigit
  let (fraction, rest) := match s.dropWhile Char.isDigit with
    | '.' :: rest => (rest.takeWhile Char.isDigit, rest.dropWhile Char.isDigit)
    | rest => ([], rest)
  if whole.isEmpty ∧ fraction.isEmpty then none
  let exponent ← readExponent? rest
  return ⟨Nat.ofDigitChars 10 (whole ++ fraction) 0, exponent - fraction.length⟩

/-- Beyond this power of ten every number of the formats in use is infinite, and below its
inverse zero. -/
def horizon : Int := 400

/-- The pattern nearest to a numeral. -/
def toBinary (f : BinaryFormat) (x : Scientific) : Nat :=
  let magnitude := x.exponent + (Nat.toDigits 10 x.digits).length
  if x.digits = 0 ∨ magnitude < -horizon then 0
  else if horizon < magnitude then f.infinity
  else f.nearest (x.digits * pow10 x.exponent.toNat) (pow10 (-x.exponent).toNat)

end Scientific

/-- The pattern that a lexical form denotes in a format. -/
def BinaryFormat.read? (f : BinaryFormat) (s : String) : Option Nat := do
  let (negative, rest) := splitSign s.toList
  let pattern ← match String.ofList (rest.map Char.toLower) with
    | "inf" | "infinity" => some f.infinity
    | "nan" => some f.notANumber
    | _ => (Scientific.read? rest).map (Scientific.toBinary f)
  return if negative then pattern + f.signBit else pattern

end TripleLoom
