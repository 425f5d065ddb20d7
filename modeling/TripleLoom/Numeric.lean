import TripleLoom.Numeric.Decimal
import TripleLoom.Numeric.Scientific
import TripleLoom.Numeric.Shortest
import TripleLoom.Term.Basic

/-!
# TripleLoom.Numeric — the numbers of expressions

A number is an integer, a decimal, a float or a double.  An operation on two numbers first brings
both to the later of their two kinds in that order.  Integers and decimals are computed exactly and
have no result outside their range; floats and doubles follow binary floating-point arithmetic.
-/

namespace TripleLoom

/-- A number of one of the four numeric kinds. -/
inductive Numeric where
  | integer (value : Integer)
  | decimal (value : Decimal)
  | float (value : Float32)
  | double (value : Float)

/-- Two numbers of one kind. -/
inductive NumericPair where
  | integer (left right : Integer)
  | decimal (left right : Decimal)
  | float (left right : Float32)
  | double (left right : Float)

/-! ### Conversions between the kinds -/

namespace Integer

/-- The float nearest to an integer. -/
def toSingle (n : Integer) : Float32 := .ofBits (.ofNat (BinaryFormat.single.ofInt n.val))

/-- The double nearest to an integer. -/
def toDouble (n : Integer) : Float := .ofBits (.ofNat (BinaryFormat.double.ofInt n.val))

end Integer

namespace Decimal

/-- The double of a decimal: the quotient of two doubles, the coefficient without its trailing
zeros and the power of ten that is left of one. -/
def toDouble (a : Decimal) : Float :=
  let (number, zeros) := dropZeros places a.coefficient.val
  Float.ofBits (.ofNat (BinaryFormat.double.ofInt number)) /
    Float.ofBits (.ofNat (BinaryFormat.double.ofInt (pow10 (places - zeros))))

/-- The float of a decimal, by way of its double. -/
def toSingle (a : Decimal) : Float32 := a.toDouble.toFloat32

end Decimal

namespace Numeric

/-- A number as a double. -/
def toDouble : Numeric → Float
  | .integer n => n.toDouble
  | .decimal n => n.toDouble
  | .float n => n.toFloat
  | .double n => n

/-- Two numbers brought to the later of their kinds. -/
def promote : Numeric → Numeric → NumericPair
  | .integer a, .integer b => .integer a b
  | .integer a, .decimal b => .decimal (.ofInteger a) b
  | .decimal a, .integer b => .decimal a (.ofInteger b)
  | .decimal a, .decimal b => .decimal a b
  | .integer a, .float b => .float a.toSingle b
  | .float a, .integer b => .float a b.toSingle
  | .decimal a, .float b => .float a.toSingle b
  | .float a, .decimal b => .float a b.toSingle
  | .float a, .float b => .float a b
  | a, b => .double a.toDouble b.toDouble

/-! ### Arithmetic -/

/-- The sum. -/
def add? (a b : Numeric) : Option Numeric :=
  match promote a b with
  | .integer a b => (a.add? b).map .integer
  | .decimal a b => (a.add? b).map .decimal
  | .float a b => some (.float (a + b))
  | .double a b => some (.double (a + b))

/-- The difference. -/
def sub? (a b : Numeric) : Option Numeric :=
  match promote a b with
  | .integer a b => (a.sub? b).map .integer
  | .decimal a b => (a.sub? b).map .decimal
  | .float a b => some (.float (a - b))
  | .double a b => some (.double (a - b))

/-- The product. -/
def mul? (a b : Numeric) : Option Numeric :=
  match promote a b with
  | .integer a b => (a.mul? b).map .integer
  | .decimal a b => (a.mul? b).map .decimal
  | .float a b => some (.float (a * b))
  | .double a b => some (.double (a * b))

/-- The quotient; that of two integers is a decimal. -/
def div? (a b : Numeric) : Option Numeric :=
  match promote a b with
  | .integer a b => ((Decimal.ofInteger a).div? (.ofInteger b)).map .decimal
  | .decimal a b => (a.div? b).map .decimal
  | .float a b => some (.float (a / b))
  | .double a b => some (.double (a / b))

/-- The negation. -/
def neg? : Numeric → Option Numeric
  | .integer a => a.neg?.map .integer
  | .decimal a => a.neg?.map .decimal
  | .float a => some (.float (-a))
  | .double a => some (.double (-a))

/-- The absolute value. -/
def abs? : Numeric → Option Numeric
  | .integer a => a.abs?.map .integer
  | .decimal a => a.abs?.map .decimal
  | .float a => some (.float a.abs)
  | .double a => some (.double a.abs)

/-- The number rounded up to an integer. -/
def ceil? : Numeric → Option Numeric
  | .integer a => some (.integer a)
  | .decimal a => a.ceil?.map .decimal
  | .float a => some (.float a.ceil)
  | .double a => some (.double a.ceil)

/-- The number rounded down to an integer. -/
def floor? : Numeric → Option Numeric
  | .integer a => some (.integer a)
  | .decimal a => a.floor?.map .decimal
  | .float a => some (.float a.floor)
  | .double a => some (.double a.floor)

/-- The integer nearest to a float, upwards from half-way. -/
def roundSingle (a : Float32) : Float32 := if a.round - a == -0.5 then a.ceil else a.round

/-- The integer nearest to a double, upwards from half-way. -/
def roundDouble (a : Float) : Float := if a.round - a == -0.5 then a.ceil else a.round

/-- The number rounded to a nearest integer. -/
def round? : Numeric → Option Numeric
  | .integer a => some (.integer a)
  | .decimal a => a.round?.map .decimal
  | .float a => some (.float (roundSingle a))
  | .double a => some (.double (roundDouble a))

/-! ### Comparison -/

/-- The order of two floats; "not a number" is in no order. -/
def compareSingle (a b : Float32) : Option Ordering :=
  if a < b then some .lt else if a == b then some .eq else if b < a then some .gt else none

/-- The order of two doubles; "not a number" is in no order. -/
def compareDouble (a b : Float) : Option Ordering :=
  if a < b then some .lt else if a == b then some .eq else if b < a then some .gt else none

/-- The order of two numbers after promotion. -/
def compare (a b : Numeric) : Option Ordering :=
  match promote a b with
  | .integer a b => some (a.compare b)
  | .decimal a b => some (a.compare b)
  | .float a b => compareSingle a b
  | .double a b => compareDouble a b

/-- Whether two numbers are of one kind and equal as such. -/
def same : Numeric → Numeric → Bool
  | .integer a, .integer b => a == b
  | .decimal a, .decimal b => a == b
  | .float a, .float b => a == b
  | .double a, .double b => a == b
  | _, _ => false

/-- Whether a number counts as true: it is neither zero nor "not a number". -/
def isTruthy : Numeric → Bool
  | .integer a => a.val ≠ 0
  | .decimal a => a.coefficient.val ≠ 0
  | .float a => a != 0 && !a.isNaN
  | .double a => a != 0 && !a.isNaN

/-! ### Literals -/

/-- The local names of `xsd:integer` and the datatypes derived from it. -/
def integerNames : List String :=
  ["integer", "byte", "short", "int", "long", "unsignedByte", "unsignedShort", "unsignedInt",
    "unsignedLong", "positiveInteger", "negativeInteger", "nonPositiveInteger",
    "nonNegativeInteger"]

/-- Whether a datatype is `xsd:integer` or derived from it. -/
def isIntegerDatatype (datatype : Iri) : Bool := integerNames.any (Iri.xsd · == datatype)

/-- Whether the literals of a datatype are numbers. -/
def isNumericDatatype (datatype : Iri) : Bool :=
  isIntegerDatatype datatype || ["decimal", "float", "double"].any (Iri.xsd · == datatype)

/-- The number that a lexical form of a datatype denotes: `none` if the datatype is not numeric,
and no number inside if the lexical form is invalid. -/
def read? (datatype : Iri) (value : String) : Option (Option Numeric) :=
  if isIntegerDatatype datatype then some ((Integer.read? value).map .integer)
  else if datatype = Iri.xsd "decimal" then some ((Decimal.read? value).map .decimal)
  else if datatype = Iri.xsd "float" then
    some ((BinaryFormat.single.read? value).map fun bits => .float (.ofBits (.ofNat bits)))
  else if datatype = Iri.xsd "double" then
    some ((BinaryFormat.double.read? value).map fun bits => .double (.ofBits (.ofNat bits)))
  else none

/-- The number that a literal denotes, read as `Numeric.read?` does. -/
def ofLiteral? (l : Literal) : Option (Option Numeric) := read? l.datatype l.value

/-- The datatype of the canonical literal. -/
def datatype : Numeric → Iri
  | .integer _ => Iri.xsd "integer"
  | .decimal _ => Iri.xsd "decimal"
  | .float _ => Iri.xsd "float"
  | .double _ => Iri.xsd "double"

/-- The canonical lexical form. -/
def display : Numeric → String
  | .integer a => a.display
  | .decimal a => a.display
  | .float a => BinaryFormat.single.display a.toBits.toNat
  | .double a => BinaryFormat.double.display a.toBits.toNat

/-- The canonical literal. -/
def toLiteral (n : Numeric) : Literal := .typed n.display n.datatype

end Numeric

end TripleLoom
