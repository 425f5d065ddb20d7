import TripleLoom.Numeric.Power

/-!
# TripleLoom.Numeric.Bounded — integers that fit a signed word

`Bounded bits` holds the integers from `-2^(bits-1)` up to `2^(bits-1) - 1`.  Every operation is
the operation on unbounded integers followed by a test of the range, so none of them wraps.
`ofInt?_eq_some_iff` says what the test does, and each operation follows from it.  Only the
saturating sum stays in the range by stopping at its bounds.
-/

namespace TripleLoom

/-- An integer in the range of a signed word. -/
structure Bounded (bits : Nat) where
  val : Int
  lower : -(pow2 (bits - 1) : Int) ≤ val
  upper : val < (pow2 (bits - 1) : Int)
  deriving DecidableEq, Repr

namespace Bounded

variable {bits : Nat}

/-- Whether an integer is in the range. -/
def Fits (bits : Nat) (n : Int) : Prop :=
  -(pow2 (bits - 1) : Int) ≤ n ∧ n < (pow2 (bits - 1) : Int)

instance (n : Int) : Decidable (Fits bits n) := inferInstanceAs (Decidable (_ ∧ _))

/-- The bounded integer of a value, if it is in the range. -/
def ofInt? (n : Int) : Option (Bounded bits) :=
  if h : Fits bits n then some ⟨n, h.1, h.2⟩ else none

theorem ext_val {a b : Bounded bits} (h : a.val = b.val) : a = b := by
  cases a; cases b; simp_all

@[simp] theorem ofInt?_val (a : Bounded bits) : ofInt? a.val = some a := by
  unfold ofInt?
  rw [dif_pos ⟨a.lower, a.upper⟩]

theorem ofInt?_eq_some_iff {n : Int} {a : Bounded bits} : ofInt? n = some a ↔ a.val = n := by
  constructor
  · intro h
    unfold ofInt? at h
    split at h
    · cases h; rfl
    · cases h
  · rintro rfl
    exact ofInt?_val a

theorem ofInt?_eq_none_iff {n : Int} :
    (ofInt? n : Option (Bounded bits)) = none ↔ ¬ Fits bits n := by
  unfold ofInt?
  split <;> simp_all

/-- Zero. -/
def zero : Bounded bits :=
  ⟨0, by have := pow2_pos (bits - 1); omega, by have := pow2_pos (bits - 1); omega⟩

instance : Inhabited (Bounded bits) := ⟨zero⟩

/-- The sum, if it is in the range. -/
def add? (a b : Bounded bits) : Option (Bounded bits) := ofInt? (a.val + b.val)

/-- The difference, if it is in the range. -/
def sub? (a b : Bounded bits) : Option (Bounded bits) := ofInt? (a.val - b.val)

/-- The product, if it is in the range. -/
def mul? (a b : Bounded bits) : Option (Bounded bits) := ofInt? (a.val * b.val)

/-- The negation, if it is in the range. -/
def neg? (a : Bounded bits) : Option (Bounded bits) := ofInt? (-a.val)

/-- The absolute value, if it is in the range. -/
def abs? (a : Bounded bits) : Option (Bounded bits) := ofInt? a.val.natAbs

/-- The integer of the range that is nearest to an integer. -/
def clamp (n : Int) : Bounded bits :=
  ⟨max (-(pow2 (bits - 1) : Int)) (min n (pow2 (bits - 1) - 1)), by omega,
    by have := pow2_pos (bits - 1); omega⟩

/-- The sum, or the bound of the range that it is beyond. -/
def saturatingAdd (a b : Bounded bits) : Bounded bits := clamp (a.val + b.val)

/-- The order of the values. -/
def compare (a b : Bounded bits) : Ordering := Ord.compare a.val b.val

end Bounded

/-! ### Signed numerals -/

/-- Splits an optional sign off a text; the sign is `true` for a minus. -/
def splitSign : List Char → Bool × List Char
  | '+' :: rest => (false, rest)
  | '-' :: rest => (true, rest)
  | rest => (false, rest)

/-- The integer with the given sign and absolute value. -/
def signed (negative : Bool) (n : Nat) : Int := if negative then -n else n

/-- Whether all characters of a text are ASCII digits and there is one. -/
def isDigits (s : List Char) : Bool := !s.isEmpty && s.all Char.isDigit

/-- The integer that a text of an optional sign and at least one digit denotes. -/
def readInteger? (s : List Char) : Option Int :=
  let (negative, digits) := splitSign s
  if isDigits digits then some (signed negative (Nat.ofDigitChars 10 digits 0)) else none

/-- The digits of an integer behind a minus if it is negative. -/
def showInteger (n : Int) : List Char :=
  if n < 0 then '-' :: Nat.toDigits 10 n.natAbs else Nat.toDigits 10 n.natAbs

/-! ### Integers -/

/-- The values of `xsd:integer`: the integers of a 64-bit word. -/
abbrev Integer := Bounded 64

namespace Integer

/-- The integer that a lexical form denotes, if it is well-formed and in the range. -/
def read? (s : String) : Option Integer := readInteger? s.toList >>= Bounded.ofInt?

/-- The canonical lexical form. -/
def display (n : Integer) : String := String.ofList (showInteger n.val)

end Integer

end TripleLoom
