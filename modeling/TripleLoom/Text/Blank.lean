/-!
# TripleLoom.Text.Blank — white space

The characters of Unicode's property `White_Space`, and texts without them at their ends.
-/

namespace TripleLoom.Text

/-- Whether a character has the property `White_Space`. -/
def isBlank (c : Char) : Bool :=
  (0x09 ≤ c.toNat && c.toNat ≤ 0x0D) || c.toNat == 0x20 || c.toNat == 0x85 || c.toNat == 0xA0 ||
    c.toNat == 0x1680 || (0x2000 ≤ c.toNat && c.toNat ≤ 0x200A) || c.toNat == 0x2028 ||
    c.toNat == 0x2029 || c.toNat == 0x202F || c.toNat == 0x205F || c.toNat == 0x3000

/-- A text without white space at its beginning. -/
def dropBlanks (s : List Char) : List Char := s.dropWhile isBlank

/-- A text without white space at either end. -/
def trim (s : String) : String :=
  String.ofList (dropBlanks (dropBlanks s.toList).reverse).reverse

end TripleLoom.Text
