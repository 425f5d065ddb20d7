/-!
# TripleLoom.Text.Ascii — texts told apart without regard to case

Names in protocols and tags compare by their letters alone, and these are ASCII letters.
-/

namespace TripleLoom.Text

/-- A text with its ASCII capitals made small. -/
def lowerAscii (s : String) : String := String.ofList (s.toList.map Char.toLower)

end TripleLoom.Text
