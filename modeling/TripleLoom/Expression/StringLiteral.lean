import TripleLoom.Numeric.Bounded
import TripleLoom.Term.Basic
import TripleLoom.Text.Ascii
import TripleLoom.Text.Search

/-!
# TripleLoom.Expression.StringLiteral — strings that may have a language

The string functions of expressions work on the text of a literal and keep its language tag.  Two
strings are compatible if the second has no tag or the tag of the first.  Positions count
characters from one.
-/

namespace TripleLoom

/-- A string, possibly with a language tag. -/
structure StringLiteral where
  text : List Char
  language : Option String
  deriving DecidableEq, Repr, Inhabited

namespace StringLiteral

/-- The literal of a string. -/
def toTerm (s : StringLiteral) : Term :=
  match s.language with
  | some language => .literal (.tagged (String.ofList s.text) language)
  | none => .ofText (String.ofList s.text)

/-- A string with another text in the same language. -/
def withText (s : StringLiteral) (text : List Char) : StringLiteral := { s with text := text }

/-- Whether the second string may be searched for in the first. -/
def isCompatible (s needle : StringLiteral) : Bool :=
  needle.language.isNone || s.language == needle.language

/-! ### Joining -/

/-- The language of a text made of parts in some languages: the one that all parts have. -/
def commonLanguage : List (Option String) → Option String
  | [] => none
  | first :: rest => if rest.all (· == first) then first else none

/-- Some strings one after the other. -/
def concat (parts : List StringLiteral) : StringLiteral :=
  ⟨parts.flatMap (·.text), commonLanguage (parts.map (·.language))⟩

/-! ### Cutting -/

/-- The characters from one position on and before another. The first character given has the
given position. -/
def slice (start : Int) (stop : Option Int) : Int → List Char → List Char
  | _, [] => []
  | position, c :: rest =>
    if start ≤ position ∧ stop.all (position < ·) then c :: slice start stop (position + 1) rest
    else slice start stop (position + 1) rest

/-- The part of a string from a position on, of a given length if there is one. Its end saturates. -/
def substring (s : StringLiteral) (start : Integer) (length : Option Integer) : StringLiteral :=
  s.withText (slice start.val (length.map fun length => (start.saturatingAdd length).val) 1 s.text)

/-- The part of a string before the first occurrence of a text, or the empty string without
language if the text does not occur. -/
def before (s : StringLiteral) (needle : List Char) : StringLiteral :=
  match Text.cut? needle s.text with
  | some (before, _) => s.withText before
  | none => ⟨[], none⟩

/-- The part of a string behind the first occurrence of a text, or the empty string without
language if the text does not occur. -/
def after (s : StringLiteral) (needle : List Char) : StringLiteral :=
  match Text.cut? needle s.text with
  | some (_, after) => s.withText after
  | none => ⟨[], none⟩

end StringLiteral

/-- Whether a language tag lies in a range: the range is a star and the tag is not empty, or the
tag begins with the subtags of the range. -/
def languageMatches (tag range : String) : Bool :=
  if range = "*" then !tag.isEmpty
  else
    let tag := (Text.lowerAscii tag).toList
    let range := (Text.lowerAscii range).toList
    match range.isPrefixOf? tag with
    | some rest => rest.isEmpty || rest.head? == some '-'
    | none => false

end TripleLoom
