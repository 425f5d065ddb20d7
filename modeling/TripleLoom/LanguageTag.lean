import TripleLoom.Text.Ascii
import TripleLoom.Text.Search

/-!
# TripleLoom.LanguageTag — well-formed language tags

A language tag is one of a few registered tags of an older form, a tag for private use, or a list
of subtags in the order that RFC 5646 lays down: the language and up to three extensions of it, a
script, a region, variants, extensions behind their single letters, and subtags for private use
behind an `x`.  Case makes no difference.
-/

namespace TripleLoom.LanguageTag

/-- The registered tags of the older form, in small letters. -/
def registered : List String :=
  ["art-lojban", "cel-gaulish", "en-gb-oed", "i-ami", "i-bnn", "i-default", "i-enochian", "i-hak",
    "i-klingon", "i-lux", "i-mingo", "i-navajo", "i-pwn", "i-tao", "i-tay", "i-tsu", "no-bok",
    "no-nyn", "sgn-be-fr", "sgn-be-nl", "sgn-ch-de", "zh-guoyu", "zh-hakka", "zh-min",
    "zh-min-nan", "zh-xiang"]

/-- A subtag. -/
abbrev Subtag := List Char

/-- Whether a subtag has letters alone. -/
def isAlpha (s : Subtag) : Bool := s.all Char.isAlpha

/-- Whether a subtag has letters and digits alone. -/
def isAlphanumeric (s : Subtag) : Bool := s.all Char.isAlphanum

/-- Whether a subtag is a script: four letters. -/
def isScript (s : Subtag) : Bool := s.length == 4 && isAlpha s

/-- Whether a subtag is a region: two letters or three digits. -/
def isRegion (s : Subtag) : Bool :=
  (s.length == 2 && isAlpha s) || (s.length == 3 && s.all Char.isDigit)

/-- Whether a subtag is a variant: five letters and digits that begin with a letter, or four that
begin with a digit. -/
def isVariant (s : Subtag) : Bool :=
  isAlphanumeric s && (if s.head?.any Char.isAlpha then 5 ≤ s.length else 4 ≤ s.length)

/-- Whether some subtags end a tag for private use: there is one, and each is in place. -/
def arePrivate (subtags : List Subtag) : Bool := !subtags.isEmpty && subtags.all isAlphanumeric

/-- Whether some subtags end a tag whose extension has or has not a subtag yet. -/
def areExtensions (hasSubtag : Bool) : List Subtag → Bool
  | [] => hasSubtag
  | s :: rest =>
    if s.length = 1 then
      hasSubtag && (if s = ['x'] then arePrivate rest
        else isAlphanumeric s && areExtensions false rest)
    else isAlphanumeric s && areExtensions true rest

/-- Where in a tag the next subtag stands. -/
inductive Place where
  /-- Behind the language, which has had the given number of extensions. -/
  | language (extensions : Nat)
  | script
  | region
  deriving DecidableEq, Repr

/-- Whether some subtags end a tag from a place on. -/
def endsFrom (place : Place) : List Subtag → Bool
  | [] => true
  | s :: rest =>
    if s.length = 1 then
      if s = ['x'] then arePrivate rest else isAlphanumeric s && areExtensions false rest
    else
      match place with
      | .language n =>
        if n < 3 ∧ s.length = 3 ∧ isAlpha s then endsFrom (.language (n + 1)) rest
        else if isScript s then endsFrom .script rest
        else if isRegion s then endsFrom .region rest
        else isVariant s && endsFrom .region rest
      | .script =>
        if isRegion s then endsFrom .region rest else isVariant s && endsFrom .region rest
      | .region => isVariant s && endsFrom .region rest

/-- Whether a list of subtags in small letters makes up a tag. -/
def isOrdered : List Subtag → Bool
  | [] => false
  | language :: rest =>
    if language = ['x'] then arePrivate rest
    else
      2 ≤ language.length && isAlpha language &&
        endsFrom (.language (if language.length < 4 then 0 else 3)) rest

/-- Whether a tag in small letters is well-formed. -/
def isLowerWellFormed (tag : List Char) : Bool :=
  let subtags := Text.pieces ['-'] tag
  subtags.all (fun s => !s.isEmpty && s.length ≤ 8) && isOrdered subtags

/-- Whether a tag is well-formed. -/
def isWellFormed (tag : String) : Bool :=
  registered.contains (Text.lowerAscii tag) || isLowerWellFormed (Text.lowerAscii tag).toList

end TripleLoom.LanguageTag
