import TripleLoom.Text.CaseTable

/-!
# TripleLoom.Text.Case — upper and lower case

The full case mappings of Unicode, which depend on no language.  A character may have several
characters as its upper case, and a capital sigma at the end of a word has a small letter of its
own.
-/

namespace TripleLoom.Text

/-- The character that a row maps a character to, if the row covers it. -/
def CaseRow.map? (row : CaseRow) (c : Char) : Option Char :=
  if row.first ≤ c.toNat ∧ c.toNat ≤ row.last ∧ (c.toNat - row.first) % row.step = 0 then
    some (Char.ofNat (c.toNat + row.offset).toNat)
  else none

/-- The upper case of a character. -/
def upperChar (c : Char) : List Char :=
  match upperExpansions.lookup c.toNat with
  | some codes => codes.map Char.ofNat
  | none => [(upperRows.findSome? (·.map? c)).getD c]

/-- The lower case of a character outside of any context. -/
def lowerChar (c : Char) : List Char :=
  if c.toNat = 0x130 then ['i', Char.ofNat 0x307] else [(lowerRows.findSome? (·.map? c)).getD c]

/-- Whether a character lies in one of some ranges. -/
def inRanges (ranges : List (Nat × Nat)) (c : Char) : Bool :=
  ranges.any fun (first, last) => first ≤ c.toNat && c.toNat ≤ last

/-- Whether the first character of a text that is not ignorable has case. -/
def startsCased (s : List Char) : Bool :=
  ((s.dropWhile (inRanges ignorableRanges)).head?).any (inRanges casedRanges)

/-- The capital sigma. -/
def capitalSigma : Char := Char.ofNat 0x3A3

/-- The small sigma between the letters before it, in reverse, and those behind it: the final form
at the end of a word. -/
def smallSigma (before after : List Char) : Char :=
  if startsCased before && !startsCased after then Char.ofNat 0x3C2 else Char.ofNat 0x3C3

/-- The lower case of a text behind another one, which is given in reverse. -/
def lowerBehind (before : List Char) : List Char → List Char
  | [] => []
  | c :: rest =>
    (if c = capitalSigma then [smallSigma before rest] else lowerChar c) ++
      lowerBehind (c :: before) rest

/-- A text in upper case. -/
def toUpper (s : List Char) : List Char := s.flatMap upperChar

/-- A text in lower case. -/
def toLower (s : List Char) : List Char := lowerBehind [] s

end TripleLoom.Text
