import TripleLoom.Term.Basic

/-!
# TripleLoom.Term.NTriples — the text of a term

Terms are written as in N-Triples: an IRI between angle brackets, a blank node after `_:`, a
literal between quotes with its language tag or datatype behind it.  Between the quotes stand no
quote, no lone backslash and no control character; everything else stands for itself.
-/

namespace TripleLoom

namespace NTriples

/-- The upper-case hexadecimal digit of a number below sixteen. -/
def hexDigit (n : Nat) : Char :=
  if n < 10 then Char.ofNat ('0'.toNat + n) else Char.ofNat ('A'.toNat + (n - 10))

/-- What stands between the quotes for one character. -/
def escapeChar (c : Char) : List Char :=
  if c = '\x08' then ['\\', 'b']
  else if c = '\t' then ['\\', 't']
  else if c = '\n' then ['\\', 'n']
  else if c = '\x0c' then ['\\', 'f']
  else if c = '\r' then ['\\', 'r']
  else if c = '"' then ['\\', '"']
  else if c = '\\' then ['\\', '\\']
  else if c.toNat < 0x20 ∨ c.toNat = 0x7f then
    ['\\', 'u', '0', '0', hexDigit (c.toNat / 16), hexDigit (c.toNat % 16)]
  else [c]

/-- The escaped form of a text. -/
def escape (s : List Char) : List Char := s.flatMap escapeChar

/-- A text between quotes. -/
def quote (s : String) : String := String.ofList ('"' :: escape s.toList ++ ['"'])

end NTriples

/-- The text of an IRI, between angle brackets. -/
def Iri.display (i : Iri) : String := "<" ++ i.text ++ ">"

/-- The text of a blank node, after `_:`. -/
def BlankNode.display (b : BlankNode) : String := "_:" ++ b.label

/-- The text of a variable, after its question mark. -/
def Variable.display (v : Variable) : String := "?" ++ v.name

/-- The text of a literal. -/
def Literal.display : Literal → String
  | .simple v => NTriples.quote v
  | .tagged v l => NTriples.quote v ++ "@" ++ l
  | .typed v d => NTriples.quote v ++ "^^" ++ d.display

/-- The text of a term. -/
def Term.display : Term → String
  | .iri i => i.display
  | .blank b => b.display
  | .literal l => l.display

/-- The text of an IRI or a variable. -/
def IriPattern.display : IriPattern → String
  | .iri i => i.display
  | .var v => v.display

/-- The line of a triple, with its line feed. -/
def Triple.line (t : Triple) : String :=
  t.subject.toTerm.display ++ " " ++ t.predicate.display ++ " " ++ t.object.display ++ " .\n"

end TripleLoom
