import TripleLoom.Algebra.Basic
import TripleLoom.Expression.StringLiteral
import TripleLoom.Iri.Resolve
import TripleLoom.LanguageTag
import TripleLoom.Scope
import TripleLoom.Text.Case
import TripleLoom.Text.Percent
import TripleLoom.Value

/-!
# TripleLoom.Expression.Builtin — the functions that SPARQL names

An expression evaluates to a term or fails, and it may make blank nodes in either case.  Functions
get their operands unevaluated and evaluate them from the left, each only if the ones before it are
of the right kind.  A function that is called with another number of operands, or that is not
given here, fails.
-/

namespace TripleLoom

/-- A computation that may fail and may make blank nodes, which stay made if it fails. -/
abbrev Eval (α : Type) := OptionT (StateM Scopes) α

namespace Eval

/-- The failing computation. -/
def fail {α : Type} : Eval α := OptionT.fail

/-- The computation of a value that may be absent. -/
def ofOption {α : Type} (value : Option α) : Eval α := OptionT.mk (pure value)

/-- A computation that does not fail. -/
def ofScopes {α : Type} (f : Scopes → α × Scopes) : Eval α := OptionT.lift f

/-- The outcome of a computation, a failure as nothing. -/
def attempt {α : Type} (e : Eval α) : Eval (Option α) := OptionT.lift e.run

variable (operand : Eval Term)

/-- The value of an operand. -/
def value : Eval Value := return .ofTerm (← operand)

/-- The truth value of an operand. -/
def condition : Eval Bool := do ofOption (← value operand).isTrue?

/-- The number that an operand is. -/
def numeric : Eval Numeric := do
  match ← value operand with
  | .numeric n => return n
  | _ => fail

/-- The integer that an operand is. -/
def integer : Eval Integer := do
  match ← numeric operand with
  | .integer n => return n
  | _ => fail

/-- The string that an operand is. -/
def string : Eval StringLiteral := do
  let v ← value operand
  return ⟨(← ofOption v.text?).toList, v.language?⟩

/-- The text of the string without language that an operand is. -/
def simple : Eval String := do
  match ← value operand with
  | .simple text => return text
  | _ => fail

/-- A numeric function of an operand. -/
def rounding (f : Numeric → Option Numeric) : Eval Term := do
  return .literal (← ofOption (f (← numeric operand))).toLiteral

/-- A test of an operand. -/
def test (f : Term → Bool) : Eval Term := return .ofBool (f (← operand))

/-- A function of two compatible strings. -/
def searching (haystack needle : Eval Term) (f : StringLiteral → List Char → Term) :
    Eval Term := do
  let haystack ← string haystack
  let needle ← string needle
  if haystack.isCompatible needle then return f haystack needle.text else fail

/-- Some computations one after the other, up to the first that fails. -/
def each {α β : Type} (f : α → Eval β) : List α → Eval (List β)
  | [] => return []
  | a :: rest => do return (← f a) :: (← each f rest)

end Eval

/-- The IRI that a text stands for: a reference if there is a base, or else an IRI. -/
def Iri.ofReference? (base : Option Iri) (text : String) : Option Iri :=
  match base with
  | some base => Iri.resolve? base text
  | none => Iri.ofText? text

namespace Term

/-- The text of an IRI or literal. -/
def text? : Term → Option String
  | .iri i => some i.text
  | .literal l => some l.value
  | .blank _ => none

/-- The language tag of a literal, empty if it has none. -/
def languageTag? : Term → Option String
  | .literal (.tagged _ language) => some language
  | .literal _ => some ""
  | _ => none

/-- Whether a term is an IRI. -/
def isIri (t : Term) : Bool := t.toIri?.isSome

/-- Whether a term is a blank node. -/
def isBlank : Term → Bool
  | .blank _ => true
  | _ => false

/-- Whether a term is a literal. -/
def isLiteral : Term → Bool
  | .literal _ => true
  | _ => false

/-- Whether a term is a literal that is read as a number. -/
def isNumeric (t : Term) : Bool :=
  match Value.ofTerm t with
  | .numeric _ => true
  | _ => false

end Term

/-- The term that `IRI` makes of a term. -/
def Term.asIri? (base : Option Iri) : Term → Option Term
  | .iri i => some (.iri i)
  | .literal l => (Iri.ofReference? base l.value).map .iri
  | .blank _ => none

/-- The literal that `STRDT` makes of a text. -/
def Term.withDatatype? (text : String) : Term → Option Term
  | .iri datatype => some (.literal (.withDatatype text datatype))
  | _ => none

/-- The literal that `STRLANG` makes of a text: its tag must be well-formed, and is made small. -/
def Term.withLanguage? (text tag : String) : Option Term :=
  if LanguageTag.isWellFormed tag then some (.literal (.tagged text (Text.lowerAscii tag)))
  else none

open Eval in
/-- The call of a function under a base and in a scope of blank node labels. -/
def Builtin.apply (base : Option Iri) (scope : ScopeId) :
    Builtin → List (Eval Term) → Eval Term
  | .str, [a] => do return .ofText (← ofOption (← a).text?)
  | .lang, [a] => do return .ofText (← ofOption (← a).languageTag?)
  | .langMatches, [tag, range] => do
    let tag ← string tag
    let range ← string range
    return .ofBool (languageMatches (String.ofList tag.text) (String.ofList range.text))
  | .datatype, [a] => do return .iri (← ofOption (← value a).datatype?)
  | .iri, [a] => do ofOption ((← a).asIri? base)
  | .bnode, [] => do return .blank (← ofScopes Scopes.fresh)
  | .bnode, [label] => do
    let label ← simple label
    return .blank (← ofScopes (·.mint scope label))
  | .abs, [a] => rounding a Numeric.abs?
  | .ceil, [a] => rounding a Numeric.ceil?
  | .floor, [a] => rounding a Numeric.floor?
  | .round, [a] => rounding a Numeric.round?
  | .concat, parts => do return (StringLiteral.concat (← each string parts)).toTerm
  | .substr, [source, start] => do
    let source ← string source
    return (source.substring (← integer start) none).toTerm
  | .substr, [source, start, length] => do
    let source ← string source
    let start ← integer start
    return (source.substring start (some (← integer length))).toTerm
  | .strLen, [a] => do return .ofInt (← string a).text.length
  | .ucase, [a] => do
    let s ← string a
    return (s.withText (Text.toUpper s.text)).toTerm
  | .lcase, [a] => do
    let s ← string a
    return (s.withText (Text.toLower s.text)).toTerm
  | .encodeForUri, [a] => do
    return .ofText (Percent.encode (String.ofList (← string a).text))
  | .contains, [haystack, needle] =>
    searching haystack needle fun s n => .ofBool (Text.contains n s.text)
  | .strStarts, [haystack, needle] =>
    searching haystack needle fun s n => .ofBool (n.isPrefixOf s.text)
  | .strEnds, [haystack, needle] =>
    searching haystack needle fun s n => .ofBool (n.isSuffixOf s.text)
  | .strBefore, [haystack, needle] => searching haystack needle fun s n => (s.before n).toTerm
  | .strAfter, [haystack, needle] => searching haystack needle fun s n => (s.after n).toTerm
  | .strDt, [text, type] => do
    let text ← string text
    let type ← type
    if text.language.isSome then fail
    else ofOption (type.withDatatype? (String.ofList text.text))
  | .strLang, [text, tag] => do
    let text ← string text
    let tag ← string tag
    if text.language.isSome then fail
    else ofOption (Term.withLanguage? (String.ofList text.text) (String.ofList tag.text))
  | .isIri, [a] => test a Term.isIri
  | .isBlank, [a] => test a Term.isBlank
  | .isLiteral, [a] => test a Term.isLiteral
  | .isNumeric, [a] => test a Term.isNumeric
  | _, _ => fail

end TripleLoom
