import TripleLoom.Numeric

/-!
# TripleLoom.Value — terms read by their datatype

Expressions compute with values: an IRI or blank node stands for itself, and a literal is read as
a truth value, a number, a string or a string with a language if its datatype and lexical form say
so.  Any other literal, among them one with an invalid lexical form, is kept as it is.
-/

namespace TripleLoom

/-- A term read by its datatype. -/
inductive Value where
  | iri (iri : Iri)
  | blank (node : BlankNode)
  | boolean (value : Bool)
  | numeric (value : Numeric)
  | simple (value : String)
  | tagged (value : String) (language : String)
  /-- A literal of another datatype, or one with an invalid lexical form. -/
  | other (literal : Literal)

namespace Value

/-- The truth value that a lexical form of `xsd:boolean` denotes. -/
def readBoolean? (value : String) : Option Bool :=
  if value = "true" ∨ value = "1" then some true
  else if value = "false" ∨ value = "0" then some false
  else none

/-- A literal read by its datatype. -/
def ofLiteral (l : Literal) : Value :=
  match l with
  | .tagged value language => .tagged value language
  | l =>
    if l.datatype = Iri.xsd "string" then .simple l.value
    else if l.datatype = Iri.xsd "boolean" then
      match readBoolean? l.value with
      | some b => .boolean b
      | none => .other l
    else
      match Numeric.ofLiteral? l with
      | some (some n) => .numeric n
      | _ => .other l

/-- A term read by its datatype. -/
def ofTerm : Term → Value
  | .iri i => .iri i
  | .blank b => .blank b
  | .literal l => ofLiteral l

/-- The term of a value, in canonical form. -/
def toTerm : Value → Term
  | .iri i => .iri i
  | .blank b => .blank b
  | .boolean b => .ofBool b
  | .numeric n => .literal n.toLiteral
  | .simple value => .ofText value
  | .tagged value language => .literal (.tagged value language)
  | .other l => .literal l

/-- The name of a value's kind. -/
def kind : Value → String
  | .iri _ => "iri"
  | .blank _ => "bnode"
  | .boolean _ => "boolean"
  | .numeric _ => "numeric"
  | .simple _ => "simple"
  | .tagged .. => "language"
  | .other _ => "other"

/-- The text of a string, with or without a language. -/
def text? : Value → Option String
  | .simple value | .tagged value _ => some value
  | _ => none

/-- The language of a string that has one. -/
def language? : Value → Option String
  | .tagged _ language => some language
  | _ => none

/-- Whether a value is that of a literal. -/
def isLiteral : Value → Bool
  | .iri _ | .blank _ => false
  | _ => true

/-- The datatype of the value's own term. -/
def datatype? : Value → Option Iri
  | .iri _ | .blank _ => none
  | .boolean _ => some (Iri.xsd "boolean")
  | .numeric n => some n.datatype
  | .simple _ => some (Iri.xsd "string")
  | .tagged _ _ => some (Iri.rdf "langString")
  | .other l => some l.datatype

/-- The truth of a value as a condition: that of truth values, numbers and simple strings. -/
def isTrue? : Value → Option Bool
  | .boolean b => some b
  | .numeric n => some n.isTruthy
  | .simple value => some !value.isEmpty
  | _ => none

/-- The order of two values. Numbers, truth values and strings of one language are ordered; two
other values are only ever found equal. -/
def compare : Value → Value → Option Ordering
  | .numeric a, .numeric b => a.compare b
  | .boolean a, .boolean b => some (Ord.compare a b)
  | .simple a, .simple b => some (Ord.compare a b)
  | .tagged a l, .tagged b m => if l = m then some (Ord.compare a b) else none
  | .iri a, .iri b => if a = b then some .eq else none
  | .blank a, .blank b => if a = b then some .eq else none
  | .other a, .other b => if a = b then some .eq else none
  | _, _ => none

/-- Whether two values are of one shape and equal in it. -/
def same : Value → Value → Bool
  | .iri a, .iri b => a == b
  | .blank a, .blank b => a == b
  | .boolean a, .boolean b => a == b
  | .numeric a, .numeric b => a.same b
  | .simple a, .simple b => a == b
  | .tagged a l, .tagged b m => a == b && l == m
  | .other a, .other b => a == b
  | _, _ => false

end Value

end TripleLoom
