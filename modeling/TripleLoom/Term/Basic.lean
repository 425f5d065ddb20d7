/-!
# TripleLoom.Term.Basic — RDF terms

IRIs, blank nodes, literals and the variables that stand for them.  All of them carry their text
as it was given; nothing here checks a syntax.  A literal has one of three shapes, and a literal
typed `xsd:string` is the simple literal: `Literal.withDatatype` is the constructor that keeps
to that.
-/

namespace TripleLoom

/-- An IRI, by its text. -/
structure Iri where
  text : String
  deriving DecidableEq, Repr, Inhabited

/-- A blank node, by its label. -/
structure BlankNode where
  label : String
  deriving DecidableEq, Repr, Inhabited

/-- A query variable, by its name without the question mark. -/
structure Variable where
  name : String
  deriving DecidableEq, Repr, Inhabited

/-- The namespace of the XML Schema datatypes. -/
def xsdNamespace : String := "http://www.w3.org/2001/XMLSchema#"

/-- The XML Schema datatype of the given local name. -/
def Iri.xsd (name : String) : Iri := ⟨xsdNamespace ++ name⟩

/-- The term of the given local name in the RDF vocabulary. -/
def Iri.rdf (name : String) : Iri := ⟨"http://www.w3.org/1999/02/22-rdf-syntax-ns#" ++ name⟩

/-- An RDF literal. -/
inductive Literal where
  /-- A literal of the datatype `xsd:string`. -/
  | simple (value : String)
  /-- A string with a language tag. -/
  | tagged (value : String) (language : String)
  /-- A literal of any other datatype. -/
  | typed (value : String) (datatype : Iri)
  deriving DecidableEq, Repr, Inhabited

namespace Literal

/-- The literal with the given lexical form and datatype. -/
def withDatatype (value : String) (datatype : Iri) : Literal :=
  if datatype = Iri.xsd "string" then .simple value else .typed value datatype

/-- The lexical form. -/
def value : Literal → String
  | .simple v | .tagged v _ | .typed v _ => v

/-- The datatype: `xsd:string` for a simple literal, `rdf:langString` for a tagged one. -/
def datatype : Literal → Iri
  | .simple _ => Iri.xsd "string"
  | .tagged _ _ => Iri.rdf "langString"
  | .typed _ d => d

@[simp] theorem value_withDatatype (v : String) (d : Iri) : (withDatatype v d).value = v := by
  unfold withDatatype; split <;> rfl

@[simp] theorem datatype_withDatatype (v : String) (d : Iri) :
    (withDatatype v d).datatype = d := by
  unfold withDatatype; split
  · simp_all [datatype]
  · rfl

end Literal

/-- An RDF term. -/
inductive Term where
  | iri (iri : Iri)
  | blank (node : BlankNode)
  | literal (literal : Literal)
  deriving DecidableEq, Repr, Inhabited

namespace Term

/-- The simple literal of a text. -/
def ofText (value : String) : Term := .literal (.simple value)

/-- The `xsd:boolean` literal of a truth value. -/
def ofBool (b : Bool) : Term :=
  .literal (.typed (if b then "true" else "false") (Iri.xsd "boolean"))

/-- The `xsd:integer` literal of a number. -/
def ofInt (n : Int) : Term := .literal (.typed (toString n) (Iri.xsd "integer"))

/-- The empty RDF list. -/
def nil : Term := .iri (Iri.rdf "nil")

end Term

/-- A term of a pattern that is either an IRI or a variable. -/
inductive IriPattern where
  | iri (iri : Iri)
  | var (name : Variable)
  deriving DecidableEq, Repr, Inhabited

/-- A term that may be the subject of a triple. -/
inductive Resource where
  | iri (iri : Iri)
  | blank (node : BlankNode)
  deriving DecidableEq, Repr, Inhabited

/-- A resource as a term. -/
def Resource.toTerm : Resource → Term
  | .iri i => .iri i
  | .blank b => .blank b

/-- The resource that a term is, if it is no literal. -/
def Term.toResource? : Term → Option Resource
  | .iri i => some (.iri i)
  | .blank b => some (.blank b)
  | .literal _ => none

/-- The IRI that a term is, if it is one. -/
def Term.toIri? : Term → Option Iri
  | .iri i => some i
  | _ => none

@[simp] theorem Resource.toResource?_toTerm (r : Resource) : r.toTerm.toResource? = some r := by
  cases r <;> rfl

/-- An RDF triple. -/
structure Triple where
  subject : Resource
  predicate : Iri
  object : Term
  deriving DecidableEq, Repr, Inhabited

/-- The triple of three terms, if each may stand in its position. -/
def Triple.ofTerms? (subject predicate object : Term) : Option Triple := do
  return ⟨← subject.toResource?, ← predicate.toIri?, object⟩

end TripleLoom
