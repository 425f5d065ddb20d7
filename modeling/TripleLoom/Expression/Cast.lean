import TripleLoom.Text.Blank
import TripleLoom.Value

/-!
# TripleLoom.Expression.Cast — casts to datatypes

The name of a datatype, called as a function, turns a term into a literal of that datatype: the
lexical form, without white space around it, is read by the datatype and written in canonical form.
-/

namespace TripleLoom

/-- The datatypes of values that terms can be cast to, strings apart. -/
def castTargets : List Iri := ["boolean", "integer", "decimal", "float", "double"].map Iri.xsd

/-- The text that a cast reads, if the term has one; that of an IRI can only become a string. -/
def Term.castText? (target : Iri) : Term → Option String
  | .iri i => if target = Iri.xsd "string" then some i.text else none
  | .literal l => some l.value
  | .blank _ => none

/-- A term cast to a datatype. -/
def Term.cast? (target : Iri) (t : Term) : Option Term := do
  let text ← t.castText? target
  if target = Iri.xsd "string" then return .ofText text
  else if target ∈ castTargets then
    match Value.ofLiteral (.withDatatype (Text.trim text) target) with
    | .other _ => none
    | value => return value.toTerm
  else none

end TripleLoom
