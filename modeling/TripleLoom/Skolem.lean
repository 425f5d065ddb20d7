import TripleLoom.Algebra.Basic
import TripleLoom.Sequence

/-!
# TripleLoom.Skolem — blank nodes in inline data

A table of inline data holds no blank nodes.  For the time of a visit to the graph-pattern engine
each is replaced by an IRI of its own, and these IRIs are read back as the blank nodes.
-/

namespace TripleLoom

/-- The namespace of the IRIs that stand for blank nodes. -/
def skolemNamespace : String := "urn:sparql-generate:skolem:"

/-- The IRI that stands for a blank node. -/
def BlankNode.skolem (b : BlankNode) : Iri := ⟨skolemNamespace ++ b.label⟩

/-- The blank node that an IRI stands for, if it does. -/
def Iri.unskolem? (i : Iri) : Option BlankNode :=
  (skolemNamespace.toList.isPrefixOf? i.text.toList).map fun label => ⟨String.ofList label⟩

/-- A term as inline data. -/
def Term.toGround : Term → GroundTerm
  | .iri i => .iri i
  | .literal l => .literal l
  | .blank b => .iri b.skolem

/-- A term with the blank node it stands for put back. -/
def Term.restore : Term → Term
  | .iri i =>
    match i.unskolem? with
    | some b => .blank b
    | none => .iri i
  | t => t

/-- A solution with the blank nodes put back. The newest binding becomes the oldest. -/
def Solution.restoreBlanks (s : Solution) : Solution :=
  .ofBindings (s.bindings.map fun (v, t) => (v, t.restore))

/-- A sequence with the blank nodes put back. -/
def Sequence.restoreBlanks (s : Sequence) : Sequence :=
  s.withSolutions (s.solutions.map Solution.restoreBlanks)

end TripleLoom
