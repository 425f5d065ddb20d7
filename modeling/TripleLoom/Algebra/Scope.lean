import TripleLoom.Algebra.Basic

/-!
# TripleLoom.Algebra.Scope — the variables that a pattern may bind

`inScope` lists the in-scope variables of a graph pattern in the order in which they are met, with
repetitions.
-/

namespace TripleLoom

/-- The variable of a term of a pattern. -/
def TermPattern.vars : TermPattern → List Variable
  | .var v => [v]
  | _ => []

/-- The variable of an IRI pattern. -/
def IriPattern.vars : IriPattern → List Variable
  | .var v => [v]
  | .iri _ => []

/-- The variables of a triple pattern. -/
def TriplePattern.vars (t : TriplePattern) : List Variable :=
  t.subject.vars ++ t.predicate.vars ++ t.object.vars

/-- The in-scope variables of a graph pattern. -/
def GraphPattern.inScope : GraphPattern → List Variable
  | .bgp triples => triples.flatMap TriplePattern.vars
  | .path s _ o => s.vars ++ o.vars
  | .join l r | .leftJoin l r _ | .union l r => l.inScope ++ r.inScope
  | .filter _ inner => inner.inScope
  | .graph name inner => name.vars ++ inner.inScope
  | .extend inner v _ => v :: inner.inScope
  | .minus l _ => l.inScope
  | .values table => table.vars
  | .orderBy inner _ | .distinct inner | .reduced inner | .slice inner _ _ => inner.inScope
  | .project _ vars => vars
  | .group _ vars aggregates => vars ++ aggregates.map (·.1)
  | .service _ inner _ => inner.inScope

end TripleLoom
