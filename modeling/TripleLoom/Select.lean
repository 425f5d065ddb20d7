import TripleLoom.Algebra.Equality
import TripleLoom.Algebra.Scope
import TripleLoom.Skolem

/-!
# TripleLoom.Select — the part of a query that a graph-pattern engine evaluates

The WHERE clause and the solution modifiers of a query make up its select part.  To evaluate it
for a sequence of solutions, the solutions are written into the query as a table of inline data
that is joined with the pattern: `toQuery` is that query, and `projected` are the variables of its
result.
-/

namespace TripleLoom

/-- The grouping of a query: the variables grouped by and the aggregates of each group. -/
structure Grouping where
  vars : List Variable
  aggregates : List (Variable × Aggregate)
  deriving DecidableEq, Inhabited

/-- A projected variable, possibly computed. -/
structure ProjectionItem where
  name : Variable
  expression : Option Expression
  deriving DecidableEq, Inhabited

/-- The select part of a query. -/
structure Select where
  dataset : Option Dataset
  base : Option Iri
  pattern : GraphPattern
  group : Option Grouping
  having : List Expression
  /-- The explicit projection; without one every variable in scope is projected. -/
  projection : Option (List ProjectionItem)
  /-- Whether the variables of the inline solutions are projected as well. -/
  keepInput : Bool
  orderBy : List OrderCondition
  distinct : Bool
  reduced : Bool
  offset : Nat
  limit : Option Nat
  deriving DecidableEq, Inhabited

/-- A query for a graph-pattern engine. -/
structure EngineQuery where
  dataset : Option Dataset
  pattern : GraphPattern
  base : Option Iri
  deriving DecidableEq, Inhabited

/-- The solutions of a sequence as a table of inline data. -/
def Sequence.toTable (s : Sequence) : ValuesTable :=
  ⟨s.vars, s.solutions.map fun solution =>
    s.vars.map fun v => (solution.get? v).map Term.toGround⟩

/-- A pattern joined with the solutions of a sequence. The one solution that binds nothing adds
nothing to the pattern, and the empty pattern nothing to the solutions. -/
def GraphPattern.joinInline (inline : Sequence) (pattern : GraphPattern) : GraphPattern :=
  if inline.vars.isEmpty ∧ inline.size = 1 then pattern
  else if pattern = .bgp [] then .values inline.toTable
  else .join (.values inline.toTable) pattern

namespace Select

/-- The variables of the result, if the inline solutions declare `input`. -/
def projected (s : Select) (input : List Variable) : List Variable :=
  let chosen :=
    match s.projection, s.group with
    | some items, _ => items.map (·.name)
    | none, some g => g.vars ++ g.aggregates.map (·.1)
    | none, none => input ++ s.pattern.inScope
  let kept := if s.keepInput ∧ s.group.isNone then input else []
  Variable.declareAll [] (chosen ++ kept)

/-- The grouped pattern. -/
def grouped (s : Select) (pattern : GraphPattern) : GraphPattern :=
  match s.group with
  | some g => .group pattern g.vars g.aggregates
  | none => pattern

/-- The pattern filtered by the `HAVING` conditions, the first one innermost. -/
def filtered (s : Select) (pattern : GraphPattern) : GraphPattern :=
  s.having.foldl (fun p condition => .filter condition p) pattern

/-- The pattern extended by the computed variables of the projection. -/
def computed (s : Select) (pattern : GraphPattern) : GraphPattern :=
  (s.projection.getD []).foldl (fun p item =>
    match item.expression with
    | some e => .extend p item.name e
    | none => p) pattern

/-- The pattern with its solutions in order. -/
def ordered (s : Select) (pattern : GraphPattern) : GraphPattern :=
  if s.orderBy.isEmpty then pattern else .orderBy pattern s.orderBy

/-- The pattern without duplicates, if the query asks for that. -/
def deduplicated (s : Select) (pattern : GraphPattern) : GraphPattern :=
  if s.distinct then .distinct pattern
  else if s.reduced then .reduced pattern
  else pattern

/-- The pattern cut to the solutions from the offset up to the limit. -/
def sliced (s : Select) (pattern : GraphPattern) : GraphPattern :=
  if 0 < s.offset ∨ s.limit.isSome then .slice pattern s.offset s.limit else pattern

/-- The query that evaluates the select part for the solutions of a sequence. -/
def toQuery (s : Select) (inline : Sequence) : EngineQuery where
  dataset := s.dataset
  base := s.base
  pattern :=
    let matched := s.pattern.joinInline inline
    let shown := s.ordered (s.computed (s.filtered (s.grouped matched)))
    s.sliced (s.deduplicated (.project shown (s.projected inline.vars)))

end Select

end TripleLoom
