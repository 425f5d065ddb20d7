import TripleLoom.Term.Basic

/-!
# TripleLoom.Algebra.Basic — the SPARQL algebra

Expressions and graph patterns as they stand in queries and as they are handed to a graph-pattern
engine.  The two refer to each other: a filter holds an expression, and an `EXISTS` a pattern.
-/

namespace TripleLoom

/-! ### Operators and functions -/

/-- An operator with two operands. -/
inductive BinaryOperator where
  | or | and
  | equal | sameTerm | greater | greaterOrEqual | less | lessOrEqual
  | add | subtract | multiply | divide
  deriving DecidableEq, Repr, Inhabited

/-- An operator with one operand. -/
inductive UnaryOperator where
  | plus | minus | not
  deriving DecidableEq, Repr, Inhabited

/-- A function that SPARQL names. -/
inductive Builtin where
  | str | lang | langMatches | datatype | iri | bnode | rand
  | abs | ceil | floor | round
  | concat | substr | strLen | replace | ucase | lcase | encodeForUri
  | contains | strStarts | strEnds | strBefore | strAfter
  | year | month | day | hours | minutes | seconds | timezone | tz | now
  | uuid | strUuid | md5 | sha1 | sha256 | sha384 | sha512
  | strLang | strDt | isIri | isBlank | isLiteral | isNumeric | regex
  deriving DecidableEq, Repr, Inhabited

/-- A function of a call: one that SPARQL names, or one named by its IRI. -/
inductive Function where
  | builtin (function : Builtin)
  | custom (name : Iri)
  deriving DecidableEq, Repr, Inhabited

/-- What an aggregate computes from the values of a group. -/
inductive AggregateFunction where
  | count | sum | avg | min | max | sample
  | groupConcat (separator : Option String)
  | custom (name : Iri)
  deriving DecidableEq, Repr, Inhabited

/-! ### Patterns over terms -/

/-- A term of a pattern, which may be a variable. -/
inductive TermPattern where
  | iri (iri : Iri)
  | blank (node : BlankNode)
  | literal (literal : Literal)
  | var (name : Variable)
  deriving DecidableEq, Repr, Inhabited

/-- A triple pattern. -/
structure TriplePattern where
  subject : TermPattern
  predicate : IriPattern
  object : TermPattern
  deriving DecidableEq, Repr, Inhabited

/-- A property path. -/
inductive PropertyPath where
  | iri (iri : Iri)
  | reverse (path : PropertyPath)
  | sequence (first second : PropertyPath)
  | alternative (left right : PropertyPath)
  | zeroOrMore (path : PropertyPath)
  | oneOrMore (path : PropertyPath)
  | zeroOrOne (path : PropertyPath)
  | negated (iris : List Iri)
  deriving DecidableEq, Repr, Inhabited

/-- A term of inline data: an IRI or a literal. -/
inductive GroundTerm where
  | iri (iri : Iri)
  | literal (literal : Literal)
  deriving DecidableEq, Repr, Inhabited

/-- A ground term as a term. -/
def GroundTerm.toTerm : GroundTerm → Term
  | .iri i => .iri i
  | .literal l => .literal l

/-- A table of inline data: its variables and, row by row, their terms. -/
structure ValuesTable where
  vars : List Variable
  rows : List (List (Option GroundTerm))
  deriving DecidableEq, Repr, Inhabited

/-- The graphs a query is asked of. -/
structure Dataset where
  default : List Iri
  named : Option (List Iri)
  deriving DecidableEq, Repr, Inhabited

/-! ### Expressions and graph patterns -/

mutual

/-- An expression. -/
inductive Expression where
  | iri (iri : Iri)
  | literal (literal : Literal)
  | var (name : Variable)
  | binary (operator : BinaryOperator) (left right : Expression)
  | unary (operator : UnaryOperator) (operand : Expression)
  | isIn (needle : Expression) (candidates : List Expression)
  | bound (name : Variable)
  | conditional (condition yes no : Expression)
  | coalesce (alternatives : List Expression)
  | exists (pattern : GraphPattern)
  | call (function : Function) (arguments : List Expression)

/-- A graph pattern. -/
inductive GraphPattern where
  | bgp (triples : List TriplePattern)
  | path (subject : TermPattern) (path : PropertyPath) (object : TermPattern)
  | join (left right : GraphPattern)
  | leftJoin (left right : GraphPattern) (condition : Option Expression)
  | filter (condition : Expression) (inner : GraphPattern)
  | union (left right : GraphPattern)
  | graph (name : IriPattern) (inner : GraphPattern)
  | extend (inner : GraphPattern) (name : Variable) (expression : Expression)
  | minus (left right : GraphPattern)
  | values (table : ValuesTable)
  | orderBy (inner : GraphPattern) (conditions : List OrderCondition)
  | project (inner : GraphPattern) (vars : List Variable)
  | distinct (inner : GraphPattern)
  | reduced (inner : GraphPattern)
  | slice (inner : GraphPattern) (start : Nat) (length : Option Nat)
  | group (inner : GraphPattern) (vars : List Variable)
      (aggregates : List (Variable × Aggregate))
  | service (name : IriPattern) (inner : GraphPattern) (silent : Bool)

/-- A condition that solutions are ordered by. -/
inductive OrderCondition where
  | ascending (expression : Expression)
  | descending (expression : Expression)

/-- An aggregate over a group. -/
inductive Aggregate where
  | countSolutions (distinct : Bool)
  | of (function : AggregateFunction) (argument : Expression) (distinct : Bool)

end

instance : Inhabited Expression := ⟨.coalesce []⟩
instance : Inhabited GraphPattern := ⟨.bgp []⟩
instance : Inhabited OrderCondition := ⟨.ascending default⟩
instance : Inhabited Aggregate := ⟨.countSolutions false⟩

end TripleLoom
