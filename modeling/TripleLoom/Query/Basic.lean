import TripleLoom.Select

/-!
# TripleLoom.Query.Basic — generate queries

A query binds variables clause by clause, may ask a graph-pattern engine for solutions, and turns
its final solutions into triples, text or rows.  Its output may hold further queries and calls of
queries by their names.
-/

namespace TripleLoom

/-- A clause that adds bindings to the solutions. -/
inductive BindingClause where
  | iterator (function : Iri) (arguments : List Expression) (vars : List Variable)
  | source (document : IriPattern) (accept : Option IriPattern) (name : Variable)
  | bind (expression : Expression) (name : Variable)
  deriving DecidableEq, Inhabited

/-- The solution modifiers of a query. -/
structure Modifiers where
  groupBy : List Variable
  aggregates : List (Variable × Aggregate)
  having : List Expression
  orderBy : List OrderCondition
  offset : Nat
  limit : Option Nat
  /-- The table of a `VALUES` clause at the end of the query. -/
  values : Option ValuesTable
  deriving DecidableEq

namespace Modifiers

/-- No modifier. -/
def none : Modifiers := ⟨[], [], [], [], 0, .none, .none⟩

instance : Inhabited Modifiers := ⟨none⟩

/-- Whether there is no modifier. -/
def isEmpty (m : Modifiers) : Bool :=
  m.groupBy.isEmpty && m.aggregates.isEmpty && m.having.isEmpty && m.orderBy.isEmpty &&
    m.offset == 0 && m.limit.isNone && m.values.isNone

end Modifiers

/-- A position of a generated triple. -/
inductive Position where
  | iri (iri : Iri)
  /-- A placeholder: a fresh blank node for every solution. -/
  | blank (node : BlankNode)
  | literal (literal : Literal)
  | var (name : Variable)
  | expression (expression : Expression)
  /-- The list of the values of a position over all solutions. -/
  | list (element : Position)
  deriving DecidableEq, Inhabited

/-- A triple to generate for every solution. -/
structure GenerateTriple where
  subject : Position
  predicate : Position
  object : Position
  deriving DecidableEq, Inhabited

/-- A call of a named query. -/
structure NamedCall where
  name : Expression
  arguments : Option (List Expression)
  deriving DecidableEq, Inhabited

mutual

/-- A query. -/
structure Query where
  base : Option Iri
  prefixes : List (String × String)
  name : Option Iri
  signature : Option (List Variable)
  dataset : Option Dataset
  bindings : List BindingClause
  pattern : Option GraphPattern
  modifiers : Modifiers
  form : Form
  /-- Bindings that are evaluated between the select part and the output. -/
  postSelect : List (Variable × Expression)

/-- What a query makes of its solutions. -/
inductive Form where
  | generate (elements : List Element)
  | template (before : Option Expression) (elements : List TemplateElement)
      (separator after : Option Expression)
  | select (projection : Option (List ProjectionItem)) (distinct reduced : Bool)

/-- An element of a `GENERATE` form. -/
inductive Element where
  | triples (triples : List GenerateTriple)
  | query (query : Query)
  | call (call : NamedCall)

/-- An element of a `TEMPLATE` form. -/
inductive TemplateElement where
  | text (text : String)
  | expression (expression : Expression)
  | query (query : Query)
  | call (call : NamedCall)

end

instance : Inhabited Form := ⟨.generate []⟩
instance : Inhabited Query := ⟨⟨none, [], none, none, none, [], none, default, default, []⟩⟩
instance : Inhabited Element := ⟨.triples []⟩
instance : Inhabited TemplateElement := ⟨.text ""⟩

/-- Whether a query is a template. -/
def Query.isTemplate (q : Query) : Bool :=
  match q.form with
  | .template .. => true
  | _ => false

end TripleLoom
