import TripleLoom.Query.Basic
import TripleLoom.Term.NTriples

/-!
# TripleLoom.Plan.Basic — plans, the compiled form of queries

A plan holds what a run needs in the order in which it needs it: the binding clauses, the select
part, the bindings behind it, and the output.  Plans made by hand may hold a node where it has no
place; a run refuses such a node by its kind.
-/

namespace TripleLoom

/-- A term of a template: a constant, a placeholder or a variable. -/
inductive TemplateTerm where
  | iri (iri : Iri)
  | blank (node : BlankNode)
  | literal (literal : Literal)
  | var (name : Variable)
  deriving DecidableEq, Repr, Inhabited

/-- A triple to instantiate for every solution. -/
structure TripleTemplate where
  subject : TemplateTerm
  predicate : TemplateTerm
  object : TemplateTerm
  deriving DecidableEq, Repr, Inhabited

/-- A triple whose object is the list of the element's values over all solutions. -/
structure ListTemplate where
  id : Nat
  subject : TemplateTerm
  predicate : TemplateTerm
  element : TemplateTerm
  deriving DecidableEq, Repr, Inhabited

/-- Triples and lists to instantiate for every solution. -/
structure TriplesPlan where
  triples : List TripleTemplate
  lists : List ListTemplate
  deriving DecidableEq, Repr, Inhabited

/-- A call of a named query for every solution. -/
structure CallPlan where
  name : IriPattern
  arguments : Option (List Expression)
  deriving DecidableEq, Inhabited

mutual

/-- The plan of a query. -/
structure Plan where
  name : Option Iri
  signature : Option (List Variable)
  base : Option Iri
  prefixes : List (String × String)
  bindings : List PlanNode
  select : Option PlanNode
  postSelect : List PlanNode
  output : OutputPlan

/-- A node of a plan. -/
inductive PlanNode where
  | clause (clause : BindingClause)
  | select (select : Select)
  | triples (plan : TriplesPlan)
  | call (call : CallPlan)
  | template (template : TemplatePlan)
  | plan (plan : Plan)

/-- What a plan makes of the final solutions. -/
inductive OutputPlan where
  | generate (nodes : List PlanNode)
  | template (node : PlanNode)
  /-- Rows over the given variables, or over all. -/
  | rows (vars : Option (List Variable))

/-- The plan of a template. -/
structure TemplatePlan where
  before : Option Expression
  parts : List TemplatePart
  separator : Option Expression
  after : Option Expression

/-- A part of a template. -/
inductive TemplatePart where
  | expression (expression : Expression)
  | plan (plan : Plan)
  | call (call : CallPlan)

end

instance : Inhabited OutputPlan := ⟨.generate []⟩
instance : Inhabited Plan := ⟨⟨none, none, none, [], [], none, [], default⟩⟩
instance : Inhabited PlanNode := ⟨.triples default⟩
instance : Inhabited TemplatePlan := ⟨⟨none, [], none, none⟩⟩
instance : Inhabited TemplatePart := ⟨.expression default⟩

/-- The name of a node's kind. -/
def PlanNode.kind : PlanNode → String
  | .clause (.iterator ..) => "Iterator"
  | .clause (.source ..) => "Source"
  | .clause (.bind ..) => "Bind"
  | .select _ => "Select"
  | .triples _ => "GenerateTriples"
  | .call _ => "GenerateNamedCall"
  | .template _ => "Template"
  | .plan _ => "Root"

/-- The variables of a plan's signature, none if it has no signature. -/
def Plan.parameters (p : Plan) : List Variable := p.signature.getD []

end TripleLoom
