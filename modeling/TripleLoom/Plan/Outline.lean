import TripleLoom.Plan.Basic

/-!
# TripleLoom.Plan.Outline — the text of a plan

A plan is shown as an outline: one line for each node, indented by its depth.
-/

namespace TripleLoom

/-- A line at a depth, with its line feed. -/
def outlineLine (depth : Nat) (words : List String) : String :=
  String.join (List.replicate depth "  ") ++ " ".intercalate words ++ "\n"

/-- The text of a term of a template. -/
def TemplateTerm.display : TemplateTerm → String
  | .iri i => i.display
  | .blank b => b.display
  | .literal l => l.display
  | .var v => v.display

/-- The lines of a binding clause. -/
def BindingClause.outline (depth : Nat) : BindingClause → String
  | .iterator f _ vars =>
    outlineLine depth ("Iterator" :: f.display :: vars.map Variable.display)
  | .source document _ v => outlineLine depth ["Source", document.display, v.display]
  | .bind _ v => outlineLine depth ["Bind", v.display]

/-- The lines of a node of triples. -/
def TriplesPlan.outline (depth : Nat) (p : TriplesPlan) : String :=
  String.join (p.triples.map fun t =>
    outlineLine depth ["Triple", t.subject.display, t.predicate.display, t.object.display]) ++
  String.join (p.lists.map fun t =>
    outlineLine depth ["List", t.subject.display, t.predicate.display, t.element.display])

mutual

/-- The lines of a plan. -/
def Plan.outline (depth : Nat) : Plan → String
  | ⟨name, _, _, _, bindings, select, postSelect, output⟩ =>
    outlineLine depth ("Root" :: (name.map Iri.display).toList) ++
      PlanNode.outlineAll (depth + 1) bindings ++ PlanNode.outlineOption (depth + 1) select ++
      PlanNode.outlineAll (depth + 1) postSelect ++ output.outline (depth + 1)

/-- The lines of an output. -/
def OutputPlan.outline (depth : Nat) : OutputPlan → String
  | .generate nodes => outlineLine depth ["Generate"] ++ PlanNode.outlineAll (depth + 1) nodes
  | .template node => node.outline depth
  | .rows none => outlineLine depth ["Output", "*"]
  | .rows (some vars) => outlineLine depth ("Output" :: vars.map Variable.display)

/-- The lines of a node. -/
def PlanNode.outline (depth : Nat) : PlanNode → String
  | .clause c => c.outline depth
  | .select _ => outlineLine depth ["Select"]
  | .triples p => p.outline depth
  | .call c => outlineLine depth ["Call", c.name.display]
  | .template ⟨_, parts, _, _⟩ =>
    outlineLine depth ["Template"] ++ TemplatePart.outlineAll (depth + 1) parts
  | .plan p => p.outline depth

/-- The lines of some nodes. -/
def PlanNode.outlineAll (depth : Nat) : List PlanNode → String
  | [] => ""
  | node :: rest => node.outline depth ++ PlanNode.outlineAll depth rest

/-- The lines of an optional node. -/
def PlanNode.outlineOption (depth : Nat) : Option PlanNode → String
  | none => ""
  | some node => node.outline depth

/-- The lines of some parts of a template. -/
def TemplatePart.outlineAll (depth : Nat) : List TemplatePart → String
  | [] => ""
  | .expression _ :: rest => outlineLine depth ["Expression"] ++ TemplatePart.outlineAll depth rest
  | .plan p :: rest => p.outline depth ++ TemplatePart.outlineAll depth rest
  | .call c :: rest =>
    outlineLine depth ["Call", c.name.display] ++ TemplatePart.outlineAll depth rest

end

/-- The text of a plan. -/
def Plan.display (p : Plan) : String := p.outline 0

end TripleLoom
