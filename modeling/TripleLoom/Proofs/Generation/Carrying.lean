import TripleLoom.Proofs.Generation.Placeholders

/-!
# TripleLoom.Proofs.Generation.Carrying — which plan a task carries out

Whatever a query starts below itself carries out a part of its plan, or of a plan that stands in it
(`Plan.Holds`), until a query is called by its name.  `Task.IsOf` says so of a task, with all that it is
yet to evaluate, and it stays so however the task turns (`Task.Turns.isOf`).  So the tasks of a plan
none of whose expressions calls `BNODE` mint no label, but for the forms among them
(`Task.IsOf.fitsIn`).
-/

namespace TripleLoom

/-! ### Plans without `BNODE` -/

theorem PlanNode.callBnode_eq_false {nodes : List PlanNode} :
    callBnode nodes = false ↔ ∀ node ∈ nodes, node.callsBnode = false := by
  induction nodes with
  | nil => simp [callBnode]
  | cons node rest ih => simp [callBnode, ih]

theorem TemplatePart.callBnode_eq_false {parts : List TemplatePart} :
    callBnode parts = false ↔ ∀ part ∈ parts, part.callsBnode = false := by
  induction parts with
  | nil => simp [callBnode]
  | cons part rest ih => simp [callBnode, ih]

theorem PlanNode.callsBnode_expressions {node : PlanNode} (h : node.callsBnode = false) :
    ∀ e ∈ node.expressions, e.callsBnode = false := by
  intro e he
  cases node with
  | clause c =>
    cases c with
    | bind e' v => exact List.mem_singleton.mp he ▸ h
    | source => cases he
    | iterator => exact Expression.callBnode_eq_false.mp h e he
  | _ => cases he

theorem CallPlan.callsBnode_arguments {call : CallPlan} (h : call.passesBnode = false) :
    ∀ e ∈ call.arguments.getD [], e.callsBnode = false := by
  rw [passesBnode] at h
  cases ha : call.arguments with
  | none =>
    intro e he
    cases he
  | some arguments =>
    rw [ha] at h
    exact Expression.callBnode_eq_false.mp h

namespace Plan

variable {p q : Plan} {t : TemplatePlan}

theorem callsBnode_eq_false : p.callsBnode = false ↔
    (∀ node ∈ p.bindings, node.callsBnode = false) ∧
      (∀ node ∈ p.postSelect, node.callsBnode = false) ∧ p.output.callsBnode = false := by
  obtain ⟨_, _, _, _, bindings, _, postSelect, output⟩ := p
  rw [callsBnode, Bool.or_eq_false_iff, Bool.or_eq_false_iff, PlanNode.callBnode_eq_false,
    PlanNode.callBnode_eq_false, and_assoc]

theorem callsBnode_elements (h : p.callsBnode = false) : ∀ node ∈ p.elements,
    node.callsBnode = false := by
  have houtput := (callsBnode_eq_false.mp h).2.2
  rw [elements]
  cases ho : p.output with
  | generate nodes =>
    rw [ho] at houtput
    exact PlanNode.callBnode_eq_false.mp houtput
  | template | rows =>
    intro node hn
    cases hn

theorem callsBnode_template (h : p.callsBnode = false) (ho : p.output = .template (.template t)) :
    (∀ e ∈ t.before.toList ++ t.separator.toList ++ t.after.toList, e.callsBnode = false) ∧
      ∀ part ∈ t.parts, part.callsBnode = false := by
  have ht : t.callsBnode = false := by
    have houtput := (callsBnode_eq_false.mp h).2.2
    rw [ho] at houtput
    exact houtput
  obtain ⟨before, parts, separator, after⟩ := t
  simp only [TemplatePlan.callsBnode, Bool.or_eq_false_iff, Option.any_eq_false] at ht
  obtain ⟨⟨⟨hbefore, hparts⟩, hseparator⟩, hafter⟩ := ht
  refine ⟨?_, TemplatePart.callBnode_eq_false.mp hparts⟩
  rw [List.forall_mem_append, List.forall_mem_append]
  exact ⟨⟨fun e he => hbefore e (Option.mem_toList.mp he),
    fun e he => hseparator e (Option.mem_toList.mp he)⟩,
    fun e he => hafter e (Option.mem_toList.mp he)⟩

/-- A plan in another one: itself, or one that stands in the form or the text of a plan in it. -/
inductive Holds (p : Plan) : Plan → Prop where
  | self : Holds p p
  | element {q r : Plan} (h : Holds p q) (hr : .plan r ∈ q.elements) : Holds p r
  | part {q r : Plan} {t : TemplatePlan} (h : Holds p q) (ho : q.output = .template (.template t))
    (hr : .plan r ∈ t.parts) : Holds p r

theorem Holds.callsBnode (h : p.Holds q) (hp : p.callsBnode = false) : q.callsBnode = false := by
  induction h with
  | self => exact hp
  | element _ hr ih => exact callsBnode_elements ih _ hr
  | part _ ho hr ih => exact (callsBnode_template ih ho).2 _ hr

/-- A call that stands in the form or the text of a plan. -/
def Calls (p : Plan) (call : CallPlan) : Prop :=
  .call call ∈ p.elements ∨ ∃ t, p.output = .template (.template t) ∧ .call call ∈ t.parts

theorem Calls.passesBnode {call : CallPlan} (h : p.Calls call) (hp : p.callsBnode = false) :
    call.passesBnode = false := by
  rcases h with hmem | ⟨t, ho, hmem⟩
  · exact callsBnode_elements hp _ hmem
  · exact (callsBnode_template hp ho).2 _ hmem

end Plan

/-! ### Tasks of a plan -/

/-- The call of a plan that a stage makes, if it makes one. -/
def Stage.IsOf (p : Plan) : Stage → Prop
  | .resolving call _ => .call call ∈ p.elements
  | .idle | .nested | .calling _ => True

/-- A purpose that serves a call in a plan. -/
def Purpose.IsOf (p : Plan) : Purpose → Prop
  | .resolve => True
  | .call _ arguments .. => ∃ q call, p.Holds q ∧ q.Calls call ∧ arguments = call.arguments

namespace Task

/-- A task that carries out a part of a plan. -/
def IsOf (p : Plan) : Task → Prop
  | .finished _ => True
  | .clauses f nodes _ | .fetching f nodes .. | .iterating f nodes .. =>
    p.Holds f.plan ∧ nodes ⊆ f.plan.bindings
  | .selecting f .. | .evaluating f .. | .assembling f _ => p.Holds f.plan
  | .generating _ nodes stage .. => ∃ q, p.Holds q ∧ nodes ⊆ q.elements ∧ stage.IsOf q
  | .writing w | .nesting w .. =>
    ∃ q, p.Holds q ∧ q.output = .template (.template w.plan) ∧ w.parts ⊆ w.plan.parts
  | .entering _ purpose | .asking _ _ purpose => purpose.IsOf p

variable {setting : Setting} {p q : Plan} {t t' : Task} {s s' : RunState}

theorem isOf_ofPlan (h : p.Holds q) (c : Context) (input : Sequence) : (ofPlan c q input).IsOf p :=
  ⟨h, fun _ hn => hn⟩

/-- A text that goes on is of the same plan. -/
theorem IsOf.continues {w w' : Writing} (h : (writing w).IsOf p) (hw : w.Continues w') :
    (writing w').IsOf p := by
  obtain ⟨q, hq, ho, hparts⟩ := h
  refine ⟨q, hq, hw.plan ▸ ho, ?_⟩
  rw [hw.plan]
  exact fun _ hp => hparts (hw.parts hp)

/-- A task goes on with its plan, unless it serves a call, which starts in a scope without
ancestors. -/
theorem Turns.isOf (h : Turns setting s t t' s') (ht : t.IsOf p) : t'.IsOf p ∨
    ∀ c ∈ t'.contexts, s.scopes.count ≤ c.scope ∧ s'.scopes.path c.scope = [c.scope] := by
  cases h with
  | stay => exact .inl ht
  | finish | generated => exact .inl trivial
  | bind | source | iterate =>
    exact .inl ⟨ht.1, fun _ hn => ht.2 (List.mem_cons_of_mem _ hn)⟩
  | assemble | select => exact .inl ht.1
  | generate f input hb hs ho =>
    refine .inl ⟨f.plan, ht, fun node hn => ?_, trivial⟩
    rwa [Plan.elements, ho]
  | write f input hb ho =>
    refine .inl ⟨f.plan, ht, ho, fun part hpart => ?_⟩
    rwa [Writing.parts, Option.map_none, Option.getD_none, List.append_nil] at hpart
  | triples | refuse | nest =>
    obtain ⟨q, hq, hnodes, -⟩ := ht
    exact .inl ⟨q, hq, fun _ hn => hnodes (List.mem_cons_of_mem _ hn), trivial⟩
  | resolve =>
    obtain ⟨q, hq, hnodes, -⟩ := ht
    exact .inl ⟨q, hq, fun _ hn => hnodes (List.mem_cons_of_mem _ hn), hnodes List.mem_cons_self⟩
  | nested | resolved | called =>
    obtain ⟨q, hq, hnodes, -⟩ := ht
    exact .inl ⟨q, hq, hnodes, trivial⟩
  | resume hw | embed hw | embedCall hw => exact .inl (ht.continues hw)
  | @collect w w' hw => exact .inl (IsOf.continues (w := w) ht hw)
  | ask name accept accept' purpose ht' => rcases ht' with rfl | rfl <;> exact .inl ht
  | call _ c plan hu hnew hpath =>
    refine .inr fun d hd => ?_
    obtain rfl := List.mem_singleton.mp hd
    exact ⟨hnew, hpath⟩
  | _ => exact .inl ht

/-- What a task starts below itself is of its plan. -/
theorem Begets.isOf (h : t.Begets t') (ht : t.IsOf p) : t'.IsOf p := by
  cases h with
  | branch => exact ht
  | nested =>
    obtain ⟨q, hq, hnodes, -⟩ := ht
    exact isOf_ofPlan (hq.element (hnodes List.mem_cons_self)) _ _
  | resolve => exact trivial
  | call =>
    obtain ⟨q, hq, -, hcall⟩ := ht
    exact ⟨q, _, hq, .inl hcall, rfl⟩
  | embedded hp =>
    obtain ⟨q, hq, ho, hparts⟩ := ht
    exact isOf_ofPlan (hq.part ho (hparts hp)) _ _
  | embeddedCall hcall =>
    obtain ⟨q, hq, ho, hparts⟩ := ht
    exact ⟨q, _, hq, .inr ⟨_, ho, hparts hcall⟩, rfl⟩

theorem isOf_replaceInside (index : Nat) (inner t : Task) :
    (replaceInside index inner t).IsOf p ↔ t.IsOf p := by
  cases t with
  | iterating => rw [replaceInside]; split <;> rfl
  | _ => rfl

/-- No expression that a task of a plan without `BNODE` evaluates calls it. -/
theorem IsOf.callsBnode (h : t.IsOf p) (hp : p.callsBnode = false) :
    ∀ e ∈ t.expressions, e.callsBnode = false := by
  have hnodes : ∀ nodes : List PlanNode, (∀ node ∈ nodes, node.callsBnode = false) →
      ∀ e ∈ nodes.flatMap PlanNode.expressions, e.callsBnode = false := by
    intro nodes hall e he
    obtain ⟨node, hn, he⟩ := List.mem_flatMap.mp he
    exact node.callsBnode_expressions (hall node hn) e he
  have hpurpose : ∀ purpose : Purpose, purpose.IsOf p → ∀ e ∈ purpose.expressions,
      e.callsBnode = false := by
    intro purpose hpurpose
    cases purpose with
    | resolve => exact fun _ he => nomatch he
    | call c arguments =>
      obtain ⟨q, call, hq, hcall, rfl⟩ := hpurpose
      exact call.callsBnode_arguments (hcall.passesBnode (hq.callsBnode hp))
  cases t with
  | clauses f nodes =>
    exact hnodes _ fun node hn =>
      (Plan.callsBnode_eq_false.mp (h.1.callsBnode hp)).1 node (h.2 hn)
  | assembling f => exact hnodes _ (Plan.callsBnode_eq_false.mp (Plan.Holds.callsBnode h hp)).2.1
  | writing w =>
    obtain ⟨q, hq, ho, hparts⟩ := h
    obtain ⟨hbetween, hall⟩ := Plan.callsBnode_template (hq.callsBnode hp) ho
    intro e he
    rcases List.mem_append.mp he with he | he
    · exact hbetween e he
    · obtain ⟨part, hpart, he⟩ := List.mem_flatMap.mp he
      have hcalls := hall part (hparts (List.mem_append_right _ hpart))
      cases part with
      | expression e' => exact List.mem_singleton.mp he ▸ hcalls
      | plan | call => cases he
  | entering name purpose | asking name accept purpose => exact hpurpose purpose h
  | _ => exact fun _ he => nomatch he

/-- A task of a plan without `BNODE` that is no form mints nothing. -/
theorem IsOf.fitsIn (h : t.IsOf p) (hp : p.callsBnode = false) (hg : t.generation? = none) :
    t.FitsIn { Footprint.all with mints := fun _ => False } where
  mints e he hcalls := by
    rw [h.callsBnode hp e he] at hcalls
    cases hcalls
  sites g hsome := by
    rw [hg] at hsome
    cases hsome
  lists _ _ := trivial
  evaluates _ _ _ := trivial

end Task

end TripleLoom
