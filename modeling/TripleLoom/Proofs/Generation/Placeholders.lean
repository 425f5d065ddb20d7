import TripleLoom.Proofs.Generation.ListNodes
import TripleLoom.Proofs.Run.Once
import TripleLoom.Service.Scripted

/-!
# TripleLoom.Proofs.Generation.Placeholders — the blank nodes of placeholders

A placeholder stands for a blank node of the scope of its solution, unless a scope above that one
knows its label.  Above it are the scope of the fork, in which only arguments of calls could mint, and
those of the context.  So if these know none of the plan's labels whenever triples are written, every
solution gets nodes of its own, one for each label, and keeps them from element to element.

Another execution of the same plan could share a node only from below: in a scope under that of a
solution.  But what runs there is a query inside the plan, and smaller than the plan
(`Run.IsNested`); a call of the plan by its name starts in a scope without ancestors.
-/

namespace TripleLoom

open RunM

/-! ### Calls of `BNODE` -/

/-- The expressions of a clause. -/
def BindingClause.callsBnode : BindingClause → Bool
  | .bind e _ => e.callsBnode
  | .source .. => false
  | .iterator _ arguments _ => Expression.callBnode arguments

mutual

/-- Whether an expression of a plan calls `BNODE`, in nested queries and arguments of calls too. -/
def Plan.callsBnode : Plan → Bool
  | ⟨_, _, _, _, bindings, _, postSelect, output⟩ =>
    PlanNode.callBnode bindings || PlanNode.callBnode postSelect || output.callsBnode

/-- Whether an expression of a node calls `BNODE`. -/
def PlanNode.callsBnode : PlanNode → Bool
  | .clause c => c.callsBnode
  | .call c => c.passesBnode
  | .template t => t.callsBnode
  | .plan p => p.callsBnode
  | .select _ | .triples _ => false

/-- Whether an expression of some nodes calls `BNODE`. -/
def PlanNode.callBnode : List PlanNode → Bool
  | [] => false
  | node :: rest => node.callsBnode || PlanNode.callBnode rest

/-- Whether an expression of a form calls `BNODE`. -/
def OutputPlan.callsBnode : OutputPlan → Bool
  | .generate nodes => PlanNode.callBnode nodes
  | .template node => node.callsBnode
  | .rows _ => false

/-- Whether an expression of a template calls `BNODE`. -/
def TemplatePlan.callsBnode : TemplatePlan → Bool
  | ⟨before, parts, separator, after⟩ =>
    before.any Expression.callsBnode || TemplatePart.callBnode parts ||
      separator.any Expression.callsBnode || after.any Expression.callsBnode

/-- Whether an expression of a part of a template calls `BNODE`. -/
def TemplatePart.callsBnode : TemplatePart → Bool
  | .expression e => e.callsBnode
  | .plan p => p.callsBnode
  | .call c => c.passesBnode

/-- Whether an expression of some parts of a template calls `BNODE`. -/
def TemplatePart.callBnode : List TemplatePart → Bool
  | [] => false
  | part :: rest => part.callsBnode || TemplatePart.callBnode rest

end

theorem PlanNode.any_passesBnode : ∀ {nodes : List PlanNode}, PlanNode.callBnode nodes = false →
    nodes.any PlanNode.passesBnode = false
  | [], _ => rfl
  | node :: rest, h => by
    rw [callBnode, Bool.or_eq_false_iff] at h
    rw [List.any_cons, any_passesBnode h.2, Bool.or_false]
    cases node with
    | call c => exact h.1
    | _ => rfl

/-- A plan none of whose expressions calls `BNODE` calls no query with an argument that does. -/
theorem Plan.any_passesBnode {p : Plan} (h : p.callsBnode = false) :
    p.elements.any PlanNode.passesBnode = false := by
  obtain ⟨_, _, _, _, bindings, _, postSelect, output⟩ := p
  rw [callsBnode, Bool.or_eq_false_iff] at h
  cases output with
  | generate nodes => exact PlanNode.any_passesBnode h.2
  | template | rows => rfl

/-! ### Labels -/

/-- The labels of an element of triples. -/
def TriplesPlan.labels (p : TriplesPlan) : List String :=
  p.triples.flatMap (fun t => t.subject.labels ++ t.predicate.labels ++ t.object.labels) ++
    p.lists.flatMap fun l => l.subject.labels ++ l.predicate.labels ++ l.element.labels

/-- The labels of the placeholders in the triples and lists that a plan generates. -/
def Plan.labels (p : Plan) : List String := (PlanNode.triplesOf p.elements).flatMap TriplesPlan.labels

/-- No other labels are asked for than those of the placeholders. -/
theorem TriplesPlan.askedIn_subset (p : TriplesPlan) (labels : String → Option BlankNode)
    (u : Solution) (index : Nat) : p.askedIn labels u index ⊆ p.labels := by
  intro label hl
  rcases List.mem_append.mp hl with hl | hl
  · obtain ⟨t, ht, hl⟩ := List.mem_flatMap.mp hl
    refine List.mem_append_left _ (List.mem_flatMap.mpr ⟨t, ht, ?_⟩)
    unfold TripleTemplate.askedIn at hl
    split at hl
    · split at hl
      · rwa [List.append_assoc]
      · rw [List.append_nil] at hl
        exact List.mem_append_left _ hl
    · rw [List.append_nil] at hl
      exact List.mem_append_left _ (List.mem_append_left _ hl)
  · obtain ⟨l, hlist, hl⟩ := List.mem_flatMap.mp hl
    refine List.mem_append_right _ (List.mem_flatMap.mpr ⟨l, hlist, ?_⟩)
    unfold ListTemplate.askedIn at hl
    split at hl
    · exact hl
    · exact List.mem_append_right _ hl

/-! ### Where labels are minted -/

namespace Task

variable {setting : Setting} {t t' : Task} {s s' : RunState}

theorem exists_context_of_mintScopes {scope : ScopeId} (h : scope ∈ t.mintScopes) :
    ∃ c ∈ t.contexts, c.scope = scope := by
  have hpurpose : ∀ purpose : Purpose, scope ∈ purpose.mintScopes →
      ∃ c ∈ purpose.contexts, c.scope = scope := by
    intro purpose hp
    cases purpose with
    | resolve => cases hp
    | call c arguments =>
      rw [Purpose.mintScopes] at hp
      split at hp
      · exact ⟨c, List.mem_cons_self, (List.mem_singleton.mp hp).symm⟩
      · cases hp
  cases t with
  | finished => cases h
  | generating g nodes stage =>
    rcases List.mem_append.mp h with h | h
    · obtain ⟨c, hc, rfl⟩ := List.mem_map.mp h
      exact ⟨c, List.mem_cons_of_mem _ hc, rfl⟩
    · split at h
      · exact ⟨g.fork, List.mem_cons_self, (List.mem_singleton.mp h).symm⟩
      · cases h
  | entering name purpose | asking name accept purpose => exact hpurpose purpose h
  | _ => exact ⟨_, List.mem_cons_self, (List.mem_singleton.mp h).symm⟩

/-- A form that mints in the scope of its fork does so as long as a call is to come that passes a
`BNODE`. -/
theorem mintScopes_generating_of {g : Generation} {nodes nodes' : List PlanNode}
    {stage stage' : Stage} {running running' : List Task} {error error' : Outcome}
    (h : (stage'.passesBnode || nodes'.any PlanNode.passesBnode) = true →
      (stage.passesBnode || nodes.any PlanNode.passesBnode) = true) :
    (generating g nodes' stage' running' error').mintScopes ⊆
      (generating g nodes stage running error).mintScopes := by
  intro scope hs
  rcases List.mem_append.mp hs with hs | hs
  · exact List.mem_append_left _ hs
  · refine List.mem_append_right _ ?_
    split at hs
    · next hp => rwa [if_pos (h hp)]
    · cases hs

/-- A task goes on to mint in the scopes it did, or in ones that are new. -/
theorem Turns.mintScopes (h : Turns setting s t t' s') : ∀ scope ∈ t'.mintScopes,
    scope ∈ t.mintScopes ∨ s.scopes.count ≤ scope := by
  intro scope hs
  cases h with
  | @generate f input bound s₁ nodes hb hbound ho =>
    obtain ⟨c, hc, rfl⟩ := exists_context_of_mintScopes hs
    refine .inr (Nat.le_trans hbound.grows.scopes ?_)
    rcases List.mem_cons.mp hc with rfl | hc
    · exact Nat.le_refl _
    · exact Nat.le_of_lt ((f.generate_spec nodes bound s₁).2.sites c hc).1
  | triples g p nodes | nest g plan nodes | refuse g hnode nodes =>
    refine .inl (mintScopes_generating_of (fun hp => ?_) hs)
    rw [List.any_cons, Bool.or_eq_true_iff, Bool.or_eq_true_iff]
    exact .inr (.inr ((Bool.or_eq_true_iff.mp hp).resolve_left Bool.false_ne_true))
  | resolve g call nodes =>
    refine .inl (mintScopes_generating_of (fun hp => ?_) hs)
    rw [List.any_cons, Bool.or_eq_true_iff, Bool.or_eq_true_iff]
    exact .inr (Bool.or_eq_true_iff.mp hp)
  | resolved g nodes call =>
    refine .inl (mintScopes_generating_of (fun hp => ?_) hs)
    exact Bool.or_eq_true_iff.mpr
      (.inr ((Bool.or_eq_true_iff.mp hp).resolve_left Bool.false_ne_true))
  | resume hw | collect hw | embed hw | embedCall hw =>
    rw [List.mem_singleton.mp hs, hw.context]
    exact .inl List.mem_cons_self
  | ask name accept accept' purpose ht => rcases ht with rfl | rfl <;> exact .inl hs
  | call ht c plan hu hnew => exact .inr (List.mem_singleton.mp hs ▸ hnew)
  | finish | generated => cases hs
  | _ => exact .inl hs

theorem Begets.mintScopes (h : t.Begets t') : t'.mintScopes ⊆ t.mintScopes := by
  intro scope hs
  cases h with
  | branch => exact hs
  | nested hsite =>
    obtain rfl := List.mem_singleton.mp hs
    exact List.mem_append_left _ (List.mem_map.mpr ⟨_, (List.of_mem_zip hsite).1, rfl⟩)
  | resolve => cases hs
  | call =>
    refine List.mem_append_right _ ?_
    rw [mintScopes, Purpose.mintScopes] at hs
    split at hs
    · next hp => rwa [Stage.passesBnode, CallPlan.passesBnode, hp, Bool.true_or, if_pos rfl]
    · cases hs
  | embedded =>
    obtain rfl := List.mem_singleton.mp hs
    exact List.mem_cons_self
  | embeddedCall =>
    obtain ⟨c, hc, rfl⟩ := exists_context_of_mintScopes hs
    obtain rfl := List.mem_singleton.mp hc
    exact List.mem_cons_self

@[simp] theorem mintScopes_replaceInside (index : Nat) (inner t : Task) :
    (replaceInside index inner t).mintScopes = t.mintScopes := by
  cases t with
  | iterating => rw [replaceInside]; split <;> rfl
  | _ => rfl

end Task

/-! ### Plans inside plans -/

theorem Plan.sizeOf_lt_of_mem_elements {p q : Plan} (h : .plan q ∈ p.elements) :
    sizeOf q < sizeOf p := by
  obtain ⟨_, _, _, _, _, _, _, output⟩ := p
  cases output with
  | generate nodes =>
    have hmem := List.sizeOf_lt_of_mem h
    simp only [elements, PlanNode.plan.sizeOf_spec] at hmem
    simp only [Plan.mk.sizeOf_spec, OutputPlan.generate.sizeOf_spec]
    omega
  | template | rows => cases h

theorem Plan.sizeOf_lt_of_mem_parts {p q : Plan} {t : TemplatePlan}
    (ho : p.output = .template (.template t)) (h : .plan q ∈ t.parts) : sizeOf q < sizeOf p := by
  obtain ⟨_, _, _, _, _, _, _, output⟩ := p
  obtain ⟨before, parts, separator, after⟩ := t
  obtain rfl : output = _ := ho
  have hmem := List.sizeOf_lt_of_mem h
  simp only [TemplatePart.plan.sizeOf_spec] at hmem
  simp only [Plan.mk.sizeOf_spec, OutputPlan.template.sizeOf_spec, PlanNode.template.sizeOf_spec,
    TemplatePlan.mk.sizeOf_spec]
  omega

namespace Task

variable {setting : Setting} {t t' : Task} {s s' : RunState}

/-- A plan that a task runs, or a plan in it that it is yet to run, and the scope it runs it in. -/
def RunsIn (scope : ScopeId) (p : Plan) : Task → Prop
  | .finished _ | .entering .. | .asking .. => False
  | .clauses f .. | .fetching f .. | .iterating f .. | .selecting f .. | .evaluating f ..
  | .assembling f _ => f.context.scope = scope ∧ f.plan = p
  | .generating g nodes .. => (∃ c ∈ g.contexts, c.scope = scope) ∧ .plan p ∈ nodes
  | .writing w | .nesting w .. => w.context.scope = scope ∧ .plan p ∈ w.parts

theorem RunsIn.exists_context {scope : ScopeId} {p : Plan} (h : t.RunsIn scope p) :
    ∃ c ∈ t.contexts, c.scope = scope := by
  cases t with
  | finished | entering | asking => exact h.elim
  | generating =>
    obtain ⟨⟨c, hc, hscope⟩, -⟩ := h
    exact ⟨c, List.mem_cons_of_mem _ hc, hscope⟩
  | _ => exact ⟨_, List.mem_cons_self, h.1⟩

/-- A task goes on to run the plans it did, or smaller ones inside them, in the same scopes; a form
that begins runs plans inside its own in the scopes of its solutions, and what is called starts in a
new scope that has no ancestors. -/
theorem Turns.runsIn (h : Turns setting s t t' s') {scope : ScopeId} {p : Plan}
    (hp : t'.RunsIn scope p) :
    (∃ q, t.RunsIn scope q ∧ sizeOf p ≤ sizeOf q) ∨
    (∃ e, (Act.mk t s t' s').execution? setting = some e ∧
      (∃ c ∈ e.generation.contexts, c.scope = scope) ∧ sizeOf p < sizeOf e.frame.plan) ∨
    (Act.mk t s t' s').execution? setting = none ∧ s.scopes.count ≤ scope ∧
      s'.scopes.path scope = [scope] := by
  cases h with
  | @generate f input bound s₁ nodes hb hbound ho =>
    obtain ⟨hscope, hmem⟩ := hp
    refine .inr (.inl ⟨_, rfl, ?_, ?_⟩)
    · rw [Execution.generation, hb]
      exact hscope
    · exact Plan.sizeOf_lt_of_mem_elements (by rwa [Plan.elements, ho])
  | write f input hb ho =>
    obtain ⟨hscope, hmem⟩ := hp
    rw [Writing.parts, Option.map_none, Option.getD_none, List.append_nil] at hmem
    exact .inl ⟨f.plan, ⟨hscope, rfl⟩, Nat.le_of_lt (Plan.sizeOf_lt_of_mem_parts ho hmem)⟩
  | triples | nest | resolve | refuse =>
    exact .inl ⟨p, ⟨hp.1, List.mem_cons_of_mem _ hp.2⟩, Nat.le_refl _⟩
  | resume hw | collect hw | embed hw | embedCall hw =>
    exact .inl ⟨p, ⟨hw.context ▸ hp.1, hw.parts hp.2⟩, Nat.le_refl _⟩
  | call ht c plan hu hnew hpath =>
    obtain rfl := hp.1
    exact .inr (.inr ⟨by cases t <;> rfl, hnew, hpath⟩)
  | finish | generated | ask => exact hp.elim
  | _ => exact .inl ⟨p, hp, Nat.le_refl _⟩

theorem Begets.runsIn (h : t.Begets t') {scope : ScopeId} {p : Plan} (hp : t'.RunsIn scope p) :
    t.RunsIn scope p := by
  cases h with
  | branch => exact hp
  | nested hsite =>
    obtain ⟨rfl, rfl⟩ := hp
    exact ⟨⟨_, (List.of_mem_zip hsite).1, rfl⟩, List.mem_cons_self⟩
  | embedded hmem =>
    obtain ⟨rfl, rfl⟩ := hp
    exact ⟨rfl, hmem⟩
  | resolve | call | embeddedCall => exact hp.elim

theorem runsIn_replaceInside (index : Nat) (inner t : Task) {scope : ScopeId} {p : Plan} :
    (replaceInside index inner t).RunsIn scope p ↔ t.RunsIn scope p := by
  cases t with
  | iterating => rw [replaceInside]; split <;> rfl
  | _ => rfl

end Task

/-! ### Along a run -/

namespace Execution

/-- A scope that lies in the scope of a solution of an execution. -/
def Surrounds (e : Execution) (s : RunState) (scope : ScopeId) : Prop :=
  ∃ c ∈ e.generation.contexts, c.scope ∈ s.scopes.path scope

variable {e : Execution} {s t : RunState} {scope : ScopeId}

/-- The blank node that a label stands for in the solution at an index once an element has been
written. -/
def placeholder? (e : Execution) (w : Writeout) (i : Nat) (label : String) : Option BlankNode :=
  (e.generation.contexts[i]?).bind (·.label? w.after label)

theorem Surrounds.of_evolves {p : Footprint} (h : e.Surrounds t scope) (ht : s.Evolves p t)
    (hs : scope < s.scopes.count) : e.Surrounds s scope := by
  rwa [Surrounds, ht.path hs] at h

/-- What was there before an execution does not lie in it. -/
theorem not_surrounds (hsound : s.IsSound) (hs : scope < s.scopes.count)
    (he : scope < e.state.scopes.count) : ¬e.Surrounds s scope := by
  rintro ⟨c, hc, hmem⟩
  exact hsound.not_mem_path hs (Nat.lt_trans he (e.generates.sites c hc).1) hmem

end Execution

namespace Run

variable {setting : Setting} {acts : List Act} {r r' : Run} {move : RunMove}

/-- What runs in the scope of a solution is a query inside the plan, and so smaller than the plan. -/
structure IsNested (setting : Setting) (acts : List Act) (r : Run) : Prop where
  tasks : ∀ u : Task, u.Within r.task → ∀ scope p, u.RunsIn scope p →
    ∀ e ∈ executions setting acts, e.Surrounds r.state scope → sizeOf p < sizeOf e.frame.plan
  begun : ∀ e' ∈ executions setting acts, ∀ e ∈ executions setting acts,
    e.Surrounds e'.state e'.frame.context.scope → sizeOf e'.frame.plan < sizeOf e.frame.plan

section Turning

variable {m : Move} {u u' : Task} (h : IsNested setting acts r) (hr : History setting acts r)
  (hturning : Task.Turning setting m r.task r.state r'.task r'.state u u')

include h hr hturning

/-- What was there is not in an execution that begins now. -/
theorem IsNested.tasks_after {v : Task} (hv : v.Within r.task) {scope : ScopeId} {p : Plan}
    (hp : v.RunsIn scope p) {e : Execution}
    (he : e ∈ executions setting (acts ++ [⟨u, r.state, u', r'.state⟩]))
    (hsurrounds : e.Surrounds r'.state scope) : sizeOf p < sizeOf e.frame.plan := by
  obtain ⟨c, hc, rfl⟩ := hp.exists_context
  have hlt := (hr.areIn v hv c hc).scope
  have hbefore := hsurrounds.of_evolves hturning.evolves hlt
  rcases mem_executions_concat.mp he with he | he
  · exact h.tasks v hv _ p hp e he hbefore
  · have hbound := (Act.execution?_eq_some he hturning.turns).2.1
    exact absurd hbefore (e.not_surrounds hr.sound hlt (Nat.lt_of_lt_of_le hlt hbound.grows.scopes))

/-- An execution that begins now is in those around the task that begins it. -/
theorem IsNested.begins {e e' : Execution} (he : e ∈ executions setting acts)
    (he' : (Act.mk u r.state u' r'.state).execution? setting = some e')
    (hsurrounds : e.Surrounds e'.state e'.frame.context.scope) :
    sizeOf e'.frame.plan < sizeOf e.frame.plan := by
  obtain ⟨hcontexts, hbound, -, ⟨input, hu⟩, -⟩ := Act.execution?_eq_some he' hturning.turns
  have hlt := (hr.areIn u hturning.within e'.frame.context
    (by rw [hcontexts]; exact List.mem_cons_self)).scope
  exact h.tasks u hturning.within _ _ (by rw [hu]; exact ⟨rfl, rfl⟩) e he
    (hsurrounds.of_evolves hbound hlt)

/-- What has acted goes on inside the same executions, inside one that begins now, or nowhere. -/
theorem IsNested.tasks_turned {scope : ScopeId} {p : Plan} (hp : u'.RunsIn scope p) {e : Execution}
    (he : e ∈ executions setting (acts ++ [⟨u, r.state, u', r'.state⟩]))
    (hsurrounds : e.Surrounds r'.state scope) : sizeOf p < sizeOf e.frame.plan := by
  have hcount : e ∈ executions setting acts → ∀ d ∈ e.generation.contexts,
      d.scope < r.state.scopes.count := fun he d hd =>
    Nat.lt_of_lt_of_le (e.generates.sites d hd).2.1 (hr.begun e he).2.2.grows.scopes
  rcases hturning.turns.runsIn hp with ⟨q, hq, hle⟩ | ⟨e', he', ⟨c, hc, rfl⟩, hlt⟩ |
    ⟨hnone, hnew, hpath⟩
  · exact Nat.lt_of_le_of_lt hle (h.tasks_after hr hturning hturning.within hq he hsurrounds)
  · rcases mem_executions_concat.mp he with he | he
    · -- around the scope of a solution are the execution itself and what is around it
      obtain ⟨-, hbound, hbegan, -⟩ := Act.execution?_eq_some he' hturning.turns
      obtain ⟨d, hd, hmem⟩ := hsurrounds
      have hbefore := Nat.lt_of_lt_of_le (hcount he d hd) hbound.grows.scopes
      rw [hbegan] at hmem
      exact Nat.lt_trans hlt
        (h.begins hr hturning he he' ⟨d, hd, e'.mem_path_of_lt hc hmem hbefore⟩)
    · obtain rfl := Option.some.inj (he.symm.trans he')
      exact hlt
  · rcases mem_executions_concat.mp he with he | he
    · obtain ⟨d, hd, hmem⟩ := hsurrounds
      rw [hpath] at hmem
      exact absurd (List.mem_singleton.mp hmem)
        (Nat.ne_of_lt (Nat.lt_of_lt_of_le (hcount he d hd) hnew))
    · rw [hnone] at he
      cases he

/-- An execution lies in no later one, and in none that begins with it. -/
theorem IsNested.begun_after {e e' : Execution}
    (he' : e' ∈ executions setting (acts ++ [⟨u, r.state, u', r'.state⟩]))
    (he : e ∈ executions setting (acts ++ [⟨u, r.state, u', r'.state⟩]))
    (hsound : e'.state.IsSound) (hin : e'.frame.context.IsIn e'.state)
    (hsurrounds : e.Surrounds e'.state e'.frame.context.scope) :
    sizeOf e'.frame.plan < sizeOf e.frame.plan := by
  rcases mem_executions_concat.mp he' with hold' | hnew'
  · rcases mem_executions_concat.mp he with hold | hnew
    · exact h.begun e' hold' e hold hsurrounds
    · have hbound := (Act.execution?_eq_some hnew hturning.turns).2.1
      have hgrown := ((e'.state_evolves hin).trans (hr.begun e' hold').2.2).grows.scopes
      exact absurd hsurrounds (e.not_surrounds hsound hin.scope
        (Nat.lt_of_lt_of_le hin.scope (Nat.le_trans hgrown hbound.grows.scopes)))
  · rcases mem_executions_concat.mp he with hold | hnew
    · exact h.begins hr hturning hold hnew' hsurrounds
    · obtain rfl := Option.some.inj (hnew.symm.trans hnew')
      exact absurd hsurrounds (e.not_surrounds hsound hin.scope hin.scope)

end Turning

theorem IsNested.step (h : IsNested setting acts r) (hr : History setting acts r)
    (hs : r.step setting move = some r') :
    IsNested setting (acts ++ (r.act? setting move).toList) r' := by
  have hstep := hr.step hs
  obtain ⟨-, ⟨hact, htask, hevolves⟩ | ⟨m, u, u', hact, hturning⟩⟩ := step_cases hr.areIn hs
  · rw [hact, Option.toList_none, List.append_nil]
    refine ⟨fun u hu scope p hp e he hsurrounds => ?_, h.begun⟩
    obtain ⟨c, hc, rfl⟩ := hp.exists_context
    rw [htask] at hu
    exact h.tasks u hu _ p hp e he (hsurrounds.of_evolves hevolves (hr.areIn u hu c hc).scope)
  · rw [hact, Option.toList_some] at hstep ⊢
    refine ⟨hturning.forall_within (fun v hv scope p hp e he => h.tasks_after hr hturning hv hp he)
      (fun v index inner hv scope p hp => ?_)
      (fun scope p hp e he => h.tasks_turned hr hturning hp he) fun v hb scope p hp e he => ?_,
      fun e' he' e he hsurrounds => ?_⟩
    · exact hv scope p ((Task.runsIn_replaceInside index inner v).mp hp)
    · exact h.tasks_after hr hturning hturning.within (hb.runsIn hp) he
    · obtain ⟨hsound, hin, -⟩ := hstep.begun e' he'
      exact h.begun_after hr hturning he' he hsound hin hsurrounds

/-- The fork of a form whose calls pass no `BNODE` never gets a label. -/
def IsUntouched (setting : Setting) (acts : List Act) (r : Run) : Prop :=
  ∀ e ∈ executions setting acts, e.frame.plan.elements.any PlanNode.passesBnode = false →
    (∀ label, r.state.scopes.minted.lookup (e.state.scopes.count, label) = none) ∧
    ∀ u : Task, u.Within r.task → e.state.scopes.count ∉ u.mintScopes

theorem IsUntouched.step (h : IsUntouched setting acts r) (hr : History setting acts r)
    (hs : r.step setting move = some r') :
    IsUntouched setting (acts ++ (r.act? setting move).toList) r' := by
  obtain ⟨-, ⟨hact, htask, hevolves⟩ | ⟨m, u, u', hact, hturning⟩⟩ := step_cases hr.areIn hs
  · rw [hact, Option.toList_none, List.append_nil]
    intro e he hpure
    obtain ⟨hminted, htasks⟩ := h e he hpure
    exact ⟨fun label => by rw [hevolves.minted_eq id label, hminted], htask ▸ htasks⟩
  · rw [hact, Option.toList_some]
    intro e he hpure
    have hcount : ∀ v : Task, v.Within r.task → ∀ scope ∈ v.mintScopes,
        scope < r.state.scopes.count := by
      intro v hv scope hscope
      obtain ⟨c, hc, rfl⟩ := Task.exists_context_of_mintScopes hscope
      exact (hr.areIn v hv c hc).scope
    have hreplace : ∀ (v : Task) (index : Nat) (inner : Task),
        e.state.scopes.count ∉ v.mintScopes →
          e.state.scopes.count ∉ (Task.replaceInside index inner v).mintScopes := by
      intro v index inner hv
      rwa [Task.mintScopes_replaceInside]
    rcases mem_executions_concat.mp he with he | he
    · obtain ⟨hminted, htasks⟩ := h e he hpure
      have hu := htasks u hturning.within
      refine ⟨fun label => by rw [hturning.evolves.minted_eq hu label, hminted],
        hturning.forall_within htasks hreplace (fun hmem => ?_)
          fun v hb hmem => hu (hb.mintScopes hmem)⟩
      rcases hturning.turns.mintScopes _ hmem with hold | hnew
      · exact hu hold
      · have hbegan := (hr.begun e he).2.2.grows.scopes
        rw [e.generates.count] at hbegan
        omega
    · obtain ⟨-, hbound, hbegan, -, hu'⟩ := Act.execution?_eq_some he hturning.turns
      have hle := hbound.grows.scopes
      refine ⟨fun label => ?_,
        hturning.forall_within (fun v hv hmem => ?_) hreplace ?_ fun v hb hmem => ?_⟩
      · rw [hbegan, e.generates.minted]
        refine Option.eq_none_iff_forall_ne_some.mpr fun node hnode => ?_
        exact Nat.lt_irrefl _ ((hr.sound.evolves hbound).minted _ (mem_of_lookup hnode))
      · exact Nat.not_lt.mpr hle (hcount v hv _ hmem)
      · rw [hu', Task.mintScopes, hpure]
        intro hmem
        rcases List.mem_append.mp hmem with hmem | hmem
        · obtain ⟨c, hc, heq⟩ := List.mem_map.mp hmem
          exact Nat.ne_of_gt (e.generates.sites c hc).1 heq
        · cases hmem
      · exact Nat.not_lt.mpr hle (hcount u hturning.within _ (hb.mintScopes hmem))

/-! ### Placeholders -/

section Labels

variable {e e' : Execution} {w : Writeout} {c : Context} {label : String} {node : BlankNode}
  (h : History setting acts r) (he : e ∈ executions setting acts) (hw : w ∈ e.writeouts acts)

include h he hw

/-- A label that no scope above that of a solution knows stands for a node of the solution's own. -/
theorem IsUntouched.label?_eq (hu : IsUntouched setting acts r)
    (hpure : e.frame.plan.elements.any PlanNode.passesBnode = false)
    (hfree : e.frame.context.label? w.state label = none) (hc : c ∈ e.generation.contexts) :
    c.label? w.after label = w.after.scopes.minted.lookup (c.scope, label) := by
  obtain ⟨hmem, heq, hbefore, hafter⟩ := h.of_mem_writeouts he hw
  obtain ⟨hsound, hin, -⟩ := h.begun e he
  have hfork : w.after.scopes.minted.lookup (e.state.scopes.count, label) = none :=
    Option.eq_none_iff_forall_ne_some.mpr fun node hnode => by
      have := hafter.extends_scopes _ node hnode
      rw [(hu e he hpure).1 label] at this
      cases this
  have hpath : w.state.scopes.path e.frame.context.scope =
      e.state.scopes.path e.frame.context.scope :=
    ((e.state_evolves hin).trans hbefore).path hin.scope
  have habove : (e.state.scopes.path e.frame.context.scope).findSome?
      (fun a => w.after.scopes.minted.lookup (a, label)) = none := by
    rw [Context.label?, Scopes.node?, hpath, List.findSome?_eq_none_iff] at hfree
    refine List.findSome?_eq_none_iff.mpr fun a ha => ?_
    rw [(h.writeout_evolves hmem).minted_eq (fun hmint => ?_) label, hfree a ha]
    -- the scopes of the solutions are newer than those of the context
    obtain ⟨d, hd, rfl⟩ := List.mem_map.mp (show a ∈ w.generation.contexts.map _ from hmint)
    rw [heq] at hd
    exact hsound.not_mem_path hin.scope (Nat.lt_trans hin.scope (e.generates.sites d hd).1) ha
  rw [Context.label?, Scopes.node?, h.path_after he hw hc, (e.generates.sites c hc).2.2,
    List.findSome?_cons, List.findSome?_cons, hfork, habove]
  cases w.after.scopes.minted.lookup (c.scope, label) <;> rfl

/-- A node that some scope has for a label lies in no other execution of the same plan. -/
theorem IsNested.label?_ne (hn : IsNested setting acts r) (he' : e' ∈ executions setting acts)
    (hne : e' ≠ e) (hplan : e'.frame.plan = e.frame.plan) {d : Context}
    (hd : d ∈ e'.generation.contexts) {label' : String}
    (hnode : r.state.scopes.minted.lookup (d.scope, label') = some node)
    (hc : c ∈ e.generation.contexts) : c.label? w.after label ≠ some node := by
  intro heq
  obtain ⟨-, -, -, hafter⟩ := h.of_mem_writeouts he hw
  obtain ⟨hsound, hin, -⟩ := h.begun e he
  rw [Context.label?, Scopes.node?, h.path_after he hw hc] at heq
  obtain ⟨a, ha, hlookup⟩ := List.exists_of_findSome?_eq_some heq
  obtain ⟨rfl, -⟩ := Prod.mk.inj (h.sound.eq_of_minted (hafter.extends_scopes _ _ hlookup) hnode)
  have hd' := (e'.generates.sites d hd).1
  have hc' := (e.generates.sites c hc).2.1
  rcases h.began_before_or he he' hne.symm with hb | hb
  · -- its scope is newer than all scopes there
    exact (h.isSound_began he).not_mem_path hc'
      (Nat.lt_trans (Nat.lt_of_lt_of_le hc' hb.grows.scopes) hd') ha
  · have hlt := Nat.lt_of_lt_of_le (e'.generates.sites d hd).2.1 hb.grows.scopes
    have hsmaller := hn.begun e he e' he' ⟨d, hd, e.mem_path_of_lt hc ha hlt⟩
    rw [hplan] at hsmaller
    exact Nat.lt_irrefl _ hsmaller

end Labels

/-- **Placeholders are shared within a solution and fresh across solutions.**  Take any run, and in
it an execution of a plan none of whose expressions calls `BNODE`, in a context whose scope and the
scopes above know none of the plan's labels whenever the execution writes triples.  It writes the
elements of its plan from the first one on, and all of them by the end of the run.  What it writes for
an element are the instances of its templates, where every label that is asked for in a solution
stands for a node.  Two of these nodes, of whatever elements, solutions and labels, are equal exactly
if the solution and the label are; and none of them stands for a placeholder in another execution of
the same plan. -/
theorem placeholders_fresh {state : RunState} (hstate : state.IsSound) (limit : Nat) (plan : Plan)
    (input : Sequence) {moves : List RunMove}
    (hreplay : (start (state.renew limit) plan input).replay setting moves = some r)
    (hacts : (start (state.renew limit) plan input).acts setting moves = acts)
    {e : Execution} (he : e ∈ executions setting acts) (hplan : e.frame.plan.callsBnode = false)
    (hfree : ∀ w ∈ e.writeouts acts, ∀ label ∈ e.frame.plan.labels,
      e.frame.context.label? w.state label = none) :
    (∃ rest, (e.writeouts acts).map (·.plan) ++ rest = PlanNode.triplesOf e.frame.plan.elements ∧
      (r.isOver = true → rest = [])) ∧
    (∀ w ∈ e.writeouts acts, w.generation = e.generation ∧ w.calls = w.triples.map .triple ∧
      ∀ (i : Nat) (c : Context) (u : Solution), e.generation.sites[i]? = some (c, u) →
        ∀ label ∈ w.plan.askedIn (c.label? w.after) u i, label ∈ e.frame.plan.labels ∧
          ∃ node, e.placeholder? w i label = some node) ∧
    ∀ w ∈ e.writeouts acts, ∀ i, ∀ label ∈ e.frame.plan.labels, ∀ node,
      e.placeholder? w i label = some node →
        (∀ w' ∈ e.writeouts acts, ∀ j, ∀ label' ∈ e.frame.plan.labels, ∀ node',
          e.placeholder? w' j label' = some node' → (node = node' ↔ i = j ∧ label = label')) ∧
        ∀ e' ∈ executions setting acts, e' ≠ e → e'.frame.plan = e.frame.plan →
          ∀ w' ∈ e'.writeouts acts, ∀ j label', e'.placeholder? w' j label' ≠ some node := by
  obtain ⟨hr, htracks, hlists⟩ := tracked hstate limit plan input hreplay hacts
  obtain ⟨-, hn, hu⟩ : History setting acts r ∧ IsNested setting acts r ∧
      IsUntouched setting acts r := by
    rw [← hacts]
    refine acts_induction (P := fun acts r => History setting acts r ∧ IsNested setting acts r ∧
      IsUntouched setting acts r) (fun acts r move r' h hs => ?_) [] _ ?_ hreplay
    · obtain ⟨hr, hn, hu⟩ := h
      exact ⟨hr.step hs, hn.step hr hs, hu.step hr hs⟩
    · exact ⟨history_start hstate limit plan input, ⟨fun _ _ _ _ _ _ he => (nomatch he),
        fun _ he => (nomatch he)⟩, fun _ he => (nomatch he)⟩
  obtain ⟨rest, hplans, hover⟩ := htracks.elements_written he
  have hpure := Plan.any_passesBnode hplan
  -- the node of a placeholder was minted for the label in the scope of the solution
  have hminted : ∀ w ∈ e.writeouts acts, ∀ i, ∀ label ∈ e.frame.plan.labels, ∀ node,
      e.placeholder? w i label = some node → ∃ c ∈ e.generation.contexts,
        c.scope = e.state.scopes.count + 1 + i ∧
          r.state.scopes.minted.lookup (c.scope, label) = some node := by
    intro w hw i label hlabel node hnode
    obtain ⟨c, hi, hnode⟩ := Option.bind_eq_some_iff.mp hnode
    have hc := List.mem_of_getElem? hi
    rw [hu.label?_eq hr he hw hpure (hfree w hw label hlabel) hc] at hnode
    exact ⟨c, hc, (e.scope_of_getElem? hi).1,
      (hr.of_mem_writeouts he hw).2.2.2.extends_scopes _ _ hnode⟩
  refine ⟨⟨rest, hplans, hover⟩, fun w hw => ?_, fun w hw i label hlabel node hnode => ⟨?_, ?_⟩⟩
  · obtain ⟨hmem, heq, -⟩ := hr.of_mem_writeouts he hw
    refine ⟨heq, hr.calls_eq hmem, fun i c u hi label hasked => ⟨?_, ?_⟩⟩
    · have hplan : w.plan ∈ PlanNode.triplesOf e.frame.plan.elements :=
        hplans ▸ List.mem_append_left _ (List.mem_map_of_mem hw)
      exact List.mem_flatMap.mpr ⟨w.plan, hplan, w.plan.askedIn_subset _ u i hasked⟩
    · obtain ⟨node, hnode⟩ := hlists.exists_label hr he hw (heq ▸ hi) hasked
      obtain ⟨hc, -⟩ := List.getElem?_zip_eq_some.mp hi
      exact ⟨node, by rw [Execution.placeholder?, hc]; exact hnode⟩
  · intro w' hw' j label' hlabel' node' hnode'
    obtain ⟨c, -, hscope, hlookup⟩ := hminted w hw i label hlabel node hnode
    obtain ⟨d, -, hscope', hlookup'⟩ := hminted w' hw' j label' hlabel' node' hnode'
    constructor
    · rintro rfl
      obtain ⟨hsame, rfl⟩ := Prod.mk.inj (hr.sound.eq_of_minted hlookup hlookup')
      exact ⟨Nat.add_left_cancel (hscope.symm.trans (hsame.trans hscope')), rfl⟩
    · rintro ⟨rfl, rfl⟩
      rw [hscope] at hlookup
      rw [hscope'] at hlookup'
      exact Option.some.inj (hlookup.symm.trans hlookup')
  · intro e' he' hne hsame w' hw' j label' hnode'
    obtain ⟨c, hc, -, hlookup⟩ := hminted w hw i label hlabel node hnode
    obtain ⟨d, hj, hnode'⟩ := Option.bind_eq_some_iff.mp hnode'
    exact hn.label?_ne hr he' hw' he hne.symm hsame.symm hc hlookup (List.mem_of_getElem? hj) hnode'

/-- A plan of a form alone. -/
def formPlan (elements : List PlanNode) : Plan :=
  ⟨none, none, none, [], [], none, [], .generate elements⟩

/-- A triple of a placeholder and an IRI. -/
def labelled (label predicate : String) : PlanNode :=
  .triples ⟨[⟨.blank ⟨label⟩, .iri ⟨predicate⟩, .iri ⟨"urn:o"⟩⟩], []⟩

/-- Some moves of the part of a task that is reached by some indices. -/
def movesAt (path : List Nat) (moves : List Move) : List RunMove :=
  moves.map fun move => .work (path.foldr Move.inside move)

/-- A plan that uses a label in front of a query inside it and behind it; so does the query. -/
def sharingPlan : Plan :=
  formPlan [labelled "l" "urn:p", .plan (formPlan [labelled "l" "urn:q"]), labelled "l" "urn:r"]

/-- The moves of its run for two solutions. -/
def sharingMoves : List RunMove :=
  movesAt [] [.here, .here, .here, .here] ++ movesAt [0] [.here, .here, .here, .here] ++
    movesAt [1] [.here, .here, .here, .here] ++ movesAt [] [.here, .here, .here]

/-- The execution of that plan itself. -/
theorem sharing_placeholders_fresh :
    ∃ r e, (start ((RunState.start 1).renew 1) sharingPlan (.ofLists [] [.empty, .empty])).replay
        bareSetting sharingMoves = some r ∧ r.isOver = true ∧
      e ∈ executions bareSetting ((start ((RunState.start 1).renew 1) sharingPlan
        (.ofLists [] [.empty, .empty])).acts bareSetting sharingMoves) ∧
      ∃ w ∈ e.writeouts ((start ((RunState.start 1).renew 1) sharingPlan
          (.ofLists [] [.empty, .empty])).acts bareSetting sharingMoves),
        ∃ w' ∈ e.writeouts ((start ((RunState.start 1).renew 1) sharingPlan
            (.ofLists [] [.empty, .empty])).acts bareSetting sharingMoves),
          ∃ node other, e.placeholder? w 0 "l" = some node ∧ e.placeholder? w' 0 "l" = some node ∧
            e.placeholder? w' 1 "l" = some other ∧ node ≠ other := by
  let acts := (start ((RunState.start 1).renew 1) sharingPlan
    (.ofLists [] [.empty, .empty])).acts bareSetting sharingMoves
  have hrun : ((start ((RunState.start 1).renew 1) sharingPlan
      (.ofLists [] [.empty, .empty])).replay bareSetting sharingMoves).any (·.isOver) = true := by
    decide +kernel
  obtain ⟨r, hr, hover⟩ := (Option.any_eq_true _ _).mp hrun
  have hfound : (executions bareSetting acts).any (fun e =>
      !e.frame.plan.callsBnode && e.frame.plan.labels.contains "l" &&
        ((e.writeouts acts).all fun w => e.frame.plan.labels.all fun label =>
          (e.frame.context.label? w.state label).isNone) &&
        (e.writeouts acts).any fun w => (e.placeholder? w 0 "l").isSome &&
          (e.writeouts acts).any fun w' => (e.placeholder? w' 0 "l").isSome &&
            (e.placeholder? w' 1 "l").isSome) = true := by
    decide +kernel
  obtain ⟨e, he, hfound⟩ := List.any_eq_true.mp hfound
  simp only [Bool.and_eq_true, Bool.not_eq_true', List.contains_iff_mem, List.all_eq_true,
    List.any_eq_true, Option.isNone_iff_eq_none, Option.isSome_iff_exists] at hfound
  obtain ⟨⟨⟨hplan, hlabel⟩, hfree⟩, w, hw, ⟨node, hnode⟩, w', hw', ⟨same, hsame⟩, other, hother⟩ :=
    hfound
  have hfresh := (placeholders_fresh (RunState.isSound_start 1) 1 _ _ hr rfl he hplan hfree).2.2 w
    hw 0 "l" hlabel node hnode
  obtain rfl := (hfresh.1 w' hw' 0 "l" hlabel same hsame).mpr ⟨rfl, rfl⟩
  refine ⟨r, e, hr, hover, he, w, hw, w', hw', node, other, hnode, hsame, hother, fun heq => ?_⟩
  exact absurd ((hfresh.1 w' hw' 1 "l" hlabel other hother).mp heq).1 Nat.zero_ne_one

/-- A plan of an iterator, perhaps a binding, and a form. -/
def iteratorPlan (name v : String) (more elements : List PlanNode) : Plan :=
  ⟨none, none, none, [], .clause (.iterator ⟨name⟩ [] [⟨v⟩]) :: more, none, [], .generate elements⟩

/-- A setting with iterator functions that tell nothing, two batches, and a batch of two tuples. -/
def lettersSetting : Setting :=
  { bareSetting with
    functions := FunctionRegistry.empty.withScripts [
      (⟨"urn:none"⟩, .silent),
      (⟨"urn:letters"⟩, .batches [[[some (.ofText "a")]], [[some (.ofText "b")]]] .finished),
      (⟨"urn:pair"⟩, .batches [[[some (.ofText "one")], [some (.ofText "two")]]] .finished)] [] }

/-- A plan for two solutions that waits for a query inside it before it uses its label. -/
def pairPlan : Plan :=
  iteratorPlan "urn:pair" "y" [] [.plan (iteratorPlan "urn:none" "z" [] []), labelled "l" "urn:p"]

/-- A plan that runs the one above in two batches, the second of which calls `BNODE` first. -/
def lettersPlan : Plan :=
  iteratorPlan "urn:letters" "x" [.clause (.bind (.conditional
      (.binary .equal (.var ⟨"x"⟩) (.literal (.simple "b")))
      (.call (.builtin .bnode) [.literal (.simple "l")]) (.literal (.simple "none"))) ⟨"n"⟩)]
    [.plan pairPlan]

/-- Its run up to the triples of the first batch, which waits while the second one makes its
binding. -/
def lettersMoves : List RunMove :=
  movesAt [] [.here, .item 0, .here] ++ movesAt [0] [.here, .here, .here, .here] ++
  movesAt [0, 0] [.here, .item 0, .here] ++ movesAt [0, 0, 0] [.here, .here, .here] ++
  movesAt [0, 0, 0, 0] [.here] ++ movesAt [0, 0, 0, 1] [.here] ++ movesAt [] [.item 0, .here] ++
  movesAt [1] [.here] ++ movesAt [0, 0, 0, 0] [.item 0, .here, .here, .here] ++
  movesAt [0, 0, 0, 1] [.item 0, .here, .here, .here] ++ movesAt [0, 0, 0] [.here, .here]

/-- It is not enough that the scopes above know none of the labels when an execution begins: while it
waits for a query inside it, another batch may call `BNODE` in the scope that both have above them,
and then the solutions share the node. -/
theorem batches_merge_placeholders :
    ∃ r, (start ((RunState.start 1).renew 1) lettersPlan .unit).replay lettersSetting
        lettersMoves = some r ∧
      ∃ acts, (start ((RunState.start 1).renew 1) lettersPlan .unit).acts lettersSetting
          lettersMoves = acts ∧
        ∃ e ∈ executions lettersSetting acts, e.frame.plan.callsBnode = false ∧
          (∀ label ∈ e.frame.plan.labels, e.frame.context.label? e.began label = none) ∧
          ∃ w ∈ e.writeouts acts, ∃ label ∈ e.frame.plan.labels, ∃ node,
            e.placeholder? w 0 label = some node ∧ e.placeholder? w 1 label = some node := by
  let acts := (start ((RunState.start 1).renew 1) lettersPlan .unit).acts lettersSetting lettersMoves
  have hrun : ((start ((RunState.start 1).renew 1) lettersPlan .unit).replay lettersSetting
      lettersMoves).isSome = true := by
    decide +kernel
  obtain ⟨r, hr⟩ := Option.isSome_iff_exists.mp hrun
  have hfound : (executions lettersSetting acts).any (fun e =>
      !e.frame.plan.callsBnode &&
        (e.frame.plan.labels.all fun label => (e.frame.context.label? e.began label).isNone) &&
        (e.writeouts acts).any fun w => e.frame.plan.labels.any fun label =>
          (e.placeholder? w 0 label).isSome &&
            e.placeholder? w 0 label == e.placeholder? w 1 label) = true := by
    decide +kernel
  obtain ⟨e, he, hfound⟩ := List.any_eq_true.mp hfound
  simp only [Bool.and_eq_true, Bool.not_eq_true', List.all_eq_true, List.any_eq_true,
    Option.isNone_iff_eq_none, Option.isSome_iff_exists, beq_iff_eq] at hfound
  obtain ⟨⟨hplan, hfree⟩, w, hw, label, hlabel, ⟨node, hnode⟩, hsame⟩ := hfound
  exact ⟨r, hr, acts, rfl, e, he, hplan, hfree, w, hw, label, hlabel, node, hnode, hsame ▸ hnode⟩

end Run

end TripleLoom
