import TripleLoom.Proofs.Generation.Instances
import TripleLoom.Proofs.Pipeline.NestedLoops
import TripleLoom.Proofs.Run.Step

/-!
# TripleLoom.Proofs.Run.Evolution — the footprint of a task

A task evaluates and mints in the contexts it holds, makes lists for the fork of its generation, and
asks the engine for what it was to evaluate; `Task.footprint` says so, and `Task.evolves_actOn?` that
no act leaves a mark elsewhere.  A `GENERATE` form mints in the scope of its fork only to evaluate the
arguments of calls, and so not at all if none of these calls `BNODE`; and any other task mints nothing
if none of the expressions it evaluates does (`Task.FitsIn`).
-/

namespace TripleLoom

open RunM

/-! ### Expressions -/

theorem Expression.exists_of_callBnode {es : List Expression} (h : callBnode es = true) :
    ∃ e ∈ es, e.callsBnode = true := by
  by_contra hnone
  have hpure : callBnode es = false := callBnode_eq_false.mpr fun e he =>
    Bool.eq_false_iff.mpr fun hcalls => hnone ⟨e, he, hcalls⟩
  rw [hpure] at h
  cases h

/-- The expressions that an element of a plan evaluates itself. -/
def PlanNode.expressions : PlanNode → List Expression
  | .clause c => c.expressions
  | .select _ | .triples _ | .call _ | .template _ | .plan _ => []

/-- The expressions that a part of a text evaluates itself. -/
def TemplatePart.expressions : TemplatePart → List Expression
  | .expression e => [e]
  | .plan _ | .call _ => []

/-- The expressions that a text evaluates between its parts, and as the parts that come next. -/
def Writing.expressions (w : Writing) : List Expression :=
  w.plan.before.toList ++ w.plan.separator.toList ++ w.plan.after.toList ++
    ((w.current.map (·.2)).getD []).flatMap TemplatePart.expressions

/-- The arguments that a purpose evaluates. -/
def Purpose.expressions : Purpose → List Expression
  | .resolve => []
  | .call _ arguments .. => arguments.getD []

/-! ### Clauses and the select part -/

section Frames

variable {p : Footprint} {base : RunState} (setting : Setting)

theorem Fetch.keepsTo_advance (resolver : Resolver) (v : Variable) (f : Fetch) :
    KeepsTo p base (f.advance resolver v) := by
  have hfinish : ∀ (u : Solution) (permit : Nat), KeepsTo p base (Fetch.finish u permit) :=
    fun _ _ => .bind (.lifecycle _) fun _ => .pure _
  have hask : ∀ (u : Solution) (uri : String) (accept : Option String) (f : Fetch),
      KeepsTo p base (do RunM.note (.opened uri accept); return f) := fun _ _ _ _ =>
    .bind (.note fun _ _ he => nomatch he) fun _ => .pure _
  cases f with
  | waiting u uri accept =>
    refine .bind (.lifecycle _) fun acquired => ?_
    split
    · exact hask u _ _ _
    · exact .pure _
    · exact .pure _
  | asked u uri accept permit =>
    refine .bind .get fun state => ?_
    split
    · exact hfinish u permit
    · split
      · exact hfinish _ permit
      · exact hask u _ _ _
      · exact hfinish u permit
      · exact .pure _
  | done u => exact .pure _

variable {c : Context}

theorem Iteration.keepsTo_invokeAll (hc : c.IsIn base) (functions : FunctionRegistry) (name : Iri)
    (f : IteratorFunction) {arguments : List Expression}
    (h : Expression.callBnode arguments = true → p.mints c.scope) :
    ∀ (input : Nat) (solutions : List Solution) (batches : Batches Solution),
      KeepsTo p base (invokeAll c functions name f arguments input solutions batches)
  | _, [], _ => .pure _
  | input, u :: rest, batches => by
    have ih := keepsTo_invokeAll hc functions name f h (input + 1) rest
    refine .bind (c.keepsTo_evalAll? functions u hc h) fun values => ?_
    split
    · exact ih _
    · refine .bind .get fun state => .bind (.note fun _ _ he => nomatch he) fun _ => ?_
      split
      · exact ih _
      · exact .bind (ih _) fun _ => .pure _

namespace Frame

variable {f : Frame} (hf : f.context.IsIn base)

include hf

theorem keepsTo_runClauses (input : Sequence) {nodes : List PlanNode}
    (h : ∀ e ∈ nodes.flatMap PlanNode.expressions, e.callsBnode = true → p.mints f.context.scope) :
    KeepsTo p base (f.runClauses setting input nodes) := by
  unfold runClauses
  split
  · exact .bind (f.context.keepsTo_bindAll _ hf (h _ List.mem_cons_self) _ input) fun _ => .pure _
  · exact .pure _
  · next arguments _ _ =>
    have harguments : Expression.callBnode arguments = true → p.mints f.context.scope := by
      intro hany
      obtain ⟨e, he, hcalls⟩ := Expression.exists_of_callBnode hany
      exact h e (List.mem_append_left _ he) hcalls
    split
    · exact .pure _
    · refine .bind .get fun state => ?_
      split
      · exact .pure _
      · exact .bind (.bind (Iteration.keepsTo_invokeAll hf _ _ _ harguments _ _ _) fun _ => .pure _)
          fun _ => .pure _
  · exact .pure _
  · split
    · exact .pure _
    · split <;> exact .pure _
    · exact .pure _

theorem keepsTo_generate (nodes : List PlanNode) (input : Sequence) :
    KeepsTo p base (f.generate nodes input) := by
  intro s hs
  have hchild : s.Evolves p (f.context.forkFor input.size s).2 :=
    .trans (.child s (Nat.lt_of_lt_of_le hf.scope hs.scopes)) (.fork _)
  have hchildren : ∀ (n : Nat) (t : RunState) (parent : ScopeId), parent < t.scopes.count →
      t.Evolves p { t with scopes := (t.scopes.children parent n).2 } := by
    intro n
    induction n with
    | zero => exact fun t _ _ => .refl t
    | succ n ih =>
      intro t parent hp
      have hone : t.Evolves p { t with scopes := (t.scopes.child parent).2 } := .child t hp
      exact hone.trans (ih _ parent (Nat.lt_of_lt_of_le hp hone.grows.scopes))
  refine hchild.trans (hchildren input.size _ _ ?_)
  show s.scopes.ancestors.size < (s.scopes.ancestors.push _).size
  rw [Array.size_push]
  exact Nat.lt_succ_self _

theorem keepsTo_output (input : Sequence) : KeepsTo p base (f.output input) := by
  unfold output
  split
  · exact keepsTo_generate hf _ input
  · exact .pure _
  · exact .pure _
  · exact .bind (.forM fun u _ => f.context.keepsTo_write _) fun _ => .pure _

theorem keepsTo_assemble : ∀ (input : Sequence) (nodes : List PlanNode),
    (∀ e ∈ nodes.flatMap PlanNode.expressions, e.callsBnode = true → p.mints f.context.scope) →
    KeepsTo p base (f.assemble setting input nodes)
  | input, [], _ => keepsTo_output hf input
  | input, .clause (.bind e v) :: rest, h =>
    .bind (f.context.keepsTo_bindAll _ hf (h e List.mem_cons_self) v input) fun input =>
      keepsTo_assemble input rest fun e he => h e (List.mem_cons_of_mem _ he)
  | _, .clause (.iterator ..) :: _, _ | _, .clause (.source ..) :: _, _ | _, .select _ :: _, _
  | _, .triples _ :: _, _ | _, .call _ :: _, _ | _, .template _ :: _, _ | _, .plan _ :: _, _ =>
    .pure _

omit hf in
theorem keepsTo_evaluate {select : Select} {input : Sequence} (permit : Option Nat)
    (h : p.evaluates select input) : KeepsTo p base (f.evaluate setting select input permit) := by
  unfold evaluate
  split
  · exact .pure _
  · refine .bind .get fun state => .bind (.note fun _ _ he => ?_) fun _ =>
      .bind (.lifecycle _) fun _ => ?_
    · cases he
      exact h
    · split <;> exact .pure _

end Frame

/-! ### Output -/

theorem Generation.keepsTo_advance {g : Generation} (hf : g.fork.IsIn base)
    (hlists : p.lists g.fork.fork g.fork.size)
    (hc : ∀ c ∈ g.contexts, c.IsIn base ∧ p.mints c.scope) (error : Outcome)
    (nodes : List PlanNode) : KeepsTo p base (g.advance error nodes) := by
  unfold advance
  split
  · exact .pure _
  · exact .bind (TriplesPlan.settles_writeAll hf hlists _ 0 fun site hs =>
      hc _ (List.of_mem_zip hs).1).keepsTo fun _ => .pure _
  · exact .pure _
  · exact .pure _
  · exact .pure _

theorem Writing.keepsTo_advance {w : Writing} (hc : w.context.IsIn base)
    (h : ∀ e ∈ w.expressions, e.callsBnode = true → p.mints w.context.scope) :
    KeepsTo p base (w.advance setting) := by
  have htext : ∀ (e : Option Expression) (u : Solution), e.toList ⊆ w.expressions →
      KeepsTo p base (w.context.textOf setting.functions e u) := by
    refine fun e u he => w.context.keepsTo_textOf _ _ hc fun hany => ?_
    obtain ⟨e, rfl, hcalls⟩ := (Option.any_eq_true _ _).mp hany
    exact h e (he List.mem_cons_self) hcalls
  have hbetween : w.plan.before.toList ++ w.plan.separator.toList ++ w.plan.after.toList ⊆
      w.expressions := fun _ => List.mem_append_left _
  rw [List.append_subset, List.append_subset] at hbetween
  unfold advance
  split
  · exact .pure _
  · refine .bind (htext _ _ ?_) fun _ => .pure _
    split
    · exact hbetween.1.1
    · exact hbetween.1.2
  · dsimp only
    split
    · exact .bind (htext _ _ hbetween.2) fun _ => .bind (w.context.keepsTo_write _) fun _ => .pure _
    · exact .bind (.pure _) fun _ => .bind (w.context.keepsTo_write _) fun _ => .pure _
  · next e parts _ hcurrent =>
    refine .bind (htext _ _ fun e' he' => ?_) fun _ => .pure _
    rw [expressions, hcurrent]
    exact List.mem_append_right _ (List.mem_append_left _ he')
  · exact .bind .newSink fun _ => .pure _
  · split
    · exact .pure _
    · exact .bind .newSink fun _ => .pure _

/-! ### Named queries -/

theorem Document.keepsTo_toPlan (d : Document) (name : Iri) :
    KeepsTo p base (d.toPlan setting name) := by
  unfold toPlan
  split
  · exact .pure _
  · refine .bind (.note fun _ _ he => nomatch he) fun _ => ?_
    split
    · exact .pure _
    · split <;> exact .pure _

namespace Purpose

/-- The contexts in which a purpose is served. -/
def contexts : Purpose → List Context
  | .resolve => []
  | .call c .. => [c]

/-- The scopes in which serving a purpose mints labels: those of the call, if its arguments call
`BNODE`. -/
def mintScopes : Purpose → List ScopeId
  | .resolve => []
  | .call c arguments .. => if arguments.any Expression.callBnode then [c.scope] else []

variable {purpose : Purpose} (hc : ∀ c ∈ purpose.contexts, c.IsIn base)
  (h : ∀ scope ∈ purpose.mintScopes, p.mints scope) (name : Iri)

include hc h

theorem keepsTo_serve (plan : Plan) : KeepsTo p base (purpose.serve setting name plan) := by
  cases purpose with
  | resolve => exact .pure _
  | call c arguments caller once =>
    have hstart : ∀ (call : CallKey) (u : Solution) (once : Bool),
        KeepsTo p base (c.startCall call plan u once) := fun _ _ _ =>
      .bind (.note fun _ _ he => nomatch he) fun _ => .bind (.bind .root fun _ => .pure _)
        fun _ => .pure _
    refine .bind (c.keepsTo_parameters _ caller (hc c List.mem_cons_self) name plan
      fun ha => h _ ?_) fun parameters => ?_
    · rw [mintScopes, if_pos ha]
      exact List.mem_cons_self
    · split
      · exact .pure _
      · dsimp only
        split
        · exact hstart _ _ _
        · refine .bind (.recordCall _) fun isNew => ?_
          split
          · exact hstart _ _ _
          · exact .bind (.note fun _ _ he => nomatch he) fun _ => .pure _

theorem keepsTo_enter : KeepsTo p base (purpose.enter setting name) := by
  refine .bind .get fun s => ?_
  split
  · exact keepsTo_serve setting hc h name _
  · exact .bind (.note fun _ _ he => nomatch he) fun _ => .pure _

theorem keepsTo_receive (accept : Option String) :
    KeepsTo p base (purpose.receive setting name accept) := by
  unfold receive
  split
  · next document _ =>
    refine .bind (document.keepsTo_toPlan setting name) fun plan => ?_
    split
    · exact .pure _
    · exact .bind (.register name _) fun plan => keepsTo_serve setting hc h name plan
  · exact .bind (.note fun _ _ he => nomatch he) fun _ => .pure _
  · exact .pure _
  · exact .pure _

end Purpose

end Frames

/-! ### Tasks -/

/-- Whether a call has an argument that calls `BNODE`. -/
def CallPlan.passesBnode (call : CallPlan) : Bool := call.arguments.any Expression.callBnode

/-- Whether an element of a form is a call with an argument that calls `BNODE`. -/
def PlanNode.passesBnode : PlanNode → Bool
  | .call c => c.passesBnode
  | _ => false

/-- Whether calls that are still to be made have an argument that calls `BNODE`. -/
def Stage.passesBnode : Stage → Bool
  | .resolving call _ => call.passesBnode
  | _ => false

namespace Task

/-- The contexts that a task itself holds. -/
def contexts : Task → List Context
  | .finished _ => []
  | .clauses f .. | .fetching f .. | .iterating f .. | .selecting f .. | .evaluating f ..
  | .assembling f _ => [f.context]
  | .generating g .. => g.fork :: g.contexts
  | .writing w | .nesting w .. => [w.context]
  | .entering _ purpose | .asking _ _ purpose => purpose.contexts

/-- The scopes in which a task itself mints labels. -/
def mintScopes : Task → List ScopeId
  | .finished _ => []
  | .clauses f .. | .fetching f .. | .iterating f .. | .selecting f .. | .evaluating f ..
  | .assembling f _ => [f.context.scope]
  | .generating g nodes stage _ _ => g.contexts.map (·.scope) ++
      if stage.passesBnode || nodes.any PlanNode.passesBnode then [g.fork.scope] else []
  | .writing w | .nesting w .. => [w.context.scope]
  | .entering _ purpose | .asking _ _ purpose => purpose.mintScopes

/-- The generation that a task carries out. -/
def generation? : Task → Option Generation
  | .generating g .. => some g
  | _ => none

/-- What a task asks the engine to evaluate. -/
def evaluation? : Task → Option (Select × Sequence)
  | .evaluating _ select input _ => some (select, input)
  | _ => none

/-- Where a task itself leaves its mark. -/
def footprint (t : Task) : Footprint where
  mints scope := scope ∈ t.mintScopes
  lists fork size := ∃ g, t.generation? = some g ∧ g.fork.fork = fork ∧ g.fork.size = size
  evaluates select inline := t.evaluation? = some (select, inline)

/-- The expressions that a task itself evaluates. -/
def expressions : Task → List Expression
  | .clauses _ nodes _ => nodes.flatMap PlanNode.expressions
  | .assembling f _ => f.plan.postSelect.flatMap PlanNode.expressions
  | .writing w => w.expressions
  | .entering _ purpose | .asking _ _ purpose => purpose.expressions
  | .finished _ | .fetching .. | .iterating .. | .selecting .. | .evaluating .. | .generating ..
  | .nesting .. => []

/-- A footprint with room for all that a task does: in its contexts it mints labels only to evaluate
its expressions, and in the scopes of its solutions if it is a form. -/
structure FitsIn (p : Footprint) (t : Task) : Prop where
  mints : ∀ e ∈ t.expressions, e.callsBnode = true → ∀ c ∈ t.contexts, p.mints c.scope
  sites : ∀ g, t.generation? = some g → ∀ c ∈ g.contexts, p.mints c.scope
  lists : ∀ g, t.generation? = some g → p.lists g.fork.fork g.fork.size
  evaluates : ∀ select inline, t.evaluation? = some (select, inline) → p.evaluates select inline

theorem fitsIn_footprint (t : Task) : t.FitsIn t.footprint where
  mints e he hcalls c hc := by
    have hpurpose : ∀ purpose : Purpose, e ∈ purpose.expressions → c ∈ purpose.contexts →
        c.scope ∈ purpose.mintScopes := by
      intro purpose he hc
      cases purpose with
      | resolve => cases hc
      | call d arguments =>
        cases arguments with
        | none => cases he
        | some arguments =>
          rw [Purpose.mintScopes, if_pos (show Option.any _ (some arguments) = true from
            Expression.callBnode_of_mem he hcalls), List.mem_singleton.mp hc]
          exact List.mem_cons_self
    cases t with
    | clauses | assembling | writing => exact List.mem_map_of_mem hc
    | entering name purpose | asking name accept purpose => exact hpurpose purpose he hc
    | _ => cases he
  sites g hg c hc := by
    cases t with
    | generating =>
      obtain rfl := Option.some.inj hg
      exact List.mem_append_left _ (List.mem_map_of_mem hc)
    | _ => cases hg
  lists g hg := ⟨g, hg, rfl, rfl⟩
  evaluates _ _ he := he

variable (setting : Setting) {t : Task} {s s' : RunState} {p : Footprint}

theorem keepsTo_act (hc : ∀ c ∈ t.contexts, c.IsIn s) (h : t.FitsIn p) :
    KeepsTo p s (t.act setting) := by
  have hpurpose : ∀ purpose : Purpose, purpose.contexts ⊆ t.contexts →
      purpose.expressions ⊆ t.expressions → ∀ scope ∈ purpose.mintScopes, p.mints scope := by
    intro purpose hcontexts hexpressions scope hscope
    cases purpose with
    | resolve => cases hscope
    | call c arguments =>
      rw [Purpose.mintScopes] at hscope
      split at hscope
      · next hany =>
        obtain ⟨arguments, rfl, hany⟩ := (Option.any_eq_true _ _).mp hany
        obtain ⟨e, he, hcalls⟩ := Expression.exists_of_callBnode hany
        rw [List.mem_singleton.mp hscope]
        exact h.mints e (hexpressions he) hcalls c (hcontexts List.mem_cons_self)
      · cases hscope
  cases t with
  | finished o => exact .pure _
  | clauses f nodes input =>
    exact f.keepsTo_runClauses setting (hc _ List.mem_cons_self) input fun e he hcalls =>
      h.mints e he hcalls _ List.mem_cons_self
  | fetching f nodes v input fetches => exact .pure _
  | iterating f nodes i branches error =>
    refine .bind .get fun state => ?_
    split <;> exact .pure _
  | selecting f select input =>
    refine .bind (.lifecycle _) fun acquired => ?_
    split <;> exact .pure _
  | evaluating f select input permit =>
    exact f.keepsTo_evaluate setting permit (h.evaluates _ _ rfl)
  | assembling f input =>
    exact f.keepsTo_assemble setting (hc _ List.mem_cons_self) input _ fun e he hcalls =>
      h.mints e he hcalls _ List.mem_cons_self
  | generating g nodes stage running error =>
    cases stage with
    | idle =>
      exact Generation.keepsTo_advance (hc _ List.mem_cons_self) (h.lists g rfl)
        (fun c hmem => ⟨hc c (List.mem_cons_of_mem _ hmem), h.sites g rfl c hmem⟩) error nodes
    | nested | resolving | calling => exact .pure _
  | writing w =>
    exact w.keepsTo_advance setting (hc _ List.mem_cons_self) fun e he hcalls =>
      h.mints e he hcalls _ List.mem_cons_self
  | nesting w sink inner =>
    show KeepsTo _ s (w.collect sink inner.outcome)
    unfold Writing.collect
    split
    · exact .pure _
    · exact .bind .get fun _ => .pure _
  | entering name purpose =>
    exact purpose.keepsTo_enter setting hc (hpurpose purpose (fun _ h => h) fun _ h => h) name
  | asking name accept purpose =>
    exact purpose.keepsTo_receive setting hc (hpurpose purpose (fun _ h => h) fun _ h => h) name
      accept

theorem keepsTo_actItem (index : Nat) (t : Task) :
    KeepsTo p s (t.actItem setting index) := by
  unfold actItem
  split
  · split
    · exact .bind (Fetch.keepsTo_advance _ _ _) fun _ => .pure _
    · exact .pure _
  · exact .pure _
  · exact .pure _

theorem FitsIn.evolves_actOn? (hp : t.FitsIn p) {item? : Option Nat} {t' : Task}
    (h : t.actOn? setting item? s = some (t', s')) (hc : ∀ c ∈ t.contexts, c.IsIn s) :
    s.Evolves p s' := by
  unfold actOn? at h
  split at h
  · split at h
    · have := keepsTo_act setting hc hp s (.refl s)
      rwa [Option.some.inj h] at this
    · cases h
  · next index =>
    split at h
    · have := keepsTo_actItem setting (p := p) index t s (.refl s)
      rwa [Option.some.inj h] at this
    · cases h

/-- Whatever a task does stays within its footprint. -/
theorem evolves_actOn? {item? : Option Nat} {t' : Task}
    (h : t.actOn? setting item? s = some (t', s')) (hc : ∀ c ∈ t.contexts, c.IsIn s) :
    s.Evolves t.footprint s' := t.fitsIn_footprint.evolves_actOn? setting h hc

end Task

end TripleLoom
