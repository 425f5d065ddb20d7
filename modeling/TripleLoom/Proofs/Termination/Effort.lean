import Mathlib.Order.Lattice.Nat
import TripleLoom.Proofs.Termination.Dispatch

/-!
# TripleLoom.Proofs.Termination.Effort — how much a task has still to do

Plans that only write and call do something once for every solution, so what is left of them can be
counted in advance, except for the plans that are started for their calls.  `Task.effort` is this
count.  Whatever a task does makes it smaller, unless a plan is started: that adds the effort of
the plan, but one of finitely many calls is then recorded that was not recorded before (`Spends`).
-/

namespace TripleLoom

open RunM

/-! ### The effort of plans -/

mutual

/-- The effort of running a plan for a number of solutions: a step for its clauses, one to go on to
its output, and one to begin it. -/
def Plan.effort : Nat → Plan → Nat
  | count, ⟨_, _, _, _, _, _, _, output⟩ => output.effort count + 3

/-- The effort of the elements of an output. -/
def OutputPlan.effort : Nat → OutputPlan → Nat
  | count, .generate nodes => PlanNode.efforts count nodes
  | _, .template _ | _, .rows _ => 0

/-- The effort of an element.  For a call, every solution may take three steps to find the plan of
its name, and three to find it again for the call itself. -/
def PlanNode.effort : Nat → PlanNode → Nat
  | _, .triples _ => 1
  | count, .call _ => 6 * count + 3
  | count, .plan plan => count * plan.effort 1 + 2
  | _, .clause _ | _, .select _ | _, .template _ => 0

/-- The effort of some elements. -/
def PlanNode.efforts : Nat → List PlanNode → Nat
  | _, [] => 0
  | count, node :: rest => node.effort count + PlanNode.efforts count rest

end

/-- The greatest effort of a registered plan for one solution. -/
def QueryRegistry.effort (r : QueryRegistry) : Nat :=
  r.names.toFinset.sup fun name => (r.get? name).elim 0 (Plan.effort 1)

theorem Plan.effort_eq (count : Nat) (plan : Plan) :
    plan.effort count = plan.output.effort count + 3 := by
  cases plan
  rfl

theorem QueryRegistry.effort_le {r : QueryRegistry} {name : Iri} {plan : Plan}
    (h : r.get? name = some plan) : plan.effort 1 ≤ r.effort := by
  have hsup : (r.get? name).elim 0 (Plan.effort 1) ≤ r.effort :=
    Finset.le_sup (f := fun name => (r.get? name).elim 0 (Plan.effort 1))
      (List.mem_toFinset.mpr (mem_names_of_get? h))
  rwa [h] at hsup

/-! ### The effort of tasks -/

/-- What a form has to do after the tasks below it, before it goes on to its next element. -/
def Stage.effort : Stage → Nat
  | .idle => 0
  | .nested | .calling _ => 1
  | .resolving _ calls => 3 * calls.length + 2

namespace Task

mutual

/-- How much a task has still to do, without the plans that will be started for its calls. -/
def effort : Task → Nat
  | .clauses f _ input => f.plan.effort input.size
  | .assembling f input => f.plan.output.effort input.size + 2
  | .generating g nodes stage running _ =>
    PlanNode.efforts g.input.size nodes + stage.effort + efforts running + 1
  | .entering .. => 3
  | .asking _ accept _ => if accept.isSome then 2 else 1
  | .finished _ | .fetching .. | .iterating .. | .selecting .. | .evaluating .. | .writing _
  | .nesting .. => 0

/-- How much some tasks have still to do. -/
def efforts : List Task → Nat
  | [] => 0
  | t :: rest => t.effort + efforts rest

end

theorem efforts_set {inner : Task} (inner' : Task) : ∀ (tasks : List Task) {index : Nat},
    tasks[index]? = some inner →
      efforts (tasks.set index inner') + inner.effort = efforts tasks + inner'.effort
  | [], _, h => nomatch h
  | t :: rest, 0, h => by
    obtain rfl : t = inner := Option.some.inj h
    rw [List.set_cons_zero, efforts, efforts]
    omega
  | t :: rest, index + 1, h => by
    have ih := efforts_set inner' rest h
    rw [List.set_cons_succ, efforts, efforts]
    omega

/-- Tasks of a bounded effort each. -/
theorem efforts_le {bound : Nat} : ∀ {tasks : List Task}, (∀ t ∈ tasks, t.effort ≤ bound) →
    efforts tasks ≤ tasks.length * bound
  | [], _ => Nat.zero_le _
  | t :: rest, h => by
    obtain ⟨ht, hrest⟩ := List.forall_mem_cons.mp h
    have ih := efforts_le hrest
    rw [efforts, List.length_cons, Nat.succ_mul]
    omega

end Task

/-! ### Tasks of plans that only write and call -/

variable {T : Finset Term} {r : QueryRegistry}

/-- Whether a name is looked up for a call to be made once, with arguments and a solution within a
set, or for no call at all. -/
def Purpose.CallsWithin (T : Finset Term) : Purpose → Prop
  | .resolve => True
  | .call _ arguments caller once =>
    once = true ∧ ArgumentsWithin T arguments ∧ caller.BindsWithin T

/-- Whether the calls that a form is about to make are within a set. -/
def Stage.CallsWithin (T : Finset Term) : Stage → Prop
  | .resolving call calls => ArgumentsWithin T call.arguments ∧ ∀ c ∈ calls, c.2.BindsWithin T
  | .idle | .nested | .calling _ => True

namespace Task

mutual

/-- Whether a task is about plans that only write and call, for solutions within a set, and asks
for the documents of names without a plan alone. -/
def CallsWithin (r : QueryRegistry) (T : Finset Term) : Task → Prop
  | .finished _ => True
  | .clauses f nodes input => nodes = [] ∧ f.plan.CallsWithin T ∧ input.BindsWithin T
  | .assembling f input => f.plan.CallsWithin T ∧ input.BindsWithin T
  | .generating g nodes stage running _ => PlanNode.CallWithin T nodes ∧ g.input.BindsWithin T ∧
    stage.CallsWithin T ∧ CallWithin r T running
  | .entering _ purpose => purpose.CallsWithin T
  | .asking name _ purpose => r.get? name = none ∧ purpose.CallsWithin T
  | .fetching .. | .iterating .. | .selecting .. | .evaluating .. | .writing _ | .nesting .. =>
    False

/-- Whether this holds of some tasks. -/
def CallWithin (r : QueryRegistry) (T : Finset Term) : List Task → Prop
  | [] => True
  | t :: rest => t.CallsWithin r T ∧ CallWithin r T rest

end

theorem callWithin_iff {tasks : List Task} :
    CallWithin r T tasks ↔ ∀ t ∈ tasks, t.CallsWithin r T := by
  induction tasks with
  | nil => simp [CallWithin]
  | cons t rest ih => rw [CallWithin, ih, List.forall_mem_cons]

theorem callsWithin_ofPlan {plan : Plan} {input : Sequence} (c : Context)
    (hplan : plan.CallsWithin T) (hinput : input.BindsWithin T) :
    (ofPlan c plan input).CallsWithin r T := ⟨hplan.parts.1, hplan, hinput⟩

end Task

/-! ### What an act spends -/

/-- Whether an event is the start of a plan for a call. -/
def Event.isStart : Event → Bool
  | .started .. => true
  | _ => false

/-- The number of times a plan was started for a call. -/
def RunState.startCount (s : RunState) : Nat := s.record.countP Event.isStart

theorem RunState.Change.startCount {s t : RunState} (h : Change s t) :
    t.startCount = s.startCount := by
  obtain ⟨events, hrecord, hplain⟩ := h.record
  have hnone : events.countP Event.isStart = 0 := by
    refine List.countP_eq_zero.mpr fun e he => ?_
    have := hplain e he
    cases e <;> simp [Event.isPlain, Event.isStart] at this ⊢
  rw [RunState.startCount, hrecord, List.countP_append, hnone, Nat.zero_add]
  rfl

/-- What becomes of the effort: it gets smaller, and no plan is started; or it grows by a limited
amount, and a plan is started for one of some calls, which is recorded and was not before. -/
inductive Spends (keys : Finset CallKey) (limit : Nat) (s s' : RunState) (before after : Nat) :
    Prop where
  | work (calls : s'.calls = s.calls) (starts : s'.startCount = s.startCount)
    (less : after < before)
  | start (call : CallKey) (known : call ∈ keys) (fresh : call ∉ s.calls)
    (calls : s'.calls = call :: s.calls) (starts : s'.startCount = s.startCount + 1)
    (bound : after ≤ before + limit)

/-- What a part spends, the whole spends. -/
theorem Spends.frame {keys : Finset CallKey} {limit : Nat} {s s' : RunState}
    {before after before' after' : Nat} (h : Spends keys limit s s' before after)
    (hle : after' + before ≤ before' + after) : Spends keys limit s s' before' after' := by
  cases h with
  | work calls starts less => exact .work calls starts (by omega)
  | start call known fresh calls starts bound =>
    exact .start call known fresh calls starts (by omega)

/-- What a task that is within a set does: it stays within, leaves the registry alone, and spends
some of its effort. -/
structure Proceeds (r : QueryRegistry) (T : Finset Term) (s : RunState) (before : Nat)
    (result : Task × RunState) : Prop where
  within : result.1.CallsWithin r T
  registry : result.2.registry = s.registry
  spends : Spends (r.keys T) r.effort s result.2 before result.1.effort

theorem Proceeds.of_change {s s' : RunState} {before : Nat} {t : Task} (h : s.Change s')
    (hwithin : t.CallsWithin r T) (hless : t.effort < before) :
    Proceeds r T s before (t, s') :=
  ⟨hwithin, h.registry, .work h.calls h.startCount hless⟩

theorem Proceeds.mono {s : RunState} {before before' : Nat} {result : Task × RunState}
    (h : Proceeds r T s before result) (hle : before ≤ before') : Proceeds r T s before' result :=
  ⟨h.within, h.registry, h.spends.frame (by omega)⟩

variable {setting : Setting}

/-- The plans of a registry only write and call, within a set, and the services find no further
query. -/
structure QueryRegistry.IsComplete (setting : Setting) (T : Finset Term) (r : QueryRegistry) :
    Prop where
  plans : ∀ name plan, r.get? name = some plan → plan.CallsWithin T
  missing : ∀ name accept, r.get? name = none → setting.resolver name.text accept = .missing

/-! ### Named queries -/

namespace Purpose

variable {purpose : Purpose} {name : Iri} {s : RunState}

theorem proceeds_serve (hr : r.IsComplete setting T) {plan : Plan}
    (hplan : r.get? name = some plan) (h : purpose.CallsWithin T) :
    Proceeds r T s 1 (purpose.serve setting name plan s) := by
  cases purpose with
  | resolve => exact .of_change (.refl s) trivial Nat.one_pos
  | call c arguments caller once =>
    obtain ⟨rfl, harguments, hcaller⟩ := h
    cases hu : (c.parameters setting.functions name plan arguments caller s).1 with
    | error e =>
      have hscoped := (c.isScoped_parameters setting.functions caller name plan arguments).isPlain s
      simp only [serve, bind_apply, hu]
      exact .of_change hscoped trivial Nat.one_pos
    | ok u =>
      have hwithin : u.BindsWithin T :=
        c.bindsWithin_parameters setting.functions harguments hcaller hu
      obtain ⟨scopes, hserve⟩ := serve_once hu rfl
      by_cases hc : CallKey.ofSolution name plan.signature u ∈ s.calls
      · rw [if_pos hc] at hserve
        rw [hserve]
        exact ⟨trivial, rfl, .work rfl rfl Nat.one_pos⟩
      · rw [if_neg hc] at hserve
        obtain ⟨c', hserve⟩ := hserve
        rw [hserve]
        refine ⟨?_, rfl, .start _ (QueryRegistry.ofSolution_mem_keys hplan hwithin) hc rfl ?_ ?_⟩
        · refine Task.callsWithin_ofPlan c' (hr.plans name plan hplan) fun v hv => ?_
          obtain rfl := List.mem_singleton.mp hv
          exact hwithin
        · exact List.countP_cons_of_pos rfl
        · exact (QueryRegistry.effort_le hplan).trans (Nat.le_add_left _ _)

theorem proceeds_enter (hr : r.IsComplete setting T) (hs : s.registry = r)
    (h : purpose.CallsWithin T) : Proceeds r T s 3 (purpose.enter setting name s) := by
  simp only [enter, bind_apply, get_apply]
  cases hname : s.registry.get? name with
  | some plan => exact (proceeds_serve hr (hs ▸ hname) h).mono (by omega)
  | none =>
    refine .of_change (.note s _ rfl) ⟨hs ▸ hname, h⟩ ?_
    show (if setting.queryMediaType.isSome then 2 else 1) < 3
    split <;> omega

/-- The document of a name without a plan is asked for twice at most. -/
theorem proceeds_receive (hr : r.IsComplete setting T) (hname : r.get? name = none)
    (accept : Option String) (h : purpose.CallsWithin T) :
    Proceeds r T s (Task.asking name accept purpose).effort
      (purpose.receive setting name accept s) := by
  simp only [receive, hr.missing name accept hname]
  cases accept with
  | some accept => exact .of_change (.note s _ rfl) ⟨hname, h⟩ (by simp [Task.effort])
  | none => exact .of_change (.refl s) trivial Nat.one_pos

end Purpose

end TripleLoom
