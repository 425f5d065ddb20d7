import Mathlib.Algebra.Order.BigOperators.Group.Finset
import Mathlib.Data.Finset.Option
import Mathlib.Data.Fintype.BigOperators
import TripleLoom.Proofs.Run.Calls
import TripleLoom.Proofs.Sequence.Coverage

/-!
# TripleLoom.Proofs.Termination.Dispatch — plans that only write and call

A plan without clauses, select part and bindings behind it makes no values: what it passes on to a
call is a constant of the call's arguments or what a variable of its own input is bound to.  So if
the constants and the input lie in a finite set of terms, all parameters of all calls do
(`Context.bindsWithin_parameters`), and there are only finitely many calls that the plans of a
registry can make of each other (`QueryRegistry.keys`).
-/

namespace TripleLoom

open RunM

variable {T : Finset Term}

/-! ### Values within a set -/

/-- Whether a solution binds its variables to terms of a set. -/
def Solution.BindsWithin (T : Finset Term) (s : Solution) : Prop :=
  ∀ v t, s.get? v = some t → t ∈ T

/-- Whether all solutions of a sequence bind their variables to terms of a set. -/
def Sequence.BindsWithin (T : Finset Term) (input : Sequence) : Prop :=
  ∀ s ∈ input.solutions, s.BindsWithin T

theorem Solution.bindsWithin_empty : Solution.empty.BindsWithin T := fun _ _ h => nomatch h

theorem Solution.bindsWithin_ofBindings {bindings : List (Variable × Term)}
    (h : ∀ b ∈ bindings, b.2 ∈ T) : (ofBindings bindings).BindsWithin T := by
  intro v t ht
  rw [get?_eq_lookup] at ht
  have hmem : (v, t) ∈ (ofBindings bindings).history := mem_of_lookup ht
  exact h _ (by simpa [ofBindings] using hmem)

/-! ### Plans -/

/-- Whether an expression is a constant of a set or a variable. -/
def Expression.IsArgument (T : Finset Term) : Expression → Prop
  | .iri i => .iri i ∈ T
  | .literal l => .literal l ∈ T
  | .var _ => True
  | _ => False

/-- Whether the arguments of a call are constants of a set and variables. -/
def ArgumentsWithin (T : Finset Term) (arguments : Option (List Expression)) : Prop :=
  ∀ es ∈ arguments, ∀ e ∈ es, e.IsArgument T

mutual

/-- Whether a plan, and every query nested in it, is of the `GENERATE` form, has no clauses, no
select part and no bindings behind it, and passes constants of a set and variables to calls. -/
def Plan.CallsWithin (T : Finset Term) : Plan → Prop
  | ⟨_, _, _, _, bindings, select, postSelect, output⟩ =>
    bindings = [] ∧ select = none ∧ postSelect = [] ∧ output.CallsWithin T

/-- Whether this holds of an output. -/
def OutputPlan.CallsWithin (T : Finset Term) : OutputPlan → Prop
  | .generate nodes => PlanNode.CallWithin T nodes
  | .template _ | .rows _ => False

/-- Whether this holds of an element of a form. -/
def PlanNode.CallsWithin (T : Finset Term) : PlanNode → Prop
  | .triples _ => True
  | .call call => ArgumentsWithin T call.arguments
  | .plan plan => plan.CallsWithin T
  | .clause _ | .select _ | .template _ => False

/-- Whether this holds of some elements. -/
def PlanNode.CallWithin (T : Finset Term) : List PlanNode → Prop
  | [] => True
  | node :: rest => node.CallsWithin T ∧ PlanNode.CallWithin T rest

end

theorem Plan.CallsWithin.parts {plan : Plan} (h : plan.CallsWithin T) :
    plan.bindings = [] ∧ plan.select = none ∧ plan.postSelect = [] ∧
      plan.output.CallsWithin T := by
  cases plan
  exact h

/-! ### Parameters -/

namespace Context

variable (c : Context) (functions : FunctionRegistry)

/-- An argument gives a constant of the set or what the caller's solution binds. -/
theorem mem_of_eval? {e : Expression} {caller : Solution} {s : RunState} {t : Term}
    (he : e.IsArgument T) (hcaller : caller.BindsWithin T)
    (ht : (c.eval? functions e caller s).1 = some t) : t ∈ T := by
  cases e with
  | iri i =>
    obtain rfl : Term.iri i = t := Option.some.inj ht
    exact he
  | literal l =>
    obtain rfl : Term.literal l = t := Option.some.inj ht
    exact he
  | var v => exact hcaller v t ht
  | _ => exact he.elim

theorem mem_of_bindArguments {caller : Solution} (hcaller : caller.BindsWithin T) :
    ∀ {pairs : List (Variable × Expression)} (s : RunState), (∀ p ∈ pairs, p.2.IsArgument T) →
      ∀ b ∈ (c.bindArguments functions caller pairs s).1, b.2 ∈ T
  | [], _, _, b, hb => nomatch hb
  | (v, e) :: rest, s, h, b, hb => by
    obtain ⟨he, hrest⟩ := List.forall_mem_cons.mp h
    simp only [bindArguments, bind_apply] at hb
    cases hv : (c.eval? functions e caller s).1 with
    | none =>
      rw [hv] at hb
      exact mem_of_bindArguments hcaller _ hrest b hb
    | some value =>
      rw [hv] at hb
      rcases List.mem_cons.mp hb with rfl | hb
      · exact c.mem_of_eval? functions he hcaller hv
      · exact mem_of_bindArguments hcaller _ hrest b hb

/-- The parameters of a call stay within the set. -/
theorem bindsWithin_parameters {name : Iri} {plan : Plan} {arguments : Option (List Expression)}
    {caller solution : Solution} {s : RunState} (harguments : ArgumentsWithin T arguments)
    (hcaller : caller.BindsWithin T)
    (h : (c.parameters functions name plan arguments caller s).1 = .ok solution) :
    solution.BindsWithin T := by
  rcases c.of_parameters functions name plan h with rfl | ⟨signature, es, -, rfl, rfl⟩
  · exact Solution.bindsWithin_empty
  · refine Solution.bindsWithin_ofBindings (c.mem_of_bindArguments functions hcaller s ?_)
    exact fun p hp => harguments es rfl p.2 (List.of_mem_zip hp).2

end Context

/-! ### Calls -/

/-- The calls of a name with a number of parameters within a set, each bound or unbound. -/
def CallKey.within (T : Finset Term) (name : Iri) (arity : Nat) : Finset CallKey :=
  (Fintype.piFinset fun _ : Fin arity => T.insertNone).image fun values =>
    ⟨name, List.ofFn values⟩

namespace CallKey

variable (name : Iri)

theorem ofSolution_mem_within (signature : Option (List Variable)) {s : Solution}
    (h : s.BindsWithin T) :
    ofSolution name signature s ∈ within T name (signature.getD []).length := by
  refine Finset.mem_image.mpr ⟨s.get? ∘ (signature.getD []).get, ?_, ?_⟩
  · exact Fintype.mem_piFinset.mpr fun i => Finset.mem_insertNone.mpr fun t ht => h _ t ht
  · rw [← List.map_ofFn, List.ofFn_get]
    rfl

theorem card_within_le (T : Finset Term) (arity : Nat) :
    (within T name arity).card ≤ (T.card + 1) ^ arity := by
  rw [← Finset.card_insertNone, ← Fintype.card_piFinset_const]
  exact Finset.card_image_le

end CallKey

namespace QueryRegistry

variable (r : QueryRegistry) {name : Iri} {plan : Plan}

/-- The number of parameters of the plan of a name. -/
def arity (name : Iri) : Nat := (r.get? name).elim 0 (·.parameters.length)

/-- The calls of the registered plans with parameters within a set. -/
def keys (T : Finset Term) : Finset CallKey :=
  r.names.toFinset.biUnion fun name => CallKey.within T name (r.arity name)

variable {r}

theorem mem_names_of_get? (h : r.get? name = some plan) : name ∈ r.names :=
  List.mem_map_of_mem (mem_of_lookup h)

theorem ofSolution_mem_keys (h : r.get? name = some plan) {s : Solution} (hs : s.BindsWithin T) :
    .ofSolution name plan.signature s ∈ r.keys T := by
  refine Finset.mem_biUnion.mpr ⟨name, List.mem_toFinset.mpr (mem_names_of_get? h), ?_⟩
  have harity : r.arity name = plan.parameters.length := by rw [arity, h]; rfl
  rw [harity]
  exact CallKey.ofSolution_mem_within name plan.signature hs

theorem card_keys_le (r : QueryRegistry) (T : Finset Term) :
    (r.keys T).card ≤ ∑ name ∈ r.names.toFinset, (T.card + 1) ^ r.arity name :=
  Finset.card_biUnion_le.trans (Finset.sum_le_sum fun name _ => CallKey.card_within_le name T _)

end QueryRegistry

end TripleLoom
