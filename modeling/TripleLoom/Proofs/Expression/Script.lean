import TripleLoom.Proofs.Run.Keeping
import TripleLoom.Proofs.Scope.Sharing

/-!
# TripleLoom.Proofs.Expression.Script — the labels that an evaluation names

A computation does not show which labels `BNODE` was called with on the way.  A script does: it says
how a computation is put together, and `Eval.Script.named` lists the labels that it mints when it is
run, in order and with the nodes that they got.  Every expression has a script of its evaluation
(`Expression.exists_script`).  A label that was named on the way stands for its node when the
computation is over (`Eval.Script.node?_of_mem_named`), for what comes behind takes nothing back.
-/

namespace TripleLoom

namespace Eval

/-- How a computation is put together. -/
inductive Script : Type → Type 1 where
  | pure {α : Type} (a : α) : Script α
  | ofOption {α : Type} (value : Option α) : Script α
  | bind {α β : Type} (first : Script α) (next : α → Script β) : Script β
  | attempt {α : Type} (first : Script α) : Script (Option α)
  | orElse {α : Type} (first second : Script α) : Script α
  | fresh : Script BlankNode
  | mint (label : String) : Script BlankNode

namespace Script

/-- The computation of a script, which mints labels in a scope. -/
def toEval (scope : ScopeId) : {α : Type} → Script α → Eval α
  | _, .pure a => Pure.pure a
  | _, .ofOption value => Eval.ofOption value
  | _, .bind first next => first.toEval scope >>= fun a => (next a).toEval scope
  | _, .attempt first => Eval.attempt (first.toEval scope)
  | _, .orElse first second => first.toEval scope <|> second.toEval scope
  | _, .fresh => ofScopes Scopes.fresh
  | _, .mint label => ofScopes (·.mint scope label)

/-- The labels that a script mints when it is run, with their nodes. -/
def named (scope : ScopeId) : {α : Type} → Script α → Scopes → List (String × BlankNode)
  | _, .pure _, _ | _, .ofOption _, _ | _, .fresh, _ => []
  | _, .bind first next, s => first.named scope s ++
      match (first.toEval scope).run s with
      | (some a, s) => (next a).named scope s
      | (none, _) => []
  | _, .attempt first, s => first.named scope s
  | _, .orElse first second, s => first.named scope s ++
      match (first.toEval scope).run s with
      | (some _, _) => []
      | (none, s) => second.named scope s
  | _, .mint label, s => [(label, (s.mint scope label).1)]

/-- A property that the combinators keep holds of all scripts. -/
theorem toEval_of_isClosed {P : ∀ {α : Type}, Eval α → Prop} (hP : IsClosed P) {scope : ScopeId}
    (hmints : Mints P scope) : ∀ {α : Type} (script : Script α), P (script.toEval scope)
  | _, .pure a => hP.pure a
  | _, .ofOption value => hP.ofOption value
  | _, .bind first next =>
    hP.bind (toEval_of_isClosed hP hmints first) fun a => toEval_of_isClosed hP hmints (next a)
  | _, .attempt first => hP.attempt (toEval_of_isClosed hP hmints first)
  | _, .orElse first second =>
    hP.orElse (toEval_of_isClosed hP hmints first) (toEval_of_isClosed hP hmints second)
  | _, .fresh => hmints.fresh
  | _, .mint label => hmints.mint label

end Script

/-- Whether a computation has a script. -/
def HasScript (scope : ScopeId) {α : Type} (m : Eval α) : Prop :=
  ∃ script : Script α, script.toEval scope = m

theorem isClosed_hasScript (scope : ScopeId) : IsClosed (HasScript scope) where
  pure a := ⟨.pure a, rfl⟩
  ofOption value := ⟨.ofOption value, rfl⟩
  bind hm hf := by
    obtain ⟨first, rfl⟩ := hm
    choose next hnext using hf
    exact ⟨.bind first next, congrArg _ (funext hnext)⟩
  attempt hm := by
    obtain ⟨first, rfl⟩ := hm
    exact ⟨.attempt first, rfl⟩
  orElse hm hn := by
    obtain ⟨first, rfl⟩ := hm
    obtain ⟨second, rfl⟩ := hn
    exact ⟨.orElse first second, rfl⟩

theorem mints_hasScript (scope : ScopeId) : Mints (HasScript scope) scope where
  fresh := ⟨.fresh, rfl⟩
  mint label := ⟨.mint label, rfl⟩

end Eval

/-- The evaluation of every expression has a script. -/
theorem Expression.exists_script (c : EvalContext) (u : Solution) (e : Expression) :
    ∃ script : Eval.Script Term, script.toEval c.scope = e.eval c u :=
  (Eval.isClosed_hasScript c.scope).eval c u fun _ => Eval.mints_hasScript c.scope

/-! ### What was named is known -/

namespace Eval.Script

variable {α : Type} {scope : ScopeId} {s : RunState}

/-- Running a script in a scope that is there mints there at most. -/
theorem evolves (script : Script α) (hscope : scope < s.scopes.count) :
    s.Evolves .all { s with scopes := ((script.toEval scope).run s.scopes).2 } :=
  toEval_of_isClosed RunM.KeepsTo.isClosed (RunM.KeepsTo.mints trivial hscope) script s
    (.refl s)

/-- A label that was named on the way stands for its node in the end. -/
theorem node?_of_mem_named {label : String} {node : BlankNode} : ∀ {α : Type} (script : Script α)
    {s : RunState}, s.IsSound → scope < s.scopes.count →
      (label, node) ∈ script.named scope s.scopes →
      ((script.toEval scope).run s.scopes).2.node? scope label = some node
  | _, .pure _, _, _, _, hmem | _, .ofOption _, _, _, _, hmem | _, .fresh, _, _, _, hmem => nomatch hmem
  | _, .mint l, s, _, _, hmem => by
    obtain ⟨rfl, rfl⟩ := Prod.mk.inj (List.mem_singleton.mp hmem)
    exact s.scopes.node?_mint scope label
  | _, .attempt first, _, hs, hscope, hmem => node?_of_mem_named first hs hscope hmem
  | _, .bind first next, s, hs, hscope, hmem => by
    have hfirst := first.evolves hscope
    have hknown : (label, node) ∈ first.named scope s.scopes →
        ((first.toEval scope).run s.scopes).2.node? scope label = some node :=
      node?_of_mem_named first hs hscope
    rw [toEval, run_bind]
    rw [named] at hmem
    rcases hrun : (first.toEval scope).run s.scopes with ⟨_ | a, after⟩ <;>
      rw [hrun] at hmem hfirst hknown
    · exact hknown (by simpa using hmem)
    · have hscope' := Nat.lt_of_lt_of_le hscope hfirst.grows.scopes
      have hsound := hs.evolves hfirst
      rcases List.mem_append.mp hmem with hmem | hmem
      · exact (hsound.keeps ((next a).evolves hscope')).node? scope hscope' label node
          (hknown hmem)
      · exact node?_of_mem_named (next a) hsound hscope' hmem
  | _, .orElse first second, s, hs, hscope, hmem => by
    have hfirst := first.evolves hscope
    have hknown : (label, node) ∈ first.named scope s.scopes →
        ((first.toEval scope).run s.scopes).2.node? scope label = some node :=
      node?_of_mem_named first hs hscope
    rw [toEval, run_orElse]
    rw [named] at hmem
    rcases hrun : (first.toEval scope).run s.scopes with ⟨_ | a, after⟩ <;>
      rw [hrun] at hmem hfirst hknown
    · have hscope' := Nat.lt_of_lt_of_le hscope hfirst.grows.scopes
      have hsound := hs.evolves hfirst
      rcases List.mem_append.mp hmem with hmem | hmem
      · exact (hsound.keeps (second.evolves hscope')).node? scope hscope' label node
          (hknown hmem)
      · exact node?_of_mem_named second hsound hscope' hmem
    · exact hknown (by simpa using hmem)

end Eval.Script

end TripleLoom
