import TripleLoom.Proofs.Expression.Pure
import TripleLoom.Proofs.Run.Change

/-!
# TripleLoom.Proofs.Run.Binding — evaluation within a run

An expression that does not call `BNODE` changes nothing in the state of a run: its evaluation, and
with it a `BIND`, is a function of the solutions.
-/

namespace TripleLoom

open RunM

/-! ### Solutions -/

/-- A solution with a value for a variable, if there is one. -/
def Solution.bindValue (s : Solution) (v : Variable) : Option Term → Solution
  | some value => s.overlay v value
  | none => s

theorem Solution.get?_bindValue (s : Solution) (v w : Variable) (value : Option Term) :
    (s.bindValue v value).get? w = if w = v then value.or (s.get? v) else s.get? w := by
  cases value with
  | none =>
    by_cases h : w = v
    · simp [bindValue, h]
    · simp [bindValue, h]
  | some t => simp [bindValue, get?_overlay]

/-- The values of some expressions that do not call `BNODE`, none if one of them has none. -/
def Expression.values? (c : EvalContext) (s : Solution) (es : List Expression) :
    Option (List Term) :=
  (Eval.each id (Expression.evalEach c s es)).result?

/-! ### Contexts -/

variable (c : Context) (functions : FunctionRegistry)

theorem RunM.scopes_eq {α : Type} {m : Eval α} (h : m.IsPure) :
    RunM.scopes m.run = pure m.result? := by
  funext state
  show ((m.run state.scopes).1, { state with scopes := (m.run state.scopes).2 }) = _
  rw [h]
  rfl

/-- The evaluation of an expression that does not call `BNODE` only gives its value. -/
theorem Context.eval?_eq {e : Expression} (h : e.callsBnode = false) (s : Solution) :
    c.eval? functions e s = pure (e.value? (c.evalContext functions) s) :=
  RunM.scopes_eq (e.isPure_eval _ s h)

theorem Context.evalAll?_eq {es : List Expression} (h : Expression.callBnode es = false)
    (s : Solution) :
    c.evalAll? functions es s = pure (Expression.values? (c.evalContext functions) s es) :=
  RunM.scopes_eq (Eval.isClosed_isPure.each (Expression.isPure_evalEach _ s h))

theorem Context.bindOne_eq {e : Expression} (h : e.callsBnode = false) (v : Variable)
    (s : Solution) :
    c.bindOne functions e v s =
      pure (s.bindValue v (e.value? (c.evalContext functions) s)) := by
  rw [bindOne, c.eval?_eq functions h, pure_bind]
  cases e.value? (c.evalContext functions) s <;> rfl

theorem Context.bindAll_eq {e : Expression} (h : e.callsBnode = false) (v : Variable)
    (input : Sequence) :
    c.bindAll functions e v input = pure ((input.declare v).withSolutions
      (input.solutions.map fun s => s.bindValue v (e.value? (c.evalContext functions) s))) := by
  have hone : c.bindOne functions e v =
      fun s => pure (s.bindValue v (e.value? (c.evalContext functions) s)) :=
    funext (c.bindOne_eq functions h v)
  rw [bindAll, hone, List.mapM_pure, pure_bind]

end TripleLoom
