import TripleLoom.Proofs.Expression.Closure

/-!
# TripleLoom.Proofs.Expression.Pure — expressions that only have a value

Only `BNODE` reads or changes the scopes.  An expression that does not call it has a value, or
fails, whatever the scopes are, and leaves them as they are (`Expression.isPure_eval`); and what
it gives depends on the solution through the variables it mentions alone (`Expression.eval_congr`).
-/

namespace TripleLoom

namespace Eval

variable {α β : Type}

/-- What a computation gives when nothing was minted before. -/
def result? (m : Eval α) : Option α := (m.run .empty).1

/-- Whether a computation gives the same in all scopes and leaves them as they are. -/
def IsPure (m : Eval α) : Prop := ∀ scopes, m.run scopes = (m.result?, scopes)

namespace IsPure

theorem of_run {m : Eval α} (a : Option α) (h : ∀ scopes, m.run scopes = (a, scopes)) :
    m.IsPure := fun scopes => by rw [h, result?, h]

theorem pure (a : α) : IsPure (Pure.pure a : Eval α) := of_run (some a) fun _ => rfl

theorem ofOption (a : Option α) : IsPure (Eval.ofOption a) := of_run a fun _ => rfl

theorem bind {m : Eval α} {f : α → Eval β} (hm : m.IsPure) (hf : ∀ a, (f a).IsPure) :
    (m >>= f).IsPure := by
  cases hr : m.result? with
  | none => exact of_run none fun scopes => by rw [run_bind, hm, hr]
  | some a => exact of_run (f a).result? fun scopes => by rw [run_bind, hm, hr]; exact hf a scopes

theorem attempt {m : Eval α} (hm : m.IsPure) : (Eval.attempt m).IsPure :=
  of_run (some m.result?) fun scopes => by rw [run_attempt, hm]

theorem orElse {m n : Eval α} (hm : m.IsPure) (hn : n.IsPure) : (m <|> n).IsPure := by
  cases hr : m.result? with
  | none => exact of_run n.result? fun scopes => by rw [run_orElse, hm, hr]; exact hn scopes
  | some a => exact of_run (some a) fun scopes => by rw [run_orElse, hm, hr]

end IsPure

theorem isClosed_isPure : IsClosed IsPure := ⟨.pure, .ofOption, .bind, .attempt, .orElse⟩

end Eval

/-! ### Expressions -/

mutual

/-- The variables that an expression reads. -/
def Expression.reads : Expression → List Variable
  | .iri _ | .literal _ | .exists _ => []
  | .var v | .bound v => [v]
  | .binary _ a b => a.reads ++ b.reads
  | .unary _ a => a.reads
  | .isIn needle candidates => needle.reads ++ Expression.readsAll candidates
  | .conditional condition yes no => condition.reads ++ yes.reads ++ no.reads
  | .coalesce alternatives => Expression.readsAll alternatives
  | .call _ arguments => Expression.readsAll arguments

/-- The variables that some expressions read. -/
def Expression.readsAll : List Expression → List Variable
  | [] => []
  | e :: rest => e.reads ++ Expression.readsAll rest

end

namespace Expression

variable (c : EvalContext) (s : Solution)

/-- An expression that does not call `BNODE` leaves the scopes alone. -/
theorem isPure_eval {e : Expression} (h : e.callsBnode = false) : (e.eval c s).IsPure :=
  Eval.isClosed_isPure.eval c s fun he => by simp [h] at he

theorem isPure_evalEach {es : List Expression} (h : callBnode es = false) :
    ∀ m ∈ evalEach c s es, m.IsPure :=
  Eval.isClosed_isPure.evalEach c s fun he => by simp [h] at he

variable {c s} {t : Solution}

mutual

/-- What an expression gives depends on the variables it reads. -/
theorem eval_congr : ∀ {e : Expression}, (∀ v ∈ e.reads, s.get? v = t.get? v) →
    e.eval c s = e.eval c t
  | .iri _, _ | .literal _, _ | .exists _, _ => rfl
  | .var v, h => by rw [eval, eval, h v (by simp [reads])]
  | .bound v, h => by rw [eval, eval, Solution.contains, Solution.contains, h v (by simp [reads])]
  | .binary _ a b, h => by
    rw [reads, List.forall_mem_append] at h
    rw [eval, eval, eval_congr h.1, eval_congr h.2]
  | .unary _ a, h => by rw [eval, eval, eval_congr (e := a) h]
  | .isIn needle candidates, h => by
    rw [reads, List.forall_mem_append] at h
    rw [eval, eval, eval_congr h.1, evalEach_congr h.2]
  | .conditional condition yes no, h => by
    rw [reads, List.forall_mem_append, List.forall_mem_append] at h
    rw [eval, eval, eval_congr h.1.1, eval_congr h.1.2, eval_congr h.2]
  | .coalesce alternatives, h => by
    have hall : evalEach c s alternatives = evalEach c t alternatives := evalEach_congr h
    rw [eval, eval, hall]
  | .call _ arguments, h => by
    have hall : evalEach c s arguments = evalEach c t arguments := evalEach_congr h
    rw [eval, eval, hall]

theorem evalEach_congr : ∀ {es : List Expression}, (∀ v ∈ readsAll es, s.get? v = t.get? v) →
    evalEach c s es = evalEach c t es
  | [], _ => rfl
  | e :: rest, h => by
    rw [readsAll, List.forall_mem_append] at h
    rw [evalEach, evalEach, eval_congr h.1, evalEach_congr h.2]

end

/-- The value of an expression that does not call `BNODE`. -/
def value? (c : EvalContext) (s : Solution) (e : Expression) : Option Term := (e.eval c s).result?

theorem value?_congr {e : Expression} (h : ∀ v ∈ e.reads, s.get? v = t.get? v) :
    e.value? c s = e.value? c t := by rw [value?, value?, eval_congr h]

end Expression

end TripleLoom
