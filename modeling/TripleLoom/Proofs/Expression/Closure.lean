import TripleLoom.Expression.Eval

/-!
# TripleLoom.Proofs.Expression.Closure — what evaluation is put together from

Evaluation is put together from a few combinators: results and failures, one computation after the
other, the outcome of one, and one in place of another that failed.  Only `BNODE` adds something of
its own, a fresh node or a minted one.  So a property of computations that the combinators keep
holds of the evaluation of every expression if it holds of these two, or if the expression does not
call `BNODE` (`Eval.IsClosed.eval`).
-/

namespace TripleLoom

/-! ### Calls of `BNODE` -/

mutual

/-- Whether an expression calls `BNODE` where it is evaluated. -/
def Expression.callsBnode : Expression → Bool
  | .iri _ | .literal _ | .var _ | .bound _ | .exists _ => false
  | .binary _ a b => a.callsBnode || b.callsBnode
  | .unary _ a => a.callsBnode
  | .isIn needle candidates => needle.callsBnode || Expression.callBnode candidates
  | .conditional condition yes no => condition.callsBnode || yes.callsBnode || no.callsBnode
  | .coalesce alternatives => Expression.callBnode alternatives
  | .call f arguments => f == .builtin .bnode || Expression.callBnode arguments

/-- Whether some expressions call `BNODE`. -/
def Expression.callBnode : List Expression → Bool
  | [] => false
  | e :: rest => e.callsBnode || Expression.callBnode rest

end

theorem Expression.callBnode_of_mem {e : Expression} {es : List Expression} (he : e ∈ es)
    (h : e.callsBnode = true) : Expression.callBnode es = true := by
  induction es with
  | nil => cases he
  | cons a rest ih =>
    rw [callBnode, Bool.or_eq_true]
    rcases List.mem_cons.mp he with rfl | hr
    · exact .inl h
    · exact .inr (ih hr)

namespace Eval

/-! ### Combinators -/

section Run

variable {α β : Type}

theorem run_bind (m : Eval α) (f : α → Eval β) (scopes : Scopes) :
    (m >>= f).run scopes =
      match m.run scopes with
      | (some a, scopes) => (f a).run scopes
      | (none, scopes) => (none, scopes) := by
  show (match (m.run scopes).1 with
    | some a => (f a).run
    | none => pure none) (m.run scopes).2 = _
  rcases m.run scopes with ⟨_ | a, s⟩ <;> rfl

theorem run_attempt (m : Eval α) (scopes : Scopes) :
    (Eval.attempt m).run scopes = (some (m.run scopes).1, (m.run scopes).2) := rfl

theorem run_orElse (m n : Eval α) (scopes : Scopes) :
    (m <|> n).run scopes =
      match m.run scopes with
      | (some a, scopes) => (some a, scopes)
      | (none, scopes) => n.run scopes := by
  rw [OptionT.run_orElse]
  show ((m.run scopes).1.elim n.run fun a => Pure.pure (some a)) (m.run scopes).2 = _
  rcases m.run scopes with ⟨_ | a, s⟩ <;> rfl

end Run

/-- A property of computations that the combinators keep. -/
structure IsClosed (P : ∀ {α : Type}, Eval α → Prop) : Prop where
  pure : ∀ {α : Type} (a : α), P (Pure.pure a : Eval α)
  ofOption : ∀ {α : Type} (a : Option α), P (Eval.ofOption a)
  bind : ∀ {α β : Type} {m : Eval α} {f : α → Eval β}, P m → (∀ a, P (f a)) → P (m >>= f)
  attempt : ∀ {α : Type} {m : Eval α}, P m → P (Eval.attempt m)
  orElse : ∀ {α : Type} {m n : Eval α}, P m → P n → P (m <|> n)

variable {P : ∀ {α : Type}, Eval α → Prop} (hP : IsClosed P)

namespace IsClosed

include hP

theorem fail {α : Type} : P (Eval.fail : Eval α) := hP.ofOption none

theorem each {α β : Type} {f : α → Eval β} : ∀ {l : List α}, (∀ a ∈ l, P (f a)) → P (Eval.each f l)
  | [], _ => hP.pure _
  | a :: l, h => by
    have hl : P (Eval.each f l) := each fun b hb => h b (List.mem_cons_of_mem a hb)
    exact hP.bind (h a List.mem_cons_self) fun _ => hP.bind hl fun _ => hP.pure _

/-! ### Operands -/

section Operand

variable {operand : Eval Term} (h : P operand)

include h

theorem value : P (Eval.value operand) := hP.bind h fun _ => hP.pure _

theorem condition : P (Eval.condition operand) := hP.bind (hP.value h) fun _ => hP.ofOption _

theorem numeric : P (Eval.numeric operand) := by
  refine hP.bind (hP.value h) fun v => ?_
  split
  · exact hP.pure _
  · exact hP.fail

theorem integer : P (Eval.integer operand) := by
  refine hP.bind (hP.numeric h) fun n => ?_
  split
  · exact hP.pure _
  · exact hP.fail

theorem string : P (Eval.string operand) :=
  hP.bind (hP.value h) fun _ => hP.bind (hP.ofOption _) fun _ => hP.pure _

theorem simple : P (Eval.simple operand) := by
  refine hP.bind (hP.value h) fun v => ?_
  split
  · exact hP.pure _
  · exact hP.fail

theorem rounding (f : Numeric → Option Numeric) : P (Eval.rounding operand f) :=
  hP.bind (hP.numeric h) fun _ => hP.bind (hP.ofOption _) fun _ => hP.pure _

theorem test (f : Term → Bool) : P (Eval.test operand f) := hP.bind h fun _ => hP.pure _

variable {other : Eval Term} (h' : P other)

include h'

theorem searching (f : StringLiteral → List Char → Term) : P (Eval.searching operand other f) := by
  refine hP.bind (hP.string h) fun haystack => hP.bind (hP.string h') fun needle => ?_
  split
  · exact hP.pure _
  · exact hP.fail

theorem comparison (accepts : Ordering → Bool) : P (Eval.comparison operand other accepts) :=
  hP.bind (hP.value h) fun _ => hP.bind (hP.value h') fun _ =>
    hP.bind (hP.ofOption _) fun _ => hP.pure _

theorem arithmetic (f : Numeric → Numeric → Option Numeric) :
    P (Eval.arithmetic operand other f) :=
  hP.bind (hP.numeric h) fun _ => hP.bind (hP.numeric h') fun _ =>
    hP.bind (hP.ofOption _) fun _ => hP.pure _

end Operand

theorem membership (needle : Value) : ∀ (failed : Bool) {candidates : List (Eval Term)},
    (∀ c ∈ candidates, P c) → P (Eval.membership needle failed candidates)
  | failed, [], _ => by
    unfold Eval.membership
    split
    · exact hP.fail
    · exact hP.pure _
  | failed, c :: rest, h => by
    have hrest : ∀ failed, P (Eval.membership needle failed rest) := fun failed =>
      membership needle failed fun c hc => h c (List.mem_cons_of_mem _ hc)
    refine hP.bind (hP.attempt (hP.value (h c List.mem_cons_self))) fun v => ?_
    split
    · split
      · exact hP.pure _
      · exact hrest failed
    · exact hrest true

theorem firstOf : ∀ {operands : List (Eval Term)}, (∀ o ∈ operands, P o) →
    P (Eval.firstOf operands)
  | [], _ => hP.fail
  | o :: _, h =>
    hP.orElse (h o List.mem_cons_self) (firstOf fun o ho => h o (List.mem_cons_of_mem _ ho))

/-! ### Operators and functions -/

theorem applyBinary {a b : Eval Term} (ha : P a) (hb : P b) (o : BinaryOperator) :
    P (o.apply a b) := by
  have hconditions : ∀ f : Option Bool → Option Bool → Option Bool, P (do
      let a ← condition? a
      let b ← condition? b
      return Term.ofBool (← Eval.ofOption (f a b))) := fun f =>
    hP.bind (hP.attempt (hP.condition ha)) fun _ => hP.bind (hP.attempt (hP.condition hb)) fun _ =>
      hP.bind (hP.ofOption _) fun _ => hP.pure _
  cases o with
  | or | and => exact hconditions _
  | equal => exact hP.bind (hP.value ha) fun _ => hP.bind (hP.value hb) fun _ => hP.pure _
  | sameTerm => exact hP.bind ha fun _ => hP.bind hb fun _ => hP.pure _
  | greater | greaterOrEqual | less | lessOrEqual => exact hP.comparison ha hb _
  | add | subtract | multiply | divide => exact hP.arithmetic ha hb _

theorem applyUnary {a : Eval Term} (ha : P a) (o : UnaryOperator) : P (o.apply a) := by
  cases o with
  | plus | minus => exact hP.rounding ha _
  | not => exact hP.bind (hP.condition ha) fun _ => hP.pure _

end IsClosed

/-- A property that holds of making blank nodes in a scope. -/
structure Mints (P : ∀ {α : Type}, Eval α → Prop) (scope : ScopeId) : Prop where
  fresh : P (ofScopes Scopes.fresh)
  mint : ∀ label, P (ofScopes (·.mint scope label))

namespace IsClosed

include hP

theorem applyBuiltin (base : Option Iri) (scope : ScopeId) {f : Builtin}
    {operands : List (Eval Term)} (hf : f = .bnode → Mints P scope) (h : ∀ o ∈ operands, P o) :
    P (f.apply base scope operands) := by
  -- the cases follow the equations of `Builtin.apply`
  unfold Builtin.apply
  split
  case h_6 => exact hP.bind (hf rfl).fresh fun _ => hP.pure _
  case h_7 label =>
    exact hP.bind (hP.simple (h label (by simp))) fun label =>
      hP.bind ((hf rfl).mint label) fun _ => hP.pure _
  case h_12 parts =>
    exact hP.bind (hP.each fun p hp => hP.string (h p hp)) fun _ => hP.pure _
  case h_1 a | h_2 a =>
    exact hP.bind (h a (by simp)) fun _ => hP.bind (hP.ofOption _) fun _ => hP.pure _
  case h_4 a =>
    exact hP.bind (hP.value (h a (by simp))) fun _ => hP.bind (hP.ofOption _) fun _ => hP.pure _
  case h_5 a => exact hP.bind (h a (by simp)) fun _ => hP.ofOption _
  case h_8 a | h_9 a | h_10 a | h_11 a => exact hP.rounding (h a (by simp)) _
  case h_15 a | h_16 a | h_17 a | h_18 a =>
    exact hP.bind (hP.string (h a (by simp))) fun _ => hP.pure _
  case h_26 a | h_27 a | h_28 a | h_29 a => exact hP.test (h a (by simp)) _
  case h_3 a b =>
    exact hP.bind (hP.string (h a (by simp))) fun _ =>
      hP.bind (hP.string (h b (by simp))) fun _ => hP.pure _
  case h_13 a b =>
    exact hP.bind (hP.string (h a (by simp))) fun _ =>
      hP.bind (hP.integer (h b (by simp))) fun _ => hP.pure _
  case h_14 a b c =>
    exact hP.bind (hP.string (h a (by simp))) fun _ =>
      hP.bind (hP.integer (h b (by simp))) fun _ =>
        hP.bind (hP.integer (h c (by simp))) fun _ => hP.pure _
  case h_19 a b | h_20 a b | h_21 a b | h_22 a b | h_23 a b =>
    exact hP.searching (h a (by simp)) (h b (by simp)) _
  case h_24 a b =>
    refine hP.bind (hP.string (h a (by simp))) fun _ => hP.bind (h b (by simp)) fun _ => ?_
    split
    · exact hP.fail
    · exact hP.ofOption _
  case h_25 a b =>
    refine hP.bind (hP.string (h a (by simp))) fun _ =>
      hP.bind (hP.string (h b (by simp))) fun _ => ?_
    split
    · exact hP.fail
    · exact hP.ofOption _
  case h_30 => exact hP.fail

theorem callNamed (c : EvalContext) (name : Iri) {operands : List (Eval Term)}
    (h : ∀ o ∈ operands, P o) : P (c.callNamed name operands) := by
  refine hP.bind (hP.each h) fun arguments => ?_
  split
  · exact hP.ofOption _
  · split
    · exact hP.ofOption _
    · exact hP.fail

theorem applyFunction (c : EvalContext) {operands : List (Eval Term)} {f : Function}
    (hf : f = .builtin .bnode → Mints P c.scope) (h : ∀ o ∈ operands, P o) :
    P (f.apply c operands) := by
  cases f with
  | builtin f => exact hP.applyBuiltin c.base c.scope (fun he => hf (he ▸ rfl)) h
  | custom name => exact hP.callNamed c name h

end IsClosed

/-! ### Expressions -/

namespace IsClosed

variable (c : EvalContext) (s : Solution)

mutual

/-- The property holds of the evaluation of an expression, if it holds of what `BNODE` does where the
expression calls it. -/
theorem eval (hP : IsClosed P) : ∀ {e : Expression},
    (e.callsBnode = true → Mints P c.scope) → P (e.eval c s)
  | .iri _, _ | .literal _, _ | .bound _, _ => hP.pure _
  | .var _, _ => hP.ofOption _
  | .exists _, _ => hP.fail
  | .binary o a b, h =>
    hP.applyBinary (hP.eval fun ha => h (by simp [Expression.callsBnode, ha]))
      (hP.eval fun hb => h (by simp [Expression.callsBnode, hb])) o
  | .unary o a, h => hP.applyUnary (hP.eval (e := a) h) o
  | .isIn needle candidates, h =>
    hP.bind (hP.value (hP.eval fun hn => h (by simp [Expression.callsBnode, hn]))) fun _ =>
      hP.membership _ false (hP.evalEach fun hc => h (by simp [Expression.callsBnode, hc]))
  | .conditional condition yes no, h => by
    refine hP.bind (hP.condition (hP.eval fun hc => h (by simp [Expression.callsBnode, hc])))
      fun b => ?_
    split
    · exact hP.eval fun hy => h (by simp [Expression.callsBnode, hy])
    · exact hP.eval fun hn => h (by simp [Expression.callsBnode, hn])
  | .coalesce alternatives, h => hP.firstOf (hP.evalEach fun ha => h (by
    rw [Expression.callsBnode]
    exact ha))
  | .call f arguments, h =>
    hP.applyFunction c (fun hf => h (by simp [Expression.callsBnode, hf]))
      (hP.evalEach fun ha => h (by simp [Expression.callsBnode, ha]))

theorem evalEach (hP : IsClosed P) : ∀ {es : List Expression},
    (Expression.callBnode es = true → Mints P c.scope) → ∀ m ∈ Expression.evalEach c s es, P m
  | [], _ => by simp [Expression.evalEach]
  | e :: rest, h => by
    rw [Expression.evalEach]
    exact List.forall_mem_cons.mpr ⟨hP.eval fun he => h (by simp [Expression.callBnode, he]),
      hP.evalEach fun hr => h (by simp [Expression.callBnode, hr])⟩

end

end IsClosed

end Eval

end TripleLoom
