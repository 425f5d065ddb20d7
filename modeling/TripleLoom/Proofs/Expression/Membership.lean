import TripleLoom.Proofs.Expression.Pure

/-!
# TripleLoom.Proofs.Expression.Membership — `IN` as a disjunction of equalities

`IN` goes through its candidates once: it stops at one that is equal and remembers whether one failed.
`||` looks at both of its operands and knows three outcomes.  What they have in common is the disjunction of
the verdicts on the candidates (`disjoin`).  The walk gives it whatever was seen before it
(`Eval.result?_membership`), a tree of `||` over equalities gives it however it is bracketed
(`Expression.IsDisjunction.result?_eval`), and so the two are one computation
(`Expression.isIn_eq_disjunction`).
-/

namespace TripleLoom

/-! ### Truth values that may be missing -/

theorem false_orMissing (a : Option Bool) : orMissing (some false) a = a := by
  rcases a with _ | _ | _ <;> rfl

theorem orMissing_assoc (a b c : Option Bool) :
    orMissing (orMissing a b) c = orMissing a (orMissing b c) := by
  rcases a with _ | _ | _ <;> rcases b with _ | _ | _ <;> rcases c with _ | _ | _ <;> rfl

/-- The disjunction of some truth values that may be missing. -/
def disjoin (verdicts : List (Option Bool)) : Option Bool := verdicts.foldr orMissing (some false)

theorem disjoin_cons (a : Option Bool) (as : List (Option Bool)) :
    disjoin (a :: as) = orMissing a (disjoin as) := rfl

theorem disjoin_singleton (a : Option Bool) : disjoin [a] = a := by
  rcases a with _ | _ | _ <;> rfl

theorem disjoin_append (as bs : List (Option Bool)) :
    disjoin (as ++ bs) = orMissing (disjoin as) (disjoin bs) := by
  induction as with
  | nil => exact (false_orMissing _).symm
  | cons a as ih => rw [List.cons_append, disjoin_cons, disjoin_cons, ih, orMissing_assoc]

/-- If all are missing, so is the disjunction. -/
theorem disjoin_eq_none {as : List (Option Bool)} (hne : as ≠ []) (h : ∀ a ∈ as, a = none) :
    disjoin as = none := by
  induction as with
  | nil => exact absurd rfl hne
  | cons a as ih =>
    rw [List.forall_mem_cons] at h
    rw [disjoin_cons, h.1]
    cases as with
    | nil => rfl
    | cons b bs => rw [ih (List.cons_ne_nil b bs) h.2]; rfl

/-! ### Computations that only have a value -/

namespace Eval

variable {α β : Type} {m n : Eval α}

/-- Two such computations that give the same are the same. -/
theorem IsPure.eq_of_result? (hm : m.IsPure) (hn : n.IsPure) (h : m.result? = n.result?) : m = n := by
  refine OptionT.ext (funext fun scopes => ?_)
  exact (hm scopes).trans (h ▸ (hn scopes).symm)

theorem result?_bind (hm : m.IsPure) (f : α → Eval β) :
    (m >>= f).result? = m.result?.bind fun a => (f a).result? := by
  rw [result?, run_bind, hm]
  cases m.result? <;> rfl

theorem result?_attempt_bind (hm : m.IsPure) (f : Option α → Eval β) :
    (attempt m >>= f).result? = (f m.result?).result? :=
  result?_bind hm.attempt f

variable {operand : Eval Term} (h : operand.IsPure)

include h

theorem result?_value : (value operand).result? = operand.result?.map .ofTerm := by
  rw [value, result?_bind h, Option.map_eq_bind]
  rfl

theorem result?_condition :
    (condition operand).result? = operand.result?.bind fun t => (Value.ofTerm t).isTrue? := by
  rw [condition, result?_bind (isClosed_isPure.value h), result?_value h, Option.bind_map]
  rfl

/-- The truth value of a computation of a truth value. -/
theorem result?_condition_of_ofBool {verdict : Option Bool} (hv : operand.result? = verdict.map .ofBool) :
    (condition operand).result? = verdict := by
  rw [result?_condition h, hv, Option.bind_map]
  rcases verdict with _ | _ | _
  · rfl
  · decide
  · decide

variable {other : Eval Term} (h' : other.IsPure)

include h'

/-- The disjunction of two conditions. -/
theorem result?_or : (BinaryOperator.or.apply operand other).result? =
    (orMissing (condition operand).result? (condition other).result?).map .ofBool := by
  rw [BinaryOperator.apply, condition?, condition?, result?_attempt_bind (isClosed_isPure.condition h),
    result?_attempt_bind (isClosed_isPure.condition h')]
  cases orMissing (condition operand).result? (condition other).result? <;> rfl

end Eval

/-! ### Verdicts -/

/-- Whether a value equals that of a candidate, missing if the candidate has none. -/
def Value.verdict? (needle : Value) (candidate : Eval Term) : Option Bool :=
  candidate.result?.map fun t => needle.equal (.ofTerm t)

namespace Eval

/-- The equality of two operands is the verdict of the one on the other. -/
theorem result?_equal {operand candidate : Eval Term} (h : operand.IsPure) (h' : candidate.IsPure) :
    (BinaryOperator.equal.apply operand candidate).result? =
      (operand.result?.bind fun t => (Value.ofTerm t).verdict? candidate).map .ofBool := by
  rw [BinaryOperator.apply, result?_bind (isClosed_isPure.value h), result?_value h]
  cases operand.result? with
  | none => rfl
  | some t =>
    show (value candidate >>= _).result? = _
    rw [result?_bind (isClosed_isPure.value h'), result?_value h']
    simp only [Value.verdict?, Option.bind_some]
    cases candidate.result? <;> rfl

/-- The walk through the candidates gives the disjunction of the verdicts on them, and a failed candidate
before them counts as one more verdict that is missing. -/
theorem result?_membership (needle : Value) (failed : Bool) {candidates : List (Eval Term)}
    (h : ∀ candidate ∈ candidates, candidate.IsPure) :
    (membership needle failed candidates).result? =
      (orMissing (if failed then none else some false)
        (disjoin (candidates.map needle.verdict?))).map .ofBool := by
  induction candidates generalizing failed with
  | nil => cases failed <;> rfl
  | cons candidate rest ih =>
    rw [List.forall_mem_cons] at h
    rw [membership, result?_attempt_bind (isClosed_isPure.value h.1), result?_value h.1, List.map_cons,
      disjoin_cons, Value.verdict?, ← orMissing_assoc]
    cases candidate.result? with
    | none =>
      rw [Option.map_none, Option.map_none]
      refine (ih true h.2).trans ?_
      cases failed <;> rfl
    | some t =>
      rw [Option.map_some, Option.map_some]
      cases hequal : needle.equal (.ofTerm t) with
      | true =>
        simp only [hequal, if_true]
        cases failed <;> rfl
      | false =>
        simp only [hequal]
        refine (ih failed h.2).trans ?_
        cases failed <;> rfl

end Eval

/-! ### Disjunctions -/

namespace Expression

/-- The disjunctions of the equalities of an expression to each of some candidates in their order, however
they are bracketed. -/
inductive IsDisjunction (needle : Expression) : List Expression → Expression → Prop where
  | single (candidate : Expression) : IsDisjunction needle [candidate] (.binary .equal needle candidate)
  | or {es fs : List Expression} {d d' : Expression} (h : IsDisjunction needle es d)
      (h' : IsDisjunction needle fs d') : IsDisjunction needle (es ++ fs) (.binary .or d d')

variable {c : EvalContext} {s : Solution} {needle d : Expression} {candidates es fs : List Expression}

theorem exists_isDisjunction (needle : Expression) (h : candidates ≠ []) :
    ∃ d, IsDisjunction needle candidates d := by
  induction candidates with
  | nil => exact absurd rfl h
  | cons e es ih =>
    cases es with
    | nil => exact ⟨_, .single e⟩
    | cons f fs =>
      obtain ⟨d, hd⟩ := ih (List.cons_ne_nil f fs)
      exact ⟨_, .or (.single e) hd⟩

theorem callBnode_append (es fs : List Expression) :
    callBnode (es ++ fs) = (callBnode es || callBnode fs) := by
  induction es with
  | nil => rfl
  | cons e es ih => rw [List.cons_append, callBnode, callBnode, ih, Bool.or_assoc]

theorem IsDisjunction.callsBnode_eq_false (h : IsDisjunction needle candidates d)
    (hn : needle.callsBnode = false) (hc : callBnode candidates = false) : d.callsBnode = false := by
  induction h with
  | single e => rwa [callsBnode, hn, Bool.false_or, ← Bool.or_false e.callsBnode]
  | or h h' ih ih' =>
    rw [callBnode_append, Bool.or_eq_false_iff] at hc
    rw [callsBnode, ih hc.1, ih' hc.2, Bool.or_false]

/-- Whether the value of the needle equals that of a candidate, missing if one of them has none. -/
def verdict? (c : EvalContext) (s : Solution) (needle candidate : Expression) : Option Bool :=
  (needle.value? c s).bind fun t => (Value.ofTerm t).verdict? (candidate.eval c s)

/-- However it is bracketed, a disjunction gives the disjunction of the verdicts on the candidates. -/
theorem IsDisjunction.result?_eval (h : IsDisjunction needle candidates d)
    (hn : needle.callsBnode = false) (hc : callBnode candidates = false) :
    (d.eval c s).result? = (disjoin (candidates.map (verdict? c s needle))).map .ofBool := by
  induction h with
  | single e =>
    have he : e.callsBnode = false := (Bool.or_eq_false_iff.mp hc).1
    rw [eval, Eval.result?_equal (isPure_eval c s hn) (isPure_eval c s he), List.map_singleton,
      disjoin_singleton]
    rfl
  | or h h' ih ih' =>
    rw [callBnode_append, Bool.or_eq_false_iff] at hc
    have hd := isPure_eval c s (h.callsBnode_eq_false hn hc.1)
    have hd' := isPure_eval c s (h'.callsBnode_eq_false hn hc.2)
    rw [eval, Eval.result?_or hd hd', Eval.result?_condition_of_ofBool hd (ih hc.1),
      Eval.result?_condition_of_ofBool hd' (ih' hc.2), List.map_append, disjoin_append]

theorem evalEach_eq_map (c : EvalContext) (s : Solution) (es : List Expression) :
    evalEach c s es = es.map (eval c s) := by
  induction es with
  | nil => rfl
  | cons e es ih => rw [evalEach, ih, List.map_cons]

/-- Membership in a list that is not empty is the disjunction of the verdicts, also if the needle has no
value: then every verdict is missing. -/
theorem result?_isIn (hn : needle.callsBnode = false) (hc : callBnode candidates = false)
    (hne : candidates ≠ []) :
    ((isIn needle candidates).eval c s).result? =
      (disjoin (candidates.map (verdict? c s needle))).map .ofBool := by
  have hpure := isPure_eval c s hn
  rw [eval, Eval.result?_bind (Eval.isClosed_isPure.value hpure), Eval.result?_value hpure]
  cases hvalue : (needle.eval c s).result? with
  | none =>
    rw [disjoin_eq_none (mt List.map_eq_nil_iff.mp hne)]
    · rfl
    · rintro _ hmem
      obtain ⟨e, -, rfl⟩ := List.mem_map.mp hmem
      rw [verdict?, value?, hvalue, Option.bind_none]
  | some t =>
    have hverdicts : verdict? c s needle = fun e => (Value.ofTerm t).verdict? (e.eval c s) := by
      funext e
      rw [verdict?, value?, hvalue, Option.bind_some]
    rw [Option.map_some, Option.bind_some, Eval.result?_membership _ _ (isPure_evalEach c s hc),
      evalEach_eq_map, List.map_map, hverdicts]
    exact congrArg _ (false_orMissing _)

/-- **`IN` is the disjunction of equalities.**  For an expression and a list of candidates that is not empty,
none of which calls `BNODE`, there are disjunctions of the equalities to the candidates, and however such a
disjunction is bracketed, evaluating it is the same as evaluating `IN`: the same value or a failure in both,
for every solution and whatever the scopes are. -/
theorem isIn_eq_disjunction (c : EvalContext) (s : Solution) (hn : needle.callsBnode = false)
    (hc : callBnode candidates = false) (hne : candidates ≠ []) :
    (∃ d, IsDisjunction needle candidates d) ∧
      ∀ d, IsDisjunction needle candidates d → (isIn needle candidates).eval c s = d.eval c s := by
  refine ⟨exists_isDisjunction needle hne, fun d hd => ?_⟩
  have hin : (isIn needle candidates).callsBnode = false := by
    rw [callsBnode, hn, hc, Bool.or_false]
  refine (isPure_eval c s hin).eq_of_result? (isPure_eval c s (hd.callsBnode_eq_false hn hc)) ?_
  rw [result?_isIn hn hc hne, hd.result?_eval hn hc]

/-- The integer of a numeral. -/
def numeral (v : String) : Expression := .literal (.typed v (.xsd "integer"))

/-- Whether the number one is among the value of an unbound variable and an integer. -/
def oneAmong (v : String) : Expression := .isIn (numeral "1") [.var ⟨"x"⟩, numeral v]

/-- The same with `||`. -/
def oneEquals (v : String) : Expression :=
  .binary .or (.binary .equal (numeral "1") (.var ⟨"x"⟩)) (.binary .equal (numeral "1") (numeral v))

/-- Although the variable is unbound, both are true of another way to write the number; of another number
both fail. -/
theorem oneAmong_isIn_eq_disjunction :
    (∀ v, (oneAmong v).eval ⟨.empty, none, 0⟩ .empty = (oneEquals v).eval ⟨.empty, none, 0⟩ .empty) ∧
      (oneAmong "01").value? ⟨.empty, none, 0⟩ .empty = some (.ofBool true) ∧
      (oneAmong "2").value? ⟨.empty, none, 0⟩ .empty = none := by
  refine ⟨fun v => ?_, by decide, by decide⟩
  have hdisjunction : IsDisjunction (numeral "1") [.var ⟨"x"⟩, numeral v] (oneEquals v) :=
    .or (.single _) (.single _)
  exact (isIn_eq_disjunction ⟨.empty, none, 0⟩ .empty rfl rfl (List.cons_ne_nil _ _)).2 _ hdisjunction

end Expression

end TripleLoom
