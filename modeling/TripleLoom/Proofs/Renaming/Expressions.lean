import TripleLoom.Proofs.Expression.Closure
import TripleLoom.Proofs.Renaming.Terms

/-!
# TripleLoom.Proofs.Renaming.Expressions — evaluation up to the names of blank nodes

An expression compares blank nodes and makes new ones, but it does not look at their names.  So if
two solutions bind the variables alike, and `BNODE` makes paired nodes in the two executions, then
the values of an expression are alike, provided that this holds of the functions that it calls
(`Eval.matches_eval`).
-/

namespace TripleLoom

open List (Forall₂)

/-- A scalar function that gives like values for like arguments. -/
def ScalarFunction.IsGeneric (p : Pairing) (f : ScalarFunction) : Prop :=
  ∀ arguments arguments', Forall₂ (Term.Like p) arguments arguments' →
    Option.Rel (Term.Like p) (f arguments) (f arguments')

theorem Value.Like.equal {p : Pairing} {v v' w w' : Value} (h : Value.Like p v v')
    (h' : Value.Like p w w') : v.equal w = v'.equal w' := by
  unfold Value.equal
  rw [h.compare h', h.sameShape h']

namespace Eval

/-- Two computations that fail alike or give related values, and leave related scopes, if they start
from related scopes. -/
def Matches {α β : Type} (S : Scopes → Scopes → Prop) (R : α → β → Prop) (m : Eval α)
    (m' : Eval β) : Prop :=
  ∀ x x', S x x' → Option.Rel R (m.run x).1 (m'.run x').1 ∧ S (m.run x).2 (m'.run x').2

variable {S : Scopes → Scopes → Prop} {p : Pairing}

/-! ### Combinators -/

namespace Matches

section Combinators

variable {α β γ δ : Type} {R : α → β → Prop} {P : γ → δ → Prop} {m : Eval α} {m' : Eval β}

theorem pure {a : α} {b : β} (h : R a b) : Matches S R (Pure.pure a) (Pure.pure b) :=
  fun _ _ hx => ⟨.some h, hx⟩

theorem ofOption {a : Option α} {b : Option β} (h : Option.Rel R a b) :
    Matches S R (Eval.ofOption a) (Eval.ofOption b) := fun _ _ hx => ⟨h, hx⟩

theorem ofOption_eq (a : Option α) : Matches S Eq (Eval.ofOption a) (Eval.ofOption a) :=
  ofOption (rel_option_refl fun _ _ => rfl)

theorem fail : Matches S R Eval.fail Eval.fail := ofOption .none

theorem bind (h : Matches S R m m') {f : α → Eval γ} {g : β → Eval δ}
    (hf : ∀ a b, R a b → Matches S P (f a) (g b)) : Matches S P (m >>= f) (m' >>= g) := by
  intro x x' hx
  obtain ⟨hvalue, hscopes⟩ := h x x' hx
  rw [run_bind, run_bind]
  generalize m.run x = r at hvalue hscopes ⊢
  generalize m'.run x' = r' at hvalue hscopes ⊢
  obtain ⟨a, y⟩ := r
  obtain ⟨b, y'⟩ := r'
  cases hvalue with
  | some hab => exact hf _ _ hab y y' hscopes
  | none => exact ⟨.none, hscopes⟩

theorem mono (h : Matches S R m m') {Q : α → β → Prop} (hR : ∀ a b, R a b → Q a b) :
    Matches S Q m m' := fun x x' hx =>
  ⟨rel_option_mono (h x x' hx).1 hR, (h x x' hx).2⟩

theorem attempt (h : Matches S R m m') :
    Matches S (Option.Rel R) (Eval.attempt m) (Eval.attempt m') := by
  intro x x' hx
  rw [run_attempt, run_attempt]
  exact ⟨.some (h x x' hx).1, (h x x' hx).2⟩

theorem orElse {n : Eval α} {n' : Eval β} (h : Matches S R m m') (h' : Matches S R n n') :
    Matches S R (m <|> n) (m' <|> n') := by
  intro x x' hx
  obtain ⟨hvalue, hscopes⟩ := h x x' hx
  rw [run_orElse, run_orElse]
  generalize m.run x = r at hvalue hscopes ⊢
  generalize m'.run x' = r' at hvalue hscopes ⊢
  obtain ⟨a, y⟩ := r
  obtain ⟨b, y'⟩ := r'
  cases hvalue with
  | some hab => exact ⟨.some hab, hscopes⟩
  | none => exact h' y y' hscopes

theorem each {l : List (Eval α)} {l' : List (Eval β)} (h : Forall₂ (Matches S R) l l')
    {f : Eval α → Eval γ} {g : Eval β → Eval δ}
    (hf : ∀ m m', Matches S R m m' → Matches S P (f m) (g m')) :
    Matches S (Forall₂ P) (Eval.each f l) (Eval.each g l') := by
  induction h with
  | nil => exact pure .nil
  | cons h _ ih =>
    exact bind (hf _ _ h) fun _ _ hab => bind ih fun _ _ hrest => pure (.cons hab hrest)

/-- A computation on equal values. -/
theorem bindEq {α : Type} {m m' : Eval α} (h : Matches S Eq m m') {f : α → Eval γ}
    {g : α → Eval δ} (hf : ∀ a, Matches S P (f a) (g a)) : Matches S P (m >>= f) (m' >>= g) :=
  h.bind fun a _ hab => hab ▸ hf a

end Combinators

/-! ### Operands -/

variable {a a' b b' : Eval Term} (ha : Matches S (Term.Like p) a a')
  (hb : Matches S (Term.Like p) b b')

include ha

theorem value : Matches S (Value.Like p) (Eval.value a) (Eval.value a') :=
  ha.bind fun _ _ h => pure h.value

theorem condition : Matches S Eq (Eval.condition a) (Eval.condition a') :=
  ha.value.bind fun v v' h => by
    rw [h.congr (f := Value.isTrue?) fun _ _ => rfl]
    exact ofOption_eq _

theorem numeric : Matches S Eq (Eval.numeric a) (Eval.numeric a') := by
  refine ha.value.bind fun v v' h => ?_
  cases h with
  | same v h =>
    split
    · exact pure rfl
    · exact fail
  | blank => exact fail

theorem integer : Matches S Eq (Eval.integer a) (Eval.integer a') := by
  refine ha.numeric.bindEq fun n => ?_
  split
  · exact pure rfl
  · exact fail

theorem string : Matches S Eq (Eval.string a) (Eval.string a') := by
  refine ha.value.bind fun v v' h => ?_
  rw [h.congr (f := Value.text?) fun _ _ => rfl, h.congr (f := Value.language?) fun _ _ => rfl]
  exact (ofOption_eq _).bindEq fun _ => pure rfl

theorem simple : Matches S Eq (Eval.simple a) (Eval.simple a') := by
  refine ha.value.bind fun v v' h => ?_
  cases h with
  | same v h =>
    split
    · exact pure rfl
    · exact fail
  | blank => exact fail

theorem rounding (f : Numeric → Option Numeric) :
    Matches S (Term.Like p) (Eval.rounding a f) (Eval.rounding a' f) :=
  ha.numeric.bindEq fun _ => (ofOption_eq _).bindEq fun _ => pure (.literal _)

theorem test {f : Term → Bool} (hf : ∀ a b, f (.blank a) = f (.blank b)) :
    Matches S (Term.Like p) (Eval.test a f) (Eval.test a' f) :=
  ha.bind fun t t' h => by
    rw [h.congr hf]
    exact pure (.literal _)

include hb

theorem searching {f : StringLiteral → List Char → Term} (hf : ∀ s n, Term.Like p (f s n) (f s n)) :
    Matches S (Term.Like p) (Eval.searching a b f) (Eval.searching a' b' f) := by
  refine ha.string.bindEq fun haystack => hb.string.bindEq fun needle => ?_
  split
  · exact pure (hf _ _)
  · exact fail

theorem comparison (accepts : Ordering → Bool) :
    Matches S (Term.Like p) (Eval.comparison a b accepts) (Eval.comparison a' b' accepts) :=
  ha.value.bind fun v v' h => hb.value.bind fun w w' h' => by
    rw [h.compare h']
    exact (ofOption_eq _).bindEq fun _ => pure (.literal _)

theorem arithmetic (f : Numeric → Numeric → Option Numeric) :
    Matches S (Term.Like p) (Eval.arithmetic a b f) (Eval.arithmetic a' b' f) :=
  ha.numeric.bindEq fun _ => hb.numeric.bindEq fun _ =>
    (ofOption_eq _).bindEq fun _ => pure (.literal _)

end Matches

namespace Matches

theorem membership {needle needle' : Value} (hn : Value.Like p needle needle')
    {candidates candidates' : List (Eval Term)} (failed : Bool)
    (h : Forall₂ (Matches S (Term.Like p)) candidates candidates') :
    Matches S (Term.Like p) (Eval.membership needle failed candidates)
      (Eval.membership needle' failed candidates') := by
  induction h generalizing failed with
  | nil =>
    cases failed with
    | true => exact fail
    | false => exact pure (.literal _)
  | cons h _ ih =>
    refine h.value.attempt.bind fun v v' hv => ?_
    cases hv with
    | none => exact ih true
    | @some v v' hv =>
      dsimp only
      rw [hn.equal hv]
      cases needle'.equal v' with
      | true => exact pure (.literal _)
      | false => exact ih failed

theorem firstOf {operands operands' : List (Eval Term)}
    (h : Forall₂ (Matches S (Term.Like p)) operands operands') :
    Matches S (Term.Like p) (Eval.firstOf operands) (Eval.firstOf operands') := by
  induction h with
  | nil => exact fail
  | cons h _ ih => exact h.orElse ih

/-! ### Operators -/

variable {a a' b b' : Eval Term} (ha : Matches S (Term.Like p) a a')
  (hb : Matches S (Term.Like p) b b')

include ha

theorem condition? : Matches S Eq (Eval.condition? a) (Eval.condition? a') :=
  ha.condition.attempt.mono fun _ _ h => by cases h <;> simp_all

theorem applyUnary (o : UnaryOperator) : Matches S (Term.Like p) (o.apply a) (o.apply a') := by
  cases o with
  | plus | minus => exact ha.rounding _
  | not => exact ha.condition.bindEq fun _ => pure (.literal _)

include hb

theorem applyBinary (o : BinaryOperator) :
    Matches S (Term.Like p) (o.apply a b) (o.apply a' b') := by
  have hconditions : ∀ f : Option Bool → Option Bool → Option Bool, Matches S (Term.Like p)
      (do let a ← Eval.condition? a
          let b ← Eval.condition? b
          return Term.ofBool (← Eval.ofOption (f a b)))
      (do let a ← Eval.condition? a'
          let b ← Eval.condition? b'
          return Term.ofBool (← Eval.ofOption (f a b))) := fun f =>
    ha.condition?.bindEq fun _ => hb.condition?.bindEq fun _ =>
      (ofOption_eq _).bindEq fun _ => pure (.literal _)
  cases o with
  | or | and => exact hconditions _
  | equal =>
    refine ha.value.bind fun v v' hv => hb.value.bind fun w w' hw => ?_
    rw [hv.equal hw]
    exact pure (.literal _)
  | sameTerm =>
    refine ha.bind fun t t' ht => hb.bind fun u u' hu => ?_
    simp only [ht.eq_iff hu]
    exact pure (.literal _)
  | greater | greaterOrEqual | less | lessOrEqual => exact ha.comparison hb _
  | add | subtract | multiply | divide => exact ha.arithmetic hb _

end Matches

/-! ### Functions -/

/-- Two scopes in which blank nodes are made that are paired. -/
structure MintsAlike (S : Scopes → Scopes → Prop) (p : Pairing) (scope scope' : ScopeId) :
    Prop where
  fresh : Matches S p.pairs (ofScopes Scopes.fresh) (ofScopes Scopes.fresh)
  mint : ∀ label, Matches S p.pairs (ofScopes (·.mint scope label)) (ofScopes (·.mint scope' label))

namespace Matches

theorem applyBuiltin {scope scope' : ScopeId} (hmints : MintsAlike S p scope scope')
    (base : Option Iri) (f : Builtin) {operands operands' : List (Eval Term)}
    (h : Forall₂ (Matches S (Term.Like p)) operands operands') :
    Matches S (Term.Like p) (f.apply base scope operands) (f.apply base scope' operands') := by
  have hstring : ∀ s : StringLiteral, Term.Like p s.toTerm s.toTerm := by
    intro s
    unfold StringLiteral.toTerm
    split <;> exact .literal _
  cases f with
  | concat =>
    exact (each h fun _ _ h => h.string).bind fun xs ys hxy => by
      rw [List.forall₂_eq_eq_eq] at hxy
      exact hxy ▸ pure (hstring _)
  | bnode =>
    rcases h with _ | ⟨ha, _ | _⟩
    · exact hmints.fresh.bind fun _ _ hb => pure (.blank hb)
    · exact ha.simple.bindEq fun label => (hmints.mint label).bind fun _ _ hb => pure (.blank hb)
    · exact fail
  | str =>
    rcases h with _ | ⟨ha, _ | _⟩
    · exact fail
    · refine ha.bind fun t t' ht => ?_
      rw [ht.congr (f := Term.text?) fun _ _ => rfl]
      exact (ofOption_eq _).bindEq fun _ => pure (.literal _)
    · exact fail
  | lang =>
    rcases h with _ | ⟨ha, _ | _⟩
    · exact fail
    · refine ha.bind fun t t' ht => ?_
      rw [ht.congr (f := Term.languageTag?) fun _ _ => rfl]
      exact (ofOption_eq _).bindEq fun _ => pure (.literal _)
    · exact fail
  | datatype =>
    rcases h with _ | ⟨ha, _ | _⟩
    · exact fail
    · refine ha.value.bind fun v v' hv => ?_
      rw [hv.congr (f := Value.datatype?) fun _ _ => rfl]
      exact (ofOption_eq _).bindEq fun i => pure (.iri i)
    · exact fail
  | iri =>
    rcases h with _ | ⟨ha, _ | _⟩
    · exact fail
    · exact ha.bind fun t t' ht => ofOption (ht.asIri? base)
    · exact fail
  | abs | ceil | floor | round =>
    rcases h with _ | ⟨ha, _ | _⟩
    · exact fail
    · exact ha.rounding _
    · exact fail
  | strLen | ucase | lcase | encodeForUri =>
    rcases h with _ | ⟨ha, _ | _⟩
    · exact fail
    · exact ha.string.bindEq fun _ => pure (by first | exact .literal _ | exact hstring _)
    · exact fail
  | isIri | isBlank | isLiteral | isNumeric =>
    rcases h with _ | ⟨ha, _ | _⟩
    · exact fail
    · exact ha.test fun _ _ => rfl
    · exact fail
  | langMatches =>
    rcases h with _ | ⟨ha, _ | ⟨hb, _ | _⟩⟩
    · exact fail
    · exact fail
    · exact ha.string.bindEq fun _ => hb.string.bindEq fun _ => pure (.literal _)
    · exact fail
  | contains | strStarts | strEnds =>
    rcases h with _ | ⟨ha, _ | ⟨hb, _ | _⟩⟩
    · exact fail
    · exact fail
    · unfold Builtin.apply
      exact ha.searching hb fun _ _ => .literal _
    · exact fail
  | strBefore | strAfter =>
    rcases h with _ | ⟨ha, _ | ⟨hb, _ | _⟩⟩
    · exact fail
    · exact fail
    · unfold Builtin.apply
      exact ha.searching hb fun _ _ => hstring _
    · exact fail
  | strDt =>
    rcases h with _ | ⟨ha, _ | ⟨hb, _ | _⟩⟩
    · exact fail
    · exact fail
    · refine ha.string.bindEq fun text => hb.bind fun t t' ht => ?_
      split
      · exact fail
      · cases ht with
        | iri i => exact ofOption (.some (.literal _))
        | literal | blank => exact fail
    · exact fail
  | strLang =>
    rcases h with _ | ⟨ha, _ | ⟨hb, _ | _⟩⟩
    · exact fail
    · exact fail
    · refine ha.string.bindEq fun text => hb.string.bindEq fun tag => ?_
      split
      · exact fail
      · unfold Term.withLanguage?
        split
        · exact ofOption (.some (.literal _))
        · exact fail
    · exact fail
  | substr =>
    rcases h with _ | ⟨ha, _ | ⟨hb, _ | ⟨hc, _ | _⟩⟩⟩
    · exact fail
    · exact fail
    · exact ha.string.bindEq fun _ => hb.integer.bindEq fun _ => pure (hstring _)
    · exact ha.string.bindEq fun _ => hb.integer.bindEq fun _ => hc.integer.bindEq fun _ =>
        pure (hstring _)
    · exact fail
  | _ => exact fail

end Matches

/-- Two contexts of evaluation that have the base and the functions in common and make paired nodes
in their scopes. -/
structure ContextLike (S : Scopes → Scopes → Prop) (p : Pairing) (c c' : EvalContext) : Prop where
  functions : c.functions = c'.functions
  base : c.base = c'.base
  generic : ∀ name f, c.functions.scalar? name = some f → f.IsGeneric p
  mints : MintsAlike S p c.scope c'.scope

variable {c c' : EvalContext}

theorem Matches.applyFunction (hc : ContextLike S p c c') (f : Function)
    {operands operands' : List (Eval Term)}
    (h : Forall₂ (Matches S (Term.Like p)) operands operands') :
    Matches S (Term.Like p) (f.apply c operands) (f.apply c' operands') := by
  cases f with
  | builtin f =>
    show Matches S _ (f.apply c.base c.scope operands) (f.apply c'.base c'.scope operands')
    rw [← hc.base]
    exact applyBuiltin hc.mints c.base f h
  | custom name =>
    refine (each h fun _ _ h => h).bind fun xs ys hxy => ?_
    rw [← hc.functions]
    cases hf : c.functions.scalar? name with
    | some f => exact ofOption (hc.generic name f hf xs ys hxy)
    | none =>
      rcases hxy with _ | ⟨hx, _ | _⟩
      · exact fail
      · exact ofOption (hx.cast? name)
      · exact fail

/-! ### Expressions -/

mutual

/-- An expression has like values in solutions that bind the variables alike. -/
theorem matches_eval (hc : ContextLike S p c c') {s s' : Solution} (hs : Solution.Like p s s') :
    ∀ e : Expression, Matches S (Term.Like p) (e.eval c s) (e.eval c' s')
  | .iri i => .pure (.iri i)
  | .literal l => .pure (.literal l)
  | .var v => .ofOption (hs v)
  | .binary o a b => (matches_eval hc hs a).applyBinary (matches_eval hc hs b) o
  | .unary o a => (matches_eval hc hs a).applyUnary o
  | .isIn needle candidates =>
    (matches_eval hc hs needle).value.bind fun _ _ h =>
      .membership h false (matches_evalEach hc hs candidates)
  | .bound v => by
    rw [Expression.eval, Expression.eval, hs.contains]
    exact .pure (.literal _)
  | .conditional condition yes no => by
    refine (matches_eval hc hs condition).condition.bindEq fun b => ?_
    split
    · exact matches_eval hc hs yes
    · exact matches_eval hc hs no
  | .coalesce alternatives => .firstOf (matches_evalEach hc hs alternatives)
  | .exists _ => .fail
  | .call f arguments => .applyFunction hc f (matches_evalEach hc hs arguments)

theorem matches_evalEach (hc : ContextLike S p c c') {s s' : Solution}
    (hs : Solution.Like p s s') : ∀ es : List Expression,
    Forall₂ (Matches S (Term.Like p)) (Expression.evalEach c s es) (Expression.evalEach c' s' es)
  | [] => .nil
  | e :: rest => .cons (matches_eval hc hs e) (matches_evalEach hc hs rest)

end

end Eval

end TripleLoom
