import Mathlib.Data.List.Forall2
import TripleLoom.Run.Clause
import TripleLoom.Run.Output

/-!
# TripleLoom.Proofs.Renaming.Terms — terms up to the names of blank nodes

Two executions of one query make blank nodes of different names.  A `Pairing` says which node of the
one stands for which node of the other; it is one-to-one, so that equal nodes stand for equal ones.
Terms are alike if they are the same but for paired nodes, solutions if they bind every variable
alike, and so on for all that is made of terms.  What is read off a term without looking at the name
of a blank node is the same for terms that are alike (`Term.Like.congr`).
-/

namespace TripleLoom

open List (Forall₂)

/-- A one-to-one pairing of blank nodes. -/
structure Pairing where
  pairs : BlankNode → BlankNode → Prop
  unique : Relator.BiUnique pairs

theorem Pairing.eq_iff (p : Pairing) {a a' b b' : BlankNode} (h : p.pairs a b)
    (h' : p.pairs a' b') : a = a' ↔ b = b' := Relator.rel_eq p.unique h h'

variable {p : Pairing}

/-! ### Options and lists -/

section Related

variable {α β γ δ : Type} {R : α → β → Prop} {P : γ → δ → Prop} {a : Option α} {b : Option β}

theorem rel_option_mono (h : Option.Rel R a b) {Q : α → β → Prop} (hR : ∀ x y, R x y → Q x y) :
    Option.Rel Q a b := by
  cases h with
  | some h => exact .some (hR _ _ h)
  | none => exact .none

theorem rel_bind (h : Option.Rel R a b) {f : α → Option γ} {g : β → Option δ}
    (hf : ∀ x y, R x y → Option.Rel P (f x) (g y)) : Option.Rel P (a.bind f) (b.bind g) := by
  cases h with
  | some h => exact hf _ _ h
  | none => exact .none

theorem rel_option_map (h : Option.Rel R a b) {f : α → γ} {g : β → δ}
    (hf : ∀ x y, R x y → P (f x) (g y)) : Option.Rel P (a.map f) (b.map g) := by
  cases h with
  | some h => exact .some (hf _ _ h)
  | none => exact .none

theorem rel_toList (h : Option.Rel R a b) : Forall₂ R a.toList b.toList := by
  cases h with
  | some h => exact .cons h .nil
  | none => exact .nil

theorem eq_of_rel {a b : Option α} (h : Option.Rel Eq a b) : a = b := by
  cases h with
  | some h => exact congrArg some h
  | none => rfl

theorem isSome_of_rel (h : Option.Rel R a b) : a.isSome = b.isSome := by cases h <;> rfl

theorem rel_option_refl {R : α → α → Prop} (hR : ∀ x ∈ a, R x x) : Option.Rel R a a := by
  cases a with
  | none => exact .none
  | some x => exact .some (hR x rfl)

theorem rel_getElem? {l : List α} {m : List β} (h : Forall₂ R l m) (index : Nat) :
    Option.Rel R l[index]? m[index]? := by
  induction h generalizing index with
  | nil => exact .none
  | cons h _ ih =>
    cases index with
    | zero => exact .some h
    | succ index => exact ih index

theorem rel_set {l : List α} {m : List β} (h : Forall₂ R l m) {x : α} {y : β} (hxy : R x y)
    (index : Nat) : Forall₂ R (l.set index x) (m.set index y) := by
  induction h generalizing index with
  | nil => exact .nil
  | cons h hrest ih =>
    cases index with
    | zero => exact .cons hxy hrest
    | succ index => exact .cons h (ih index)

theorem rel_eraseIdx {l : List α} {m : List β} (h : Forall₂ R l m) (index : Nat) :
    Forall₂ R (l.eraseIdx index) (m.eraseIdx index) := by
  induction h generalizing index with
  | nil => exact .nil
  | cons h hrest ih =>
    cases index with
    | zero => exact hrest
    | succ index => exact .cons h (ih index)

theorem rel_zip {l : List α} {m : List β} {l' : List γ} {m' : List δ} (h : Forall₂ R l m)
    (h' : Forall₂ P l' m') :
    Forall₂ (fun x y => R x.1 y.1 ∧ P x.2 y.2) (l.zip l') (m.zip m') := by
  induction h generalizing l' m' with
  | nil => exact .nil
  | cons h _ ih =>
    cases h' with
    | nil => exact .nil
    | cons h' hrest => exact .cons ⟨h, h'⟩ (ih hrest)

theorem rel_findSome? {l : List α} {m : List β} (h : Forall₂ R l m) {f : α → Option γ}
    {g : β → Option δ} (hf : ∀ x y, R x y → Option.Rel P (f x) (g y)) :
    Option.Rel P (l.findSome? f) (m.findSome? g) := by
  induction h with
  | nil => exact .none
  | @cons x y _ _ h _ ih =>
    have hxy := hf x y h
    rw [List.findSome?_cons, List.findSome?_cons]
    generalize f x = a at hxy ⊢
    generalize g y = b at hxy ⊢
    cases hxy with
    | some h => exact .some h
    | none => exact ih

theorem isEmpty_of_rel {l : List α} {m : List β} (h : Forall₂ R l m) : l.isEmpty = m.isEmpty := by
  cases h <;> rfl

theorem all_of_rel {l : List α} {m : List β} (h : Forall₂ R l m) {f : α → Bool} {g : β → Bool}
    (hf : ∀ x y, R x y → f x = g y) : l.all f = m.all g := by
  induction h with
  | nil => rfl
  | cons h _ ih => rw [List.all_cons, List.all_cons, hf _ _ h, ih]

end Related

/-! ### Terms -/

/-- Terms that are the same but for paired blank nodes. -/
inductive Term.Like (p : Pairing) : Term → Term → Prop where
  | iri (i : Iri) : Like p (.iri i) (.iri i)
  | literal (l : Literal) : Like p (.literal l) (.literal l)
  | blank {a b : BlankNode} (h : p.pairs a b) : Like p (.blank a) (.blank b)

/-- Values that are the same but for paired blank nodes. -/
inductive Value.Like (p : Pairing) : Value → Value → Prop where
  | same (v : Value) (h : ∀ b, v ≠ .blank b) : Like p v v
  | blank {a b : BlankNode} (h : p.pairs a b) : Like p (.blank a) (.blank b)

/-- Resources that are alike as terms. -/
def Resource.Like (p : Pairing) (r r' : Resource) : Prop := Term.Like p r.toTerm r'.toTerm

/-- Triples whose terms are alike. -/
structure Triple.Like (p : Pairing) (t t' : Triple) : Prop where
  subject : Resource.Like p t.subject t'.subject
  predicate : t.predicate = t'.predicate
  object : Term.Like p t.object t'.object

theorem Value.ofLiteral_ne_blank (l : Literal) (b : BlankNode) : ofLiteral l ≠ .blank b := by
  unfold ofLiteral
  split
  · nofun
  · split
    · nofun
    · split
      · split <;> nofun
      · split <;> nofun

namespace Term.Like

variable {t t' u u' : Term}

/-- What does not look at the names of blank nodes is the same for terms that are alike. -/
theorem congr {α : Type} (h : Like p t t') {f : Term → α}
    (hf : ∀ a b, f (.blank a) = f (.blank b)) : f t = f t' := by
  cases h with
  | iri | literal => rfl
  | blank => exact hf _ _

theorem unique : Relator.BiUnique (Like p) := by
  constructor
  · rintro _ _ _ ⟨⟩ ⟨⟩
    · rfl
    · rfl
    · next h _ h' => exact congrArg _ (p.unique.1 h h')
  · rintro _ _ _ ⟨⟩ ⟨⟩
    · rfl
    · rfl
    · next h _ h' => exact congrArg _ (p.unique.2 h h')

theorem eq_iff (h : Like p t t') (h' : Like p u u') : t = u ↔ t' = u' :=
  Relator.rel_eq unique h h'

theorem toResource? (h : Like p t t') :
    Option.Rel (Resource.Like p) t.toResource? t'.toResource? := by
  cases h with
  | iri i => exact .some (.iri i)
  | literal l => exact .none
  | blank h => exact .some (.blank h)

theorem toIri? (h : Like p t t') : t.toIri? = t'.toIri? := h.congr fun _ _ => rfl

theorem value (h : Like p t t') : Value.Like p (.ofTerm t) (.ofTerm t') := by
  cases h with
  | iri i => exact .same _ nofun
  | blank h => exact .blank h
  | literal l => exact .same _ (Value.ofLiteral_ne_blank l)

end Term.Like

theorem Term.Like.asIri? {t t' : Term} (h : Like p t t') (base : Option Iri) :
    Option.Rel (Like p) (t.asIri? base) (t'.asIri? base) := by
  cases h with
  | iri i => exact .some (.iri i)
  | blank => exact .none
  | literal l =>
    refine rel_option_map (R := Eq) (rel_option_refl fun _ _ => rfl) ?_
    rintro i _ rfl
    exact .iri i

theorem Value.like_toTerm {v : Value} (h : ∀ b, v ≠ .blank b) :
    Term.Like p v.toTerm v.toTerm := by
  cases v with
  | blank b => exact absurd rfl (h b)
  | iri i => exact .iri i
  | _ => exact .literal _

/-- A cast gives a term without a blank node, if any. -/
theorem Term.Like.cast? {t t' : Term} (h : Like p t t') (target : Iri) :
    Option.Rel (Like p) (t.cast? target) (t'.cast? target) := by
  have htext : t.castText? target = t'.castText? target := h.congr fun _ _ => rfl
  unfold Term.cast?
  rw [htext]
  refine rel_bind (R := Eq) (rel_option_refl fun _ _ => rfl) ?_
  rintro text _ rfl
  split
  · exact .some (.literal _)
  · split
    · split
      · exact .none
      · exact .some (Value.like_toTerm (Value.ofLiteral_ne_blank _))
    · exact .none

theorem Triple.like_ofTerms? {s s' v v' o o' : Term} (hs : Term.Like p s s')
    (hv : Term.Like p v v') (ho : Term.Like p o o') :
    Option.Rel (Triple.Like p) (ofTerms? s v o) (ofTerms? s' v' o') := by
  refine rel_bind hs.toResource? fun x y hxy => ?_
  rw [hv.toIri?]
  cases v'.toIri? with
  | none => exact .none
  | some i => exact .some ⟨hxy, rfl, ho⟩

namespace Value.Like

variable {v v' w w' : Value}

theorem congr {α : Type} (h : Like p v v') {f : Value → α}
    (hf : ∀ a b, f (.blank a) = f (.blank b)) : f v = f v' := by
  cases h with
  | same => rfl
  | blank => exact hf _ _

theorem compare (h : Like p v v') (h' : Like p w w') : v.compare w = v'.compare w' := by
  cases h with
  | same v hv =>
    cases h' with
    | same w hw => rfl
    | blank => cases v <;> first | rfl | exact absurd rfl (hv _)
  | blank h =>
    cases h' with
    | same w hw => cases w <;> first | rfl | exact absurd rfl (hw _)
    | blank h' => simp only [Value.compare, p.eq_iff h h']

theorem sameShape (h : Like p v v') (h' : Like p w w') : v.same w = v'.same w' := by
  cases h with
  | same v hv =>
    cases h' with
    | same w hw => rfl
    | blank => cases v <;> first | rfl | exact absurd rfl (hv _)
  | blank h =>
    cases h' with
    | same w hw => cases w <;> first | rfl | exact absurd rfl (hw _)
    | blank h' =>
      rw [Value.same, Value.same, Bool.eq_iff_iff, beq_iff_eq, beq_iff_eq, p.eq_iff h h']

end Value.Like

/-! ### Solutions -/

/-- Bindings of one variable to terms that are alike. -/
def BindingLike (p : Pairing) (b b' : Variable × Term) : Prop := b.1 = b'.1 ∧ Term.Like p b.2 b'.2

/-- Solutions that bind every variable alike. -/
def Solution.Like (p : Pairing) (s s' : Solution) : Prop :=
  ∀ v, Option.Rel (Term.Like p) (s.get? v) (s'.get? v)

namespace Solution.Like

variable {s s' : Solution}

theorem empty : Like p .empty .empty := fun _ => .none

theorem overlay (h : Like p s s') (v : Variable) {t t' : Term} (ht : Term.Like p t t') :
    Like p (s.overlay v t) (s'.overlay v t') := by
  intro w
  rw [get?_overlay, get?_overlay]
  split
  · exact .some ht
  · exact h w

theorem extend {bs bs' : List (Variable × Term)} (hb : Forall₂ (BindingLike p) bs bs') :
    ∀ {s s' : Solution}, Like p s s' → Like p (s.extend bs) (s'.extend bs') := by
  induction hb with
  | nil => exact fun h => h
  | cons hb _ ih =>
    intro s s' h v
    rw [get?_extend_cons, get?_extend_cons, ← hb.1]
    exact ih (h.overlay _ hb.2) v

theorem ofBindings {bs bs' : List (Variable × Term)} (hb : Forall₂ (BindingLike p) bs bs') :
    Like p (.ofBindings bs) (.ofBindings bs') := extend hb empty

theorem contains (h : Like p s s') (v : Variable) : s.contains v = s'.contains v :=
  isSome_of_rel (h v)

theorem text? (h : Like p s s') (pattern : IriPattern) : pattern.text? s = pattern.text? s' := by
  cases pattern with
  | iri i => rfl
  | var v =>
    have hv := h v
    simp only [IriPattern.text?]
    generalize s.get? v = t at hv ⊢
    generalize s'.get? v = t' at hv ⊢
    cases hv with
    | none => rfl
    | some ht => cases ht <;> rfl

theorem name? (h : Like p s s') (call : CallPlan) : call.name? s = call.name? s' := by
  unfold CallPlan.name?
  split
  · rfl
  · next v _ =>
    have hv := h v
    generalize s.get? v = t at hv ⊢
    generalize s'.get? v = t' at hv ⊢
    cases hv with
    | none => rfl
    | some ht => exact ht.toIri?

end Solution.Like

/-! ### Sequences -/

/-- Sequences of solutions that are alike, one by one, under the same variables. -/
structure Sequence.Like (p : Pairing) (q q' : Sequence) : Prop where
  vars : q.vars = q'.vars
  solutions : Forall₂ (Solution.Like p) q.solutions q'.solutions

namespace Sequence.Like

variable {q q' : Sequence}

theorem size (h : Like p q q') : q.size = q'.size := h.solutions.length_eq

theorem isEmpty (h : Like p q q') : q.isEmpty = q'.isEmpty := isEmpty_of_rel h.solutions

theorem declare (h : Like p q q') (v : Variable) : Like p (q.declare v) (q'.declare v) :=
  ⟨congrArg (Variable.declare · v) h.vars, h.solutions⟩

theorem declareAll (h : Like p q q') (vars : List Variable) :
    Like p (q.declareAll vars) (q'.declareAll vars) :=
  ⟨congrArg (Variable.declareAll · vars) h.vars, h.solutions⟩

theorem withSolutions (h : Like p q q') {solutions solutions' : List Solution}
    (hs : Forall₂ (Solution.Like p) solutions solutions') :
    Like p (q.withSolutions solutions) (q'.withSolutions solutions') := ⟨h.vars, hs⟩

theorem single (h : Like p q q') {s s' : Solution} (hs : Solution.Like p s s') :
    Like p (q.withSolutions [s]) (q'.withSolutions [s']) := h.withSolutions (.cons hs .nil)

theorem unit : Like p .unit .unit := ⟨rfl, .cons .empty .nil⟩

end Sequence.Like

/-! ### Calls -/

/-- Calls of one name whose parameters are alike. -/
structure CallKey.Like (p : Pairing) (call call' : CallKey) : Prop where
  name : call.name = call'.name
  parameters : Forall₂ (Option.Rel (Term.Like p)) call.parameters call'.parameters

theorem unique_option {α β : Type} {R : α → β → Prop} (h : Relator.BiUnique R) :
    Relator.BiUnique (Option.Rel R) := by
  constructor
  · rintro _ _ _ ⟨⟩ ⟨⟩
    · next h₁ _ h₂ => exact congrArg _ (h.1 h₁ h₂)
    · rfl
  · rintro _ _ _ ⟨⟩ ⟨⟩
    · next h₁ _ h₂ => exact congrArg _ (h.2 h₁ h₂)
    · rfl

theorem CallKey.Like.unique : Relator.BiUnique (Like p) := by
  have hparameters := (unique_option (Term.Like.unique (p := p))).forall₂
  constructor
  · rintro ⟨n, xs⟩ ⟨m, ys⟩ ⟨k, zs⟩ ⟨rfl, hx⟩ ⟨hn, hy⟩
    exact congrArg₂ CallKey.mk hn.symm (hparameters.1 hx hy)
  · rintro ⟨n, xs⟩ ⟨m, ys⟩ ⟨k, zs⟩ ⟨rfl, hx⟩ ⟨hn, hy⟩
    exact congrArg₂ CallKey.mk hn (hparameters.2 hx hy)

theorem CallKey.like_ofSolution {s s' : Solution} (h : Solution.Like p s s') (name : Iri)
    (signature : Option (List Variable)) :
    Like p (.ofSolution name signature s) (.ofSolution name signature s') := by
  refine ⟨rfl, ?_⟩
  show Forall₂ _ ((signature.getD []).map _) ((signature.getD []).map _)
  rw [List.forall₂_map_left_iff, List.forall₂_map_right_iff, List.forall₂_same]
  exact fun v _ => h v

end TripleLoom
