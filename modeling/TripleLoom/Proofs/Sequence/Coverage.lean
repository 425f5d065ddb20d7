import Mathlib.Data.List.Forall2
import Mathlib.Data.List.Nodup
import Mathlib.Data.List.Perm.Subperm
import TripleLoom.Sequence

/-!
# TripleLoom.Proofs.Sequence.Coverage — solutions as finite maps under declared variables

What a solution is, is what `get?` finds: `bindings` lists that map (`Solution.mem_bindings`), two
solutions are the same exactly if they agree on every variable (`Solution.same_iff`), and two
sequences if their variables are equal and their solutions the same one by one
(`Sequence.same_iff`).  A sequence covers its solutions if they bind declared variables only; a
solution that is extended stays covered if the variables it is extended by are declared.
-/

namespace TripleLoom

/-! ### Lookups -/

section Lookup

variable {α β : Type} [BEq α] [LawfulBEq α] {l : List (α × β)} {k : α} {b : β}

theorem mem_of_lookup (h : l.lookup k = some b) : (k, b) ∈ l := by
  obtain ⟨before, after, rfl, -⟩ := List.lookup_eq_some_iff.mp h
  exact List.mem_append_right _ List.mem_cons_self

/-- In a list of distinct keys every entry is found. -/
theorem lookup_eq_some_iff_mem (h : (l.map (·.1)).Nodup) : l.lookup k = some b ↔ (k, b) ∈ l := by
  refine ⟨mem_of_lookup, fun hm => ?_⟩
  obtain ⟨before, after, rfl⟩ := List.append_of_mem hm
  rw [List.map_append, List.nodup_append] at h
  refine List.lookup_eq_some_iff.mpr ⟨before, after, rfl, fun p hp => ?_⟩
  have hne : p.1 ≠ k := h.2.2 _ (List.mem_map_of_mem hp) k (by simp)
  simpa using hne.symm

/-- What is found for a key is determined if all its entries are the same. -/
theorem lookup_eq_of_mem_iff {o : Option β} (h : ∀ b, (k, b) ∈ l ↔ o = some b) : l.lookup k = o := by
  cases hl : l.lookup k with
  | some b => exact ((h b).mp (mem_of_lookup hl)).symm
  | none =>
    cases ho : o with
    | none => rfl
    | some b =>
      have hne : (k != k) = true := List.lookup_eq_none_iff.mp hl _ ((h b).mpr ho)
      rw [bne_self_eq_false] at hne
      cases hne

end Lookup

/-- Variables that are declared for the first time are declared in their order. -/
theorem Variable.declareAll_of_nodup {declared vars : List Variable}
    (h : (declared ++ vars).Nodup) : declareAll declared vars = declared ++ vars := by
  induction vars generalizing declared with
  | nil => exact (List.append_nil _).symm
  | cons v rest ih =>
    have hv : v ∉ declared := fun hm => (List.nodup_append.mp h).2.2 v hm v List.mem_cons_self rfl
    rw [List.append_cons] at h ⊢
    rw [declareAll, List.foldl_cons, declare, if_neg hv]
    exact ih h

/-- Declaring variables that are declared already changes nothing. -/
theorem Variable.declareAll_of_subset {declared : List Variable} : ∀ {vars : List Variable},
    vars ⊆ declared → declareAll declared vars = declared
  | [], _ => rfl
  | v :: rest, h => by
    rw [List.cons_subset] at h
    rw [declareAll, List.foldl_cons, declare, if_pos h.1]
    exact declareAll_of_subset h.2

namespace Solution

variable {s t : Solution} {v : Variable} {term : Term} {vars : List Variable}

theorem lookup_filter_ne {w : Variable} (h : v ≠ w) (l : List (Variable × Term)) :
    (l.filter (·.1 ≠ w)).lookup v = l.lookup v := by
  induction l with
  | nil => rfl
  | cons b rest ih =>
    by_cases hb : b.1 = w
    · rw [List.filter_cons_of_neg (by simpa using hb), ih, List.lookup_cons,
        beq_false_of_ne (hb ▸ h)]
    · rw [List.filter_cons_of_pos (by simpa using hb), List.lookup_cons, List.lookup_cons, ih]

theorem lookup_firsts (l : List (Variable × Term)) : (firsts l).lookup v = l.lookup v := by
  induction l with
  | nil => rfl
  | cons b rest ih =>
    rw [firsts, List.lookup_cons, List.lookup_cons]
    by_cases h : v = b.1
    · rw [h, beq_self_eq_true]
    · rw [lookup_filter_ne h, ih]

theorem nodup_firsts (l : List (Variable × Term)) : ((firsts l).map (·.1)).Nodup := by
  induction l with
  | nil => exact List.nodup_nil
  | cons b rest ih =>
    rw [firsts, List.map_cons, List.nodup_cons]
    refine ⟨fun hm => ?_, ih.sublist (List.filter_sublist.map _)⟩
    obtain ⟨c, hc, he⟩ := List.mem_map.mp hm
    exact absurd he (of_decide_eq_true (List.mem_filter.mp hc).2)

theorem nodup_bindings (s : Solution) : (s.bindings.map (·.1)).Nodup := nodup_firsts s.history

/-- The bindings that count are those that a lookup finds. -/
theorem mem_bindings : (v, term) ∈ s.bindings ↔ s.get? v = some term := by
  rw [← lookup_eq_some_iff_mem (nodup_bindings s), bindings, lookup_firsts, get?_eq_lookup]

theorem get?_ofBindings {l : List (Variable × Term)} (h : (l.map (·.1)).Nodup) :
    (ofBindings l).get? v = l.lookup v := by
  have hr : (l.reverse.map (·.1)).Nodup := by
    rw [List.map_reverse]
    exact List.nodup_reverse.mpr h
  ext term
  rw [get?_eq_lookup, ofBindings, history_extend, history_empty, List.append_nil,
    lookup_eq_some_iff_mem hr, lookup_eq_some_iff_mem h, List.mem_reverse]

/-- The solution that binds some variables to what a function has for them. -/
theorem get?_ofBindings_filterMap (f : Variable → Option Term) :
    (ofBindings (vars.filterMap fun w => (f w).map (w, ·))).get? v =
      if v ∈ vars then f v else none := by
  rw [get?_eq_lookup, ofBindings, history_extend, history_empty, List.append_nil]
  refine lookup_eq_of_mem_iff fun term => ?_
  rw [List.mem_reverse, List.mem_filterMap]
  constructor
  · rintro ⟨w, hw, hf⟩
    obtain ⟨t, ht, he⟩ := Option.map_eq_some_iff.mp hf
    cases he
    rw [if_pos hw, ht]
  · intro hv
    by_cases hmem : v ∈ vars
    · rw [if_pos hmem] at hv
      exact ⟨v, hmem, by rw [hv]; rfl⟩
    · rw [if_neg hmem] at hv
      cases hv

/-- Two solutions are the same exactly if they agree on every variable. -/
theorem same_iff : s.same t = true ↔ ∀ v, s.get? v = t.get? v := by
  have hnodup : ∀ u : Solution, u.bindings.Nodup := fun u => List.Nodup.of_map _ (nodup_bindings u)
  rw [same, Bool.and_eq_true, beq_iff_eq, List.all_eq_true]
  constructor
  · rintro ⟨hsize, hall⟩ v
    -- the one map is part of the other and of the same size
    have hsub : s.bindings ⊆ t.bindings := fun b hb =>
      mem_bindings.mpr (eq_of_beq (hall b hb))
    have hperm := ((hnodup s).subperm hsub).perm_of_length_le (Nat.le_of_eq hsize.symm)
    ext term
    rw [← Option.mem_def, ← Option.mem_def]
    exact mem_bindings.symm.trans (hperm.mem_iff.trans mem_bindings)
  · intro h
    have hperm : s.bindings.Perm t.bindings :=
      (List.perm_ext_iff_of_nodup (hnodup s) (hnodup t)).mpr fun (v, term) => by
        rw [mem_bindings, mem_bindings, h v]
    refine ⟨hperm.length_eq, fun (v, term) hb => ?_⟩
    rw [beq_iff_eq, ← h v]
    exact mem_bindings.mp hb

/-! ### Solutions under variables -/

/-- A solution that binds none but the given variables. -/
def IsUnder (s : Solution) (vars : List Variable) : Prop := ∀ v term, s.get? v = some term → v ∈ vars

theorem isUnder_iff : s.IsUnder vars ↔ ∀ b ∈ s.bindings, b.1 ∈ vars :=
  ⟨fun h b hb => h b.1 b.2 (mem_bindings.mp hb), fun h v term hv => h (v, term) (mem_bindings.mpr hv)⟩

instance : Decidable (s.IsUnder vars) := decidable_of_iff _ isUnder_iff.symm

theorem isUnder_empty : empty.IsUnder vars := fun _ _ h => nomatch h

theorem IsUnder.mono {more : List Variable} (h : s.IsUnder vars) (hsub : vars ⊆ more) :
    s.IsUnder more := fun v term hv => hsub (h v term hv)

theorem IsUnder.extend (h : s.IsUnder vars) {l : List (Variable × Term)}
    (hl : ∀ b ∈ l, b.1 ∈ vars) : (s.extend l).IsUnder vars := by
  intro v term hv
  rw [get?_eq_lookup, history_extend, List.lookup_append, Option.or_eq_some_iff,
    ← get?_eq_lookup] at hv
  rcases hv with hnew | ⟨-, hold⟩
  · exact hl _ (List.mem_reverse.mp (mem_of_lookup hnew))
  · exact h v term hold

theorem IsUnder.overlay (h : s.IsUnder vars) (hv : v ∈ vars) : (s.overlay v term).IsUnder vars :=
  h.extend fun b hb => by rwa [List.mem_singleton.mp hb]

theorem isUnder_ofBindings {l : List (Variable × Term)} (h : ∀ b ∈ l, b.1 ∈ vars) :
    (ofBindings l).IsUnder vars := isUnder_empty.extend h

end Solution

/-! ### Solutions that are the same -/

namespace Solution

variable {s t u : Solution} {v : Variable} {vars : List Variable}

theorem same_refl (s : Solution) : s.same s = true := same_iff.mpr fun _ => rfl

theorem same_trans (h : s.same t = true) (h' : t.same u = true) : s.same u = true :=
  same_iff.mpr fun v => (same_iff.mp h v).trans (same_iff.mp h' v)

theorem get?_project : (s.project vars).get? v = if v ∈ vars then s.get? v else none :=
  get?_ofBindings_filterMap s.get?

theorem same_project (h : s.same t = true) (vars : List Variable) :
    (s.project vars).same (t.project vars) = true := by
  rw [same_iff] at h ⊢
  intro v
  rw [get?_project, get?_project, h v]

/-- Projecting a solution to variables that include its own ones leaves it as it is. -/
theorem same_project_self (h : s.IsUnder vars) : (s.project vars).same s = true := by
  refine same_iff.mpr fun v => ?_
  rw [get?_project]
  split
  · rfl
  · next hv =>
    cases hget : s.get? v with
    | none => rfl
    | some term => exact absurd (h v term hget) hv

end Solution

/-- Two lists of the same solutions in the same order. -/
def SameSolutions (xs ys : List Solution) : Prop :=
  List.Forall₂ (fun s t => s.same t = true) xs ys

namespace SameSolutions

variable {xs ys : List Solution}

theorem trans : ∀ {xs ys zs : List Solution}, SameSolutions xs ys → SameSolutions ys zs →
    SameSolutions xs zs
  | _, _, _, .nil, .nil => .nil
  | _, _, _, .cons h hs, .cons h' hs' => .cons (Solution.same_trans h h') (trans hs hs')

theorem map {f : Solution → Solution} (hf : ∀ s t, s.same t = true → (f s).same (f t) = true)
    (h : SameSolutions xs ys) : SameSolutions (xs.map f) (ys.map f) :=
  List.forall₂_map_left_iff.mpr (List.forall₂_map_right_iff.mpr (h.imp hf))

theorem map_self {f : Solution → Solution} (hf : ∀ s ∈ xs, (f s).same s = true) :
    SameSolutions (xs.map f) xs :=
  List.forall₂_map_left_iff.mpr (List.forall₂_same.mpr hf)

end SameSolutions

namespace Sequence

variable {s t u : Sequence}

theorem same_iff : s.same t = true ↔ s.vars = t.vars ∧ SameSolutions s.solutions t.solutions := by
  rw [same, SameSolutions, List.forall₂_iff_zip, Bool.and_eq_true, Bool.and_eq_true, beq_iff_eq,
    beq_iff_eq, List.all_eq_true, and_assoc]
  refine and_congr_right fun _ => and_congr_right fun _ => ?_
  exact ⟨fun h a b hab => h (a, b) hab, fun h ab hab => h hab⟩

theorem same_trans (h : s.same t = true) (h' : t.same u = true) : s.same u = true := by
  obtain ⟨hvars, hsolutions⟩ := same_iff.mp h
  obtain ⟨hvars', hsolutions'⟩ := same_iff.mp h'
  exact same_iff.mpr ⟨hvars.trans hvars', hsolutions.trans hsolutions'⟩

end Sequence

/-! ### Covered sequences -/

namespace Sequence

variable {s : Sequence} {u : Solution}

/-- A sequence whose solutions bind declared variables only. -/
def IsCovered (s : Sequence) : Prop := ∀ u ∈ s.solutions, u.IsUnder s.vars

instance : Decidable s.IsCovered :=
  inferInstanceAs (Decidable (∀ u ∈ s.solutions, u.IsUnder s.vars))

theorem isCovered_unit : unit.IsCovered := fun u hu => by
  rw [List.mem_singleton.mp hu]
  exact Solution.isUnder_empty

theorem isCovered_withSolutions {solutions : List Solution}
    (h : ∀ u ∈ solutions, u.IsUnder s.vars) : (s.withSolutions solutions).IsCovered := h

theorem subset_declare (s : Sequence) (v : Variable) : s.vars ⊆ (s.declare v).vars :=
  fun _ hw => Variable.mem_declare.mpr (.inl hw)

theorem mem_declare (s : Sequence) (v : Variable) : v ∈ (s.declare v).vars :=
  Variable.mem_declare.mpr (.inr rfl)

theorem subset_declareAll (s : Sequence) (vars : List Variable) :
    s.vars ⊆ (s.declareAll vars).vars := fun _ hw => Variable.mem_declareAll.mpr (.inl hw)

theorem mem_declareAll {v : Variable} {vars : List Variable} (s : Sequence) (h : v ∈ vars) :
    v ∈ (s.declareAll vars).vars := Variable.mem_declareAll.mpr (.inr h)

theorem IsCovered.declare (h : s.IsCovered) (v : Variable) : (s.declare v).IsCovered :=
  fun u hu => (h u hu).mono (s.subset_declare v)

theorem IsCovered.declareAll (h : s.IsCovered) (vars : List Variable) :
    (s.declareAll vars).IsCovered := fun u hu => (h u hu).mono (s.subset_declareAll vars)

theorem IsCovered.single (h : s.IsCovered) (hu : u ∈ s.solutions) :
    (s.withSolutions [u]).IsCovered := isCovered_withSolutions fun w hw => by
  rw [List.mem_singleton.mp hw]
  exact h u hu

/-- The input of a call: the one solution that binds parameters, under the parameters. -/
theorem isCovered_ofLists {vars : List Variable} (h : u.IsUnder vars) :
    (ofLists vars [u]).IsCovered := fun w hw => by
  rw [List.mem_singleton.mp hw]
  exact h.mono fun v hv => (empty.withSolutions [u]).mem_declareAll hv

end Sequence

end TripleLoom
