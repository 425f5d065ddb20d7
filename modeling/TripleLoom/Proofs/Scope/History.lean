import Mathlib.Data.List.Induction
import TripleLoom.Scope

/-!
# TripleLoom.Proofs.Scope.History — what was done with scopes

A history is a list of operations on scopes of which none was there before.  Which scope lies over
which, in which scope a label was minted freshly, and to which scope an answer goes back is read off
the history alone: the freshly minted scopes of a label that lie over one scope lie over each other,
and the nearest of them is the source of the label there.  The source of a label in a scope never
changes once there is one (`IsSource.append`), for no scope below it mints the label freshly any more.
-/

namespace TripleLoom.Scopes

/-- An operation on scopes. -/
inductive Op where
  | root
  | child (parent : ScopeId)
  | mint (scope : ScopeId) (label : String)
  deriving DecidableEq

/-! ### Scopes and their parents -/

/-- The parent of the scope that an operation makes, if it makes one. -/
def Op.parent? : Op → Option (Option ScopeId)
  | .root => some none
  | .child parent => some (some parent)
  | .mint .. => none

/-- The parents of the scopes that some operations make, in the order of the scopes. -/
def parents (ops : List Op) : List (Option ScopeId) := ops.filterMap Op.parent?

/-- Whether an operation is on one of so many scopes. -/
def Op.isOn (count : Nat) : Op → Bool
  | .root => true
  | .child parent => parent < count
  | .mint scope _ => scope < count

/-- Whether all operations are on scopes that are there, so many being there before them. -/
def areOn (count : Nat) : List Op → Bool
  | [] => true
  | op :: rest => op.isOn count && areOn (count + (parents [op]).length) rest

theorem parents_append (ops more : List Op) : parents (ops ++ more) = parents ops ++ parents more :=
  List.filterMap_append

theorem areOn_append (count : Nat) (ops more : List Op) : areOn count (ops ++ more) =
    (areOn count ops && areOn (count + (parents ops).length) more) := by
  induction ops generalizing count with
  | nil => simp [areOn, parents]
  | cons op ops ih =>
    have hlen : (parents (op :: ops)).length = (parents [op]).length + (parents ops).length := by
      rw [← List.singleton_append, parents_append, List.length_append]
    rw [List.cons_append, areOn, areOn, ih, hlen, Bool.and_assoc, Nat.add_assoc]

theorem areOn_concat {ops : List Op} {op : Op} :
    areOn 0 (ops ++ [op]) = true ↔ areOn 0 ops = true ∧ op.isOn (parents ops).length = true := by
  simp [areOn_append, areOn]

theorem areOn_of_append {ops more : List Op} (h : areOn 0 (ops ++ more) = true) :
    areOn 0 ops = true := by
  rw [areOn_append, Bool.and_eq_true] at h
  exact h.1

theorem areOn_take {ops : List Op} (h : areOn 0 ops = true) (k : Nat) :
    areOn 0 (ops.take k) = true := by
  rw [← List.take_append_drop k ops] at h
  exact areOn_of_append h

/-- A scope is made after its parent. -/
theorem parent_lt {ops : List Op} (h : areOn 0 ops = true) {s p : Nat}
    (hs : (parents ops)[s]? = some (some p)) : p < s := by
  induction ops using List.reverseRecOn with
  | nil => cases hs
  | append_singleton ops op ih =>
    obtain ⟨hops, hop⟩ := areOn_concat.mp h
    rw [parents_append, List.getElem?_append] at hs
    split at hs
    · exact ih hops hs
    · next hlt =>
      cases op with
      | root =>
        have := List.mem_of_getElem? hs
        simp [parents, Op.parent?] at this
      | child parent =>
        have := List.mem_of_getElem? hs
        simp only [parents, Op.parent?, List.filterMap_cons, List.filterMap_nil,
          List.mem_singleton, Option.some.injEq] at this
        subst this
        exact Nat.lt_of_lt_of_le (of_decide_eq_true hop) (Nat.le_of_not_lt hlt)
      | mint scope label => cases hs

/-! ### Which scope lies over which -/

/-- A scope lies over another one: it is that scope or an ancestor of it. -/
inductive Over (ops : List Op) (a : ScopeId) : ScopeId → Prop where
  | refl : Over ops a a
  | parent {p s : Nat} (hs : (parents ops)[s]? = some (some p)) (h : Over ops a p) : Over ops a s

variable {ops more : List Op} {a b s : Nat} {l : String}

theorem Over.le (h : areOn 0 ops = true) (ho : Over ops a s) : a ≤ s := by
  induction ho with
  | refl => exact Nat.le_refl _
  | parent hs _ ih =>
    have := parent_lt h hs
    omega

theorem Over.antisymm (h : areOn 0 ops = true) (hab : Over ops a b) (hba : Over ops b a) :
    a = b := by
  have := hab.le h
  have := hba.le h
  omega

theorem Over.trans (hab : Over ops a b) (hbs : Over ops b s) : Over ops a s := by
  induction hbs with
  | refl => exact hab
  | parent hs _ ih => exact .parent hs ih

/-- Of two scopes over a third one lies over the other. -/
theorem Over.total (ha : Over ops a s) (hb : Over ops b s) : Over ops a b ∨ Over ops b a := by
  induction ha with
  | refl => exact .inr hb
  | parent hs ha ih =>
    cases hb with
    | refl => exact .inl (.parent hs ha)
    | parent hs' hb =>
      obtain rfl := Option.some.inj (Option.some.inj (hs.symm.trans hs'))
      exact ih hb

/-- What lies over a scope stays there. -/
theorem Over.append (h : Over ops a s) : Over (ops ++ more) a s := by
  induction h with
  | refl => exact .refl
  | @parent p s hs _ ih =>
    have hlt := (List.getElem?_eq_some_iff.mp hs).1
    refine .parent ?_ ih
    rw [parents_append, List.getElem?_append_left hlt]
    exact hs

theorem Over.of_take {k : Nat} (h : Over (ops.take k) a s) : Over ops a s := by
  rw [← List.take_append_drop k ops]
  exact h.append

/-- What lies over a scope does not depend on the operations after it was made. -/
theorem over_append (h : areOn 0 ops = true) (hs : s < (parents ops).length) :
    Over (ops ++ more) a s ↔ Over ops a s := by
  constructor
  · intro ho
    induction ho with
    | refl => exact .refl
    | @parent p s hp _ ih =>
      rw [parents_append, List.getElem?_append_left hs] at hp
      have := parent_lt h hp
      exact .parent hp (ih (by omega))
  · exact Over.append

/-- Scopes with one parent have only scopes over the parent in common. -/
theorem Over.of_siblings {t u p : Nat} (htu : t ≠ u) (ht : (parents ops)[t]? = some (some p))
    (hu : (parents ops)[u]? = some (some p)) (hat : Over ops a t) (hau : Over ops a u) :
    Over ops a p := by
  have hup : ∀ {s : Nat}, (parents ops)[s]? = some (some p) → Over ops a s → a ≠ s →
      Over ops a p := by
    intro s hs ha hne
    cases ha with
    | refl => exact absurd rfl hne
    | parent hs' ha =>
      obtain rfl := Option.some.inj (Option.some.inj (hs.symm.trans hs'))
      exact ha
  by_cases hne : a = t
  · exact hup hu hau (hne ▸ htu)
  · exact hup ht hat hne

/-! ### Fresh nodes and where they are seen -/

/-- The operation at an index mints a label freshly in a scope: no scope over it was asked for the
label before. -/
def MintsFreshly (ops : List Op) (k : Nat) (a : ScopeId) (l : String) : Prop :=
  ops[k]? = some (.mint a l) ∧ ∀ b, Over (ops.take k) b a → .mint b l ∉ ops.take k

/-- A label was minted freshly in a scope. -/
def IsMinted (ops : List Op) (a : ScopeId) (l : String) : Prop := ∃ k, MintsFreshly ops k a l

/-- The source of a label in a scope: of the scopes over it in which the label was minted freshly
the nearest. -/
structure IsSource (ops : List Op) (s : ScopeId) (l : String) (a : ScopeId) : Prop where
  above : Over ops a s
  minted : IsMinted ops a l
  nearest : ∀ b, Over ops b s → IsMinted ops b l → Over ops b a

theorem IsSource.unique (h : areOn 0 ops = true) (ha : IsSource ops s l a)
    (hb : IsSource ops s l b) : a = b :=
  (hb.nearest a ha.above ha.minted).antisymm h (ha.nearest b hb.above hb.minted)

theorem mintsFreshly_append {k : Nat} (hk : k < ops.length) :
    MintsFreshly (ops ++ more) k a l ↔ MintsFreshly ops k a l := by
  rw [MintsFreshly, MintsFreshly, List.getElem?_append_left hk,
    List.take_append_of_le_length (Nat.le_of_lt hk)]

theorem MintsFreshly.lt_length {k : Nat} (h : MintsFreshly ops k a l) : k < ops.length :=
  (List.getElem?_eq_some_iff.mp h.1).1

/-- A label is minted freshly in a scope only once. -/
theorem MintsFreshly.unique {k n : Nat} (hk : MintsFreshly ops k a l)
    (hn : MintsFreshly ops n a l) : k = n := by
  have hle : ∀ {k n : Nat}, MintsFreshly ops k a l → MintsFreshly ops n a l → n ≤ k := by
    intro k n hk hn
    refine Nat.le_of_not_lt fun hlt => hn.2 a .refl ?_
    refine List.mem_of_getElem? (i := k) ?_
    rw [List.getElem?_take_of_lt hlt]
    exact hk.1
  exact Nat.le_antisymm (hle hn hk) (hle hk hn)

theorem MintsFreshly.of_take {k n : Nat} (h : MintsFreshly (ops.take n) k a l) :
    MintsFreshly ops k a l := by
  rw [← List.take_append_drop n ops]
  exact (mintsFreshly_append h.lt_length).mpr h

/-- A label that was minted freshly has its own scope as its source. -/
theorem MintsFreshly.isSource {k : Nat} (h : MintsFreshly ops k a l) :
    IsSource (ops.take (k + 1)) a l a := by
  refine ⟨.refl, ⟨k, ?_, ?_⟩, fun b hb _ => hb⟩
  · rw [List.getElem?_take_of_lt (Nat.lt_succ_self k)]
    exact h.1
  · rw [List.take_take, Nat.min_eq_left (Nat.le_succ k)]
    exact h.2

theorem IsMinted.append (h : IsMinted ops a l) : IsMinted (ops ++ more) a l := by
  obtain ⟨k, hk⟩ := h
  exact ⟨k, (mintsFreshly_append hk.lt_length).mpr hk⟩

/-- A scope that was asked for a label is there. -/
theorem lt_of_mem_mint (h : areOn 0 ops = true) (hm : .mint a l ∈ ops) :
    a < (parents ops).length := by
  obtain ⟨before, after, rfl⟩ := List.append_of_mem hm
  rw [← List.singleton_append, ← List.append_assoc] at h
  obtain ⟨-, hon⟩ := areOn_concat.mp (areOn_of_append h)
  rw [parents_append, List.length_append]
  exact Nat.lt_of_lt_of_le (of_decide_eq_true hon) (Nat.le_add_right _ _)

/-- The next operation mints a label freshly exactly if it asks for it and no scope over its own was
asked before. -/
theorem isMinted_concat {op : Op} : IsMinted (ops ++ [op]) a l ↔ IsMinted ops a l ∨
    op = .mint a l ∧ ∀ b, Over ops b a → .mint b l ∉ ops := by
  constructor
  · rintro ⟨k, hk⟩
    by_cases hlt : k < ops.length
    · exact .inl ⟨k, (mintsFreshly_append hlt).mp hk⟩
    · have hlen := hk.lt_length
      rw [List.length_append, List.length_singleton] at hlen
      obtain rfl : k = ops.length := by omega
      obtain ⟨hop, hnone⟩ := hk
      rw [List.getElem?_concat_length, Option.some.injEq] at hop
      rw [List.take_left' rfl] at hnone
      exact .inr ⟨hop, hnone⟩
  · rintro (h | ⟨rfl, hnone⟩)
    · exact h.append
    · refine ⟨ops.length, by rw [List.getElem?_concat_length], ?_⟩
      rwa [List.take_left' rfl]

/-- Over a scope that was asked for a label there is one in which the label was minted freshly. -/
theorem exists_minted_of_mem (h : areOn 0 ops = true) (hm : .mint s l ∈ ops) :
    ∃ a, Over ops a s ∧ IsMinted ops a l := by
  induction ops using List.reverseRecOn generalizing s with
  | nil => cases hm
  | append_singleton ops op ih =>
    have hops := areOn_of_append h
    have hold : ∀ t, .mint t l ∈ ops → Over ops t s → s < (parents ops).length →
        ∃ a, Over (ops ++ [op]) a s ∧ IsMinted (ops ++ [op]) a l := fun t ht hts hs => by
      obtain ⟨a, ha, hminted⟩ := ih hops ht
      exact ⟨a, (over_append hops hs).mpr (ha.trans hts), hminted.append⟩
    rcases List.mem_append.mp hm with hm | hm
    · exact hold s hm .refl (lt_of_mem_mint hops hm)
    · obtain rfl := List.mem_singleton.mp hm
      by_cases hasked : ∃ t, Over ops t s ∧ .mint t l ∈ ops
      · obtain ⟨t, hts, ht⟩ := hasked
        exact hold t ht hts (of_decide_eq_true (areOn_concat.mp h).2)
      · refine ⟨s, .refl, isMinted_concat.mpr (.inr ⟨rfl, fun b hb hb' => hasked ⟨b, hb, hb'⟩⟩)⟩

/-- A source stays the source, whatever is done after it. -/
theorem IsSource.append (h : areOn 0 (ops ++ more) = true) (hs : s < (parents ops).length)
    (ha : IsSource ops s l a) : IsSource (ops ++ more) s l a := by
  have hops := areOn_of_append h
  induction more using List.reverseRecOn with
  | nil => rwa [List.append_nil]
  | append_singleton more op ih =>
    rw [← List.append_assoc] at h ⊢
    have hpre := areOn_of_append h
    have hs' : s < (parents (ops ++ more)).length := by
      rw [parents_append, List.length_append]
      omega
    obtain ⟨hover, hminted, hnearest⟩ := ih hpre
    refine ⟨(over_append hpre hs').mpr hover, hminted.append, fun b hb hbm => ?_⟩
    rw [over_append hpre hs'] at hb
    have hba : b ≤ s := hb.le hpre
    have has : a ≤ s := hover.le hpre
    rw [over_append hpre (by omega)]
    rcases isMinted_concat.mp hbm with hbm | ⟨-, hnone⟩
    · exact hnearest b hb hbm
    · -- the source was asked for the label, so it does not lie over a scope that mints it freshly
      obtain ⟨k, hk⟩ := hminted
      rcases hover.total hb with hab | hba
      · exact absurd (List.mem_of_getElem? hk.1) (hnone a hab)
      · exact hba

end TripleLoom.Scopes
