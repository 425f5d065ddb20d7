import Mathlib.Data.List.Nodup
import TripleLoom.Proofs.Pipeline.NestedLoops
import TripleLoom.Run.Output

/-!
# TripleLoom.Proofs.Pipeline.Minting — nodes for the placeholders of solutions

Every final solution has a scope of its own, a leaf two steps below the root of the run, and labels
are minted in leaves only (`Scopes.Layered`).  So no leaf sees what another one minted, and the
nodes of all leaves and labels are distinct.  What is minted stays: a naming that agrees with the
scopes after a computation agrees with those before it (`Scopes.Extends.agrees`), and a
computation on a leaf gives what it would give if all nodes were known in advance (`RunM.Mints`).
-/

namespace TripleLoom

open RunM

/-- Nodes for the labels of scopes. -/
abbrev Naming := ScopeId → String → BlankNode

namespace Scopes

/-! ### Layers -/

/-- Whether labels were minted in scopes that exist. -/
def Bounded (s : Scopes) : Prop := ∀ b ∈ s.minted, b.1.1 < s.ancestors.size

/-- Scopes in which, from a root on, labels are minted in the leaves only, and in no scope above a
leaf; what is minted there is fresh each time. -/
structure Layered (s : Scopes) (root : Nat) (leaves : List Nat) : Prop where
  root_lt : root < s.ancestors.size
  root_nil : s.ancestors.getD root [] = []
  leaf_lt : ∀ σ ∈ leaves, root < σ ∧ σ < s.ancestors.size
  above : ∀ σ ∈ leaves, ∀ a : Nat, a ∈ s.ancestors.getD σ [] →
    a ∉ leaves ∧ root ≤ a ∧ a < s.ancestors.size
  nodup : leaves.Nodup
  minted : ∀ b ∈ s.minted, b.1.1 < root ∨ b.1.1 ∈ leaves
  fresh : ∀ b ∈ s.minted, b.1.1 ∈ leaves → ∃ n < s.nextFresh, b.2 = .fresh n
  distinct : ((s.minted.filter fun b => b.1.1 ∈ leaves).map (·.2)).Nodup

/-- What was minted stays. -/
def Extends (s t : Scopes) : Prop :=
  ∀ k n, s.minted.lookup k = some n → t.minted.lookup k = some n

/-- Whether a naming gives what was minted. -/
def Agrees (s : Scopes) (F : Naming) : Prop :=
  ∀ σ l n, s.minted.lookup (σ, l) = some n → F σ l = n

theorem Extends.refl (s : Scopes) : Extends s s := fun _ _ h => h

theorem Extends.trans {s t u : Scopes} (h : Extends s t) (h' : Extends t u) : Extends s u :=
  fun k n hk => h' k n (h k n hk)

theorem Extends.of_minted {s t : Scopes} (h : t.minted = s.minted) : Extends s t :=
  fun k n hk => by rw [h, hk]

theorem Extends.agrees {s t : Scopes} {F : Naming} (h : Extends s t) (hF : t.Agrees F) :
    s.Agrees F := fun σ l n hk => hF σ l n (h _ _ hk)

variable {s : Scopes} {root σ : Nat} {leaves : List Nat}

/-- Only a leaf itself knows its labels. -/
theorem Layered.node?_eq (h : s.Layered root leaves) (hσ : σ ∈ leaves) (l : String) :
    s.node? σ l = s.minted.lookup (σ, l) := by
  have habove : (s.ancestors.getD σ []).findSome? (fun a => s.minted.lookup (a, l)) = none := by
    rw [List.findSome?_eq_none_iff]
    intro a ha
    rw [List.lookup_eq_none_iff]
    intro b hb
    have hne : a ≠ b.1.1 := fun he => by
      obtain ⟨hout, hroot, -⟩ := h.above σ hσ a ha
      rcases h.minted b hb with hlt | hmem
      · exact absurd hlt (Nat.not_lt.mpr (he ▸ hroot))
      · exact hout (he ▸ hmem)
    simpa [Prod.ext_iff] using fun he => absurd he hne
  rw [node?, path, List.findSome?_cons]
  cases hlookup : s.minted.lookup (σ, l) with
  | some n => rfl
  | none => exact habove

theorem Layered.bounded (h : s.Layered root leaves) : s.Bounded := fun b hb => by
  rcases h.minted b hb with hlt | hmem
  · exact Nat.lt_trans hlt h.root_lt
  · exact (h.leaf_lt _ hmem).2

/-- Minting a label in a leaf. -/
theorem Layered.mint (h : s.Layered root leaves) (hσ : σ ∈ leaves) (l : String) :
    (s.mint σ l).2.Layered root leaves ∧ s.Extends (s.mint σ l).2 ∧
      (s.mint σ l).2.minted.lookup (σ, l) = some (s.mint σ l).1 := by
  unfold Scopes.mint
  rw [h.node?_eq hσ]
  cases hlookup : s.minted.lookup (σ, l) with
  | some n => exact ⟨h, .refl s, hlookup⟩
  | none =>
    have hnew : ∀ b ∈ s.minted, b.1.1 ∈ leaves → b.2 ≠ .fresh s.nextFresh := fun b hb hl he => by
      obtain ⟨n, hn, hb⟩ := h.fresh b hb hl
      exact absurd (BlankNode.fresh_injective (hb ▸ he)) (Nat.ne_of_lt hn)
    refine ⟨⟨h.root_lt, h.root_nil, h.leaf_lt, h.above, h.nodup, ?_, ?_, ?_⟩, ?_, ?_⟩
    · exact List.forall_mem_cons.mpr ⟨.inr hσ, h.minted⟩
    · refine List.forall_mem_cons.mpr
        ⟨fun _ => ⟨s.nextFresh, Nat.lt_succ_self _, rfl⟩, fun b hb hl => ?_⟩
      obtain ⟨n, hn, hb⟩ := h.fresh b hb hl
      exact ⟨n, Nat.lt_succ_of_lt hn, hb⟩
    · rw [List.filter_cons_of_pos (by simpa using hσ), List.map_cons, List.nodup_cons]
      refine ⟨fun hmem => ?_, h.distinct⟩
      obtain ⟨b, hb, he⟩ := List.mem_map.mp hmem
      obtain ⟨hb, hl⟩ := List.mem_filter.mp hb
      exact hnew b hb (of_decide_eq_true hl) he
    · intro k n hk
      have hne : k ≠ (σ, l) := fun he => by rw [he, hlookup] at hk; cases hk
      show List.lookup k (((σ, l), _) :: s.minted) = some n
      rw [List.lookup_cons, beq_false_of_ne hne]
      exact hk
    · show List.lookup (σ, l) (((σ, l), _) :: s.minted) = _
      rw [List.lookup_cons, beq_self_eq_true]

/-- Minting some labels in leaves makes them known. -/
theorem Layered.exists_minted (h : s.Layered root leaves) :
    ∀ keys : List (ScopeId × String), (∀ k ∈ keys, k.1 ∈ leaves) →
      ∃ t : Scopes, t.Layered root leaves ∧ s.Extends t ∧
        ∀ k ∈ keys, ∃ n, t.minted.lookup k = some n
  | [], _ => ⟨s, h, .refl s, by simp⟩
  | (σ, l) :: rest, hkeys => by
    obtain ⟨hσ, hrest⟩ := List.forall_mem_cons.mp hkeys
    obtain ⟨t, ht, hst, hknown⟩ := h.exists_minted rest hrest
    obtain ⟨hm, htm, hnode⟩ := ht.mint hσ l
    refine ⟨_, hm, hst.trans htm, List.forall_mem_cons.mpr ⟨⟨_, hnode⟩, fun k hk => ?_⟩⟩
    obtain ⟨n, hn⟩ := hknown k hk
    exact ⟨n, htm k n hn⟩

/-- A naming of some labels in all leaves that agrees with what was minted. -/
theorem Layered.exists_naming (h : s.Layered root leaves) (labels : List String) :
    ∃ F : Naming, s.Agrees F ∧ ∀ σ ∈ leaves, ∀ l ∈ labels, (∃ n, F σ l = .fresh n) ∧
      ∀ σ' ∈ leaves, ∀ l' ∈ labels, F σ l = F σ' l' → σ = σ' ∧ l = l' := by
  obtain ⟨t, ht, hst, hknown⟩ := h.exists_minted
    (leaves.flatMap fun σ => labels.map (σ, ·)) (by
      intro k hk
      obtain ⟨σ, hσ, hk⟩ := List.mem_flatMap.mp hk
      obtain ⟨l, -, rfl⟩ := List.mem_map.mp hk
      exact hσ)
  have hmem : ∀ σ ∈ leaves, ∀ l ∈ labels, ∃ n,
      t.minted.lookup (σ, l) = some n ∧
        ((σ, l), n) ∈ t.minted.filter fun b => b.1.1 ∈ leaves := by
    intro σ hσ l hl
    obtain ⟨n, hn⟩ := hknown (σ, l)
      (List.mem_flatMap.mpr ⟨σ, hσ, List.mem_map.mpr ⟨l, hl, rfl⟩⟩)
    obtain ⟨before, after, hb, -⟩ := List.lookup_eq_some_iff.mp hn
    refine ⟨n, hn, List.mem_filter.mpr ⟨?_, decide_eq_true hσ⟩⟩
    exact hb ▸ List.mem_append_right _ List.mem_cons_self
  refine ⟨fun σ l => (t.minted.lookup (σ, l)).getD default, ?_, ?_⟩
  · intro σ l n hn
    simp only [hst _ _ hn, Option.getD_some]
  · intro σ hσ l hl
    obtain ⟨n, hn, hin⟩ := hmem σ hσ l hl
    refine ⟨?_, fun σ' hσ' l' hl' he => ?_⟩
    · obtain ⟨m, -, hm⟩ := ht.fresh _ (List.mem_filter.mp hin).1 hσ
      exact ⟨m, by simp only [hn, Option.getD_some]; exact hm⟩
    · obtain ⟨n', hn', hin'⟩ := hmem σ' hσ' l' hl'
      simp only [hn, hn', Option.getD_some] at he
      have hpair := List.inj_on_of_nodup_map ht.distinct hin hin' he
      exact Prod.mk.inj (Prod.mk.inj hpair).1

/-! ### New leaves -/

/-- A new root has no leaves yet. -/
theorem Bounded.layered_root (h : s.Bounded) : s.root.2.Layered s.root.1 [] where
  root_lt := by simp [Scopes.root]
  root_nil := by simp [Scopes.root]
  leaf_lt := by simp
  above := by simp
  nodup := List.nodup_nil
  minted b hb := .inl (h b hb)
  fresh := by simp
  distinct := by simp

/-- Some scopes below a scope that exists: they are new, and what was there is as it was. -/
theorem children_spec (parent : Nat) : ∀ (n : Nat) (s : Scopes),
    parent < s.ancestors.size →
    (s.children parent n).1 = List.range' s.ancestors.size n ∧
      (s.children parent n).2.minted = s.minted ∧
      (s.children parent n).2.nextFresh = s.nextFresh ∧
      (s.children parent n).2.ancestors.size = s.ancestors.size + n ∧
      (∀ a : Nat, a < s.ancestors.size →
        (s.children parent n).2.ancestors.getD a [] = s.ancestors.getD a []) ∧
      ∀ σ ∈ (s.children parent n).1, (s.children parent n).2.ancestors.getD σ [] = s.path parent
  | 0, s, _ => ⟨rfl, rfl, rfl, rfl, fun _ _ => rfl, fun σ hσ => by cases hσ⟩
  | n + 1, s, h => by
    have hpush : ∀ a : Nat, a < s.ancestors.size →
        (s.child parent).2.ancestors.getD a [] = s.ancestors.getD a [] := fun a ha => getD_push ha
    have hsize : (s.child parent).2.ancestors.size = s.ancestors.size + 1 := Array.size_push _
    obtain ⟨hids, hminted, hfresh, hcount, hkeep, hpath⟩ :=
      children_spec parent n (s.child parent).2 (by omega)
    have hparent : (s.child parent).2.path parent = s.path parent := by
      rw [path, path, hpush parent h]
    have hfirst : (s.child parent).2.ancestors.getD s.ancestors.size [] = s.path parent := by
      simp [child]
    refine ⟨?_, hminted, hfresh, ?_, fun a ha => ?_, ?_⟩
    · show s.ancestors.size :: ((s.child parent).2.children parent n).1 = _
      rw [hids, hsize]
      rfl
    · show ((s.child parent).2.children parent n).2.ancestors.size = _
      omega
    · show ((s.child parent).2.children parent n).2.ancestors.getD a [] = _
      rw [hkeep a (by omega), hpush a ha]
    · refine List.forall_mem_cons.mpr ⟨?_, fun σ hσ => ?_⟩
      · show ((s.child parent).2.children parent n).2.ancestors.getD s.ancestors.size [] = _
        rw [hkeep _ (by omega), hfirst]
      · exact (hpath σ hσ).trans hparent

/-- Some scopes two steps below another one. -/
def fork (s : Scopes) (root : Nat) (n : Nat) : List ScopeId × Scopes :=
  (s.child root).2.children (s.child root).1 n

/-- What there is after scopes were made two steps below a root: they are new, and nothing else
changed. -/
structure Forked (s : Scopes) (root n : Nat) (ids : List ScopeId) (t : Scopes) : Prop where
  minted : t.minted = s.minted
  nextFresh : t.nextFresh = s.nextFresh
  size : s.ancestors.size < t.ancestors.size
  kept : ∀ a : Nat, a < s.ancestors.size → t.ancestors.getD a [] = s.ancestors.getD a []
  length : ids.length = n
  nodup : ids.Nodup
  new : ∀ σ : Nat, σ ∈ ids → s.ancestors.size < σ ∧ σ < t.ancestors.size
  above : ∀ σ ∈ ids, t.ancestors.getD σ [] = [s.ancestors.size, root]

theorem forked_fork (hnil : s.ancestors.getD root [] = []) (n : Nat) :
    Forked s root n (s.fork root n).1 (s.fork root n).2 := by
  have hpush : ∀ a : Nat, a < s.ancestors.size →
      (s.child root).2.ancestors.getD a [] = s.ancestors.getD a [] := fun a ha => getD_push ha
  have hsize : (s.child root).2.ancestors.size = s.ancestors.size + 1 := Array.size_push _
  have hpath : (s.child root).2.path (s.child root).1 = [s.ancestors.size, root] := by
    show _ :: (s.child root).2.ancestors.getD s.ancestors.size [] = _
    simp [child, path, hnil]
  obtain ⟨hids, hminted, hfresh, hcount, hkeep, habove⟩ :=
    children_spec (s.child root).1 n (s.child root).2 (by rw [hsize]; exact Nat.lt_succ_self _)
  unfold fork
  refine ⟨hminted, hfresh, by omega, fun a ha => ?_, ?_, ?_, fun σ hσ => ?_, fun σ hσ => ?_⟩
  · rw [hkeep a (by omega), hpush a ha]
  · rw [hids, List.length_range']
  · rw [hids]
    exact List.nodup_range'
  · rw [hids, hsize] at hσ
    have := List.mem_range'_1.mp hσ
    omega
  · rw [habove σ hσ, hpath]

/-- A fork below the root gets new leaves. -/
theorem Layered.fork (h : s.Layered root leaves) (n : Nat) :
    (s.fork root n).2.Layered root (leaves ++ (s.fork root n).1) ∧
      s.Extends (s.fork root n).2 := by
  have hf := forked_fork h.root_nil n
  have hroot := h.root_lt
  have hsize := hf.size
  have hold : ∀ a : Nat, a ≤ s.ancestors.size → a ∉ (s.fork root n).1 := fun a ha hmem => by
    have := (hf.new a hmem).1
    omega
  have hinner : ∀ b ∈ s.minted, b.1.1 ∉ (s.fork root n).1 := fun b hb => by
    rcases h.minted b hb with hlt | hmem
    · exact hold _ (Nat.le_of_lt (Nat.lt_trans hlt hroot))
    · exact hold _ (Nat.le_of_lt (h.leaf_lt _ hmem).2)
  refine ⟨⟨by omega, ?_, ?_, ?_, ?_, ?_, ?_, ?_⟩, .of_minted hf.minted⟩
  · rw [hf.kept root h.root_lt, h.root_nil]
  · intro σ hσ
    rcases List.mem_append.mp hσ with hσ | hσ
    · have := h.leaf_lt σ hσ
      omega
    · have := hf.new σ hσ
      omega
  · intro σ hσ a ha
    rw [List.mem_append, not_or]
    rcases List.mem_append.mp hσ with hσ | hσ
    · rw [hf.kept σ (h.leaf_lt σ hσ).2] at ha
      obtain ⟨hout, hle, halt⟩ := h.above σ hσ a ha
      exact ⟨⟨hout, hold a (by omega)⟩, hle, by omega⟩
    · rw [hf.above σ hσ] at ha
      rcases List.mem_cons.mp ha with rfl | ha
      · exact ⟨⟨fun hmem => absurd (h.leaf_lt _ hmem).2 (Nat.lt_irrefl _), hold _ (Nat.le_refl _)⟩,
          by omega, hsize⟩
      · obtain rfl := List.mem_singleton.mp ha
        exact ⟨⟨fun hmem => absurd (h.leaf_lt a hmem).1 (Nat.lt_irrefl _), hold a (by omega)⟩,
          Nat.le_refl _, by omega⟩
  · refine List.nodup_append.mpr ⟨h.nodup, hf.nodup, fun a ha b hb he => ?_⟩
    have h₁ := (h.leaf_lt a ha).2
    have h₂ := (hf.new b hb).1
    omega
  · rw [hf.minted]
    exact fun b hb => (h.minted b hb).imp_right (List.mem_append_left _)
  · rw [hf.minted, hf.nextFresh]
    exact fun b hb hl => h.fresh b hb ((List.mem_append.mp hl).resolve_right (hinner b hb))
  · rw [hf.minted, List.filter_congr (q := fun b => b.1.1 ∈ leaves) fun b hb => ?_]
    · exact h.distinct
    · simp [hinner b hb]

end Scopes

namespace RunM

/-! ### Computations on leaves -/

section

variable (root : Nat) (leaves : List Nat)

/-- A computation that may mint in the leaves, and gives what `f` makes of every naming that agrees
with the scopes after it. -/
def Mints {α : Type} (m : RunM α) (f : Naming → α) : Prop :=
  ∀ s : RunState, s.scopes.Layered root leaves → ∃ t : Scopes, (m s).2 = { s with scopes := t } ∧
    t.Layered root leaves ∧ s.scopes.Extends t ∧ ∀ F, t.Agrees F → (m s).1 = f F

/-- A computation that may mint in the leaves, and writes the triples that `f` makes of every naming
that agrees with the scopes after it. -/
def Writes (sink : SinkId) (m : RunM Unit) (f : Naming → List Triple) : Prop :=
  ∀ s : RunState, s.scopes.Layered root leaves → ∃ (t : Scopes) (triples : List Triple),
    (m s).2 = { s with
      scopes := t
      record := (triples.map fun triple => .written sink (.triple triple)).reverse ++ s.record } ∧
    t.Layered root leaves ∧ s.scopes.Extends t ∧ ∀ F, t.Agrees F → triples = f F

end

variable {root : Nat} {leaves : List Nat} {sink : SinkId}

theorem Mints.pure {α : Type} (a : α) : Mints root leaves (Pure.pure a) fun _ => a :=
  fun s h => ⟨s.scopes, rfl, h, .refl _, fun _ _ => rfl⟩

theorem Mints.bind {α β : Type} {m : RunM α} {f : Naming → α} {k : α → RunM β}
    {g : α → Naming → β} (hm : Mints root leaves m f) (hk : ∀ a, Mints root leaves (k a) (g a)) :
    Mints root leaves (m >>= k) fun F => g (f F) F := by
  intro s h
  obtain ⟨t, ht, hlt, het, hft⟩ := hm s h
  obtain ⟨u, hu, hlu, heu, hfu⟩ := hk (m s).1 (m s).2 (by rw [ht]; exact hlt)
  rw [ht] at heu
  refine ⟨u, ?_, hlu, het.trans heu, fun F hF => ?_⟩
  · rw [bind_apply, hu, ht]
  · rw [bind_apply, hfu F hF, hft F (heu.agrees hF)]

/-- A computation that goes on only if there is something to go on with. -/
theorem Mints.bindSome {α β : Type} {m : RunM (Option α)} {f : Naming → Option α}
    {k : Option α → RunM (Option β)} {g : α → Naming → Option β} (hm : Mints root leaves m f)
    (hnone : k none = Pure.pure none) (hk : ∀ a, Mints root leaves (k (some a)) (g a)) :
    Mints root leaves (m >>= k) fun F => (f F).bind (g · F) := by
  refine hm.bind (g := fun x F => x.bind (g · F)) fun x => ?_
  cases x with
  | none => exact hnone ▸ Mints.pure none
  | some a => exact hk a

theorem Writes.nil : Writes root leaves sink (Pure.pure ()) fun _ => [] :=
  fun s h => ⟨s.scopes, [], rfl, h, .refl _, fun _ _ => rfl⟩

theorem Writes.append {m n : RunM Unit} {f g : Naming → List Triple}
    (hm : Writes root leaves sink m f) (hn : Writes root leaves sink n g) :
    Writes root leaves sink (m >>= fun _ => n) fun F => f F ++ g F := by
  intro s h
  obtain ⟨t, first, ht, hlt, het, hft⟩ := hm s h
  obtain ⟨u, second, hu, hlu, heu, hfu⟩ := hn (m s).2 (by rw [ht]; exact hlt)
  rw [ht] at heu
  refine ⟨u, first ++ second, ?_, hlu, het.trans heu, fun F hF => ?_⟩
  · rw [bind_apply, hu, ht]
    simp
  · rw [hfu F hF, hft F (heu.agrees hF)]

theorem Writes.forM {α : Type} {k : α → RunM Unit} {g : α → Naming → List Triple} :
    ∀ {l : List α}, (∀ a ∈ l, Writes root leaves sink (k a) (g a)) →
      Writes root leaves sink (l.forM k) fun F => l.flatMap fun a => g a F
  | [], _ => .nil
  | a :: l, h => by
    have hrest : Writes root leaves sink (l.forM k) fun F => l.flatMap fun a => g a F :=
      Writes.forM fun b hb => h b (List.mem_cons_of_mem a hb)
    exact (h a List.mem_cons_self).append hrest

/-- A triple that may be missing, and is written if it is not. -/
theorem Writes.ofMints {c : Context} {m : RunM (Option Triple)} {f : Naming → Option Triple}
    (hm : Mints root leaves m f) :
    Writes root leaves c.sink (do
      match ← m with
      | some triple => c.write (.triple triple)
      | none => return) fun F => (f F).toList := by
  intro s h
  obtain ⟨t, ht, hlt, het, hft⟩ := hm s h
  refine ⟨t, (m s).1.toList, ?_, hlt, het, fun F hF => by rw [hft F hF]⟩
  simp only [bind_apply]
  cases (m s).1 with
  | none => exact ht
  | some triple =>
    show (c.write (.triple triple) (m s).2).2 = _
    rw [ht]
    rfl

end RunM

/-! ### Instances -/

section Instances

variable {root : Nat} {leaves : List Nat} {c : Context} (h : c.scope ∈ leaves) (s : Solution)

include h

theorem TemplateTerm.mints_instantiate (t : TemplateTerm) :
    Mints root leaves (t.instantiate c s) fun F => t.named? (F c.scope) s := by
  cases t with
  | blank b =>
    intro state hstate
    obtain ⟨hl, he, hlookup⟩ := hstate.mint h b.label
    refine ⟨_, rfl, hl, he, fun F hF => ?_⟩
    show some (Term.blank (state.scopes.mint c.scope b.label).1) =
      some (Term.blank (F c.scope b.label))
    rw [hF _ _ _ hlookup]
  | iri | literal | var => exact .pure _

theorem TripleTemplate.mints_instantiate (t : TripleTemplate) :
    Mints root leaves (t.instantiate c s) fun F => t.named? (F c.scope) s := by
  refine (t.subject.mints_instantiate h s).bindSome rfl fun subject => ?_
  refine (t.predicate.mints_instantiate h s).bindSome rfl fun predicate => ?_
  refine (t.object.mints_instantiate h s).bindSome rfl fun object => ?_
  exact .pure (Triple.ofTerms? subject predicate object)

theorem TriplesPlan.writes_writeOne (fork : Context) (index : Nat)
    (templates : List TripleTemplate) :
    Writes root leaves fork.sink (TriplesPlan.writeOne ⟨templates, []⟩ fork c index s)
      fun F => instances (F c.scope) s templates := by
  have hall : Writes root leaves fork.sink (TriplesPlan.writeOne ⟨templates, []⟩ fork c index s)
      fun F => (templates.flatMap fun t => (t.named? (F c.scope) s).toList) ++ [] :=
    (Writes.forM fun t _ => Writes.ofMints (t.mints_instantiate h s)).append .nil
  have heq : ∀ F : Naming, instances (F c.scope) s templates =
      (templates.flatMap fun t => (t.named? (F c.scope) s).toList) ++ [] := fun F => by
    rw [List.append_nil, instances, List.filterMap_eq_flatMap_toList]
  simpa only [heq] using hall

end Instances

theorem TriplesPlan.writes_writeAll {root : Nat} {leaves : List Nat} (fork : Context)
    (templates : List TripleTemplate) : ∀ (index : Nat) {sites : List (Context × Solution)},
    (∀ site ∈ sites, site.1.scope ∈ leaves) →
      Writes root leaves fork.sink (TriplesPlan.writeAll ⟨templates, []⟩ fork index sites)
        fun F => sites.flatMap fun (c, s) => instances (F c.scope) s templates
  | _, [], _ => .nil
  | index, (_, s) :: _, h => by
    obtain ⟨hc, hrest⟩ := List.forall_mem_cons.mp h
    exact (writes_writeOne hc s fork index templates).append
      (writes_writeAll fork templates (index + 1) hrest)

end TripleLoom
