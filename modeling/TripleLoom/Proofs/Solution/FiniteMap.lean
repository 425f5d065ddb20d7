import Mathlib.Data.Finset.Card
import TripleLoom.Proofs.Sequence.Coverage

/-!
# TripleLoom.Proofs.Solution.FiniteMap — solutions are finite maps

Four walks through the layers of a solution have to agree: a lookup scans each layer backwards, the
list of the bindings that count drops what is hidden, emptiness looks at nothing but whether there is
a layer, and equality is one inclusion with a comparison of sizes.  They do, as all of them read one
finite map (`Reflects`): that of the bindings in the order in which they were given, of which the
later ones win (`Assignment`).  A history of solutions, each made from those before it, reflects the
same history of assignments (`Solution.reflects_makeAll`).
-/

namespace TripleLoom

/-! ### Assignments -/

/-- What each variable is assigned to, if to anything. -/
def Assignment := Variable → Option Term

namespace Assignment

/-- Nothing is assigned. -/
def blank : Assignment := fun _ => none

/-- A variable is assigned to a term, whatever it was assigned to before. -/
def bind (m : Assignment) (v : Variable) (t : Term) : Assignment :=
  fun w => if w = v then some t else m w

/-- Bindings one after the other, of which the later ones win. -/
def bindAll (m : Assignment) (bindings : List (Variable × Term)) : Assignment :=
  bindings.foldl (fun m b => m.bind b.1 b.2) m

/-- Only some variables stay assigned. -/
def restrict (m : Assignment) (vars : List Variable) : Assignment :=
  fun v => if v ∈ vars then m v else none

end Assignment

/-- A solution reads as an assignment: its lookups are those of the assignment, it lists each assigned
variable once with its term, its size is that of the assignment, and it is empty if nothing is
assigned. -/
structure Solution.Reflects (s : Solution) (m : Assignment) : Prop where
  get? : ∀ v, s.get? v = m v
  contains : ∀ v, s.contains v = (m v).isSome
  mem : ∀ v t, (v, t) ∈ s.bindings ↔ m v = some t
  nodup : (s.bindings.map (·.1)).Nodup
  size : ∃ domain : Finset Variable, (∀ v, v ∈ domain ↔ (m v).isSome) ∧ s.size = domain.card
  isEmpty : s.isEmpty = true ↔ ∀ v, m v = none

namespace Solution

variable {s t : Solution} {m n : Assignment}

/-- No layer is without bindings, so the first one shows whether anything is bound. -/
theorem isEmpty_iff : s.isEmpty = true ↔ ∀ v, s.get? v = none := by
  rw [isEmpty, List.isEmpty_iff]
  constructor
  · intro h v
    rw [get?, h]
    rfl
  · intro h
    cases hl : s.layers with
    | nil => rfl
    | cons layer rest =>
      have hlayer : layer ∈ s.layers := hl ▸ List.mem_cons_self
      obtain ⟨b, hb⟩ := List.exists_mem_of_ne_nil layer (s.ne_nil layer hlayer)
      have hlookup := List.findSome?_eq_none_iff.mp (h b.1) layer hlayer
      have hne := List.lookup_eq_none_iff.mp hlookup b (List.mem_reverse.mpr hb)
      rw [bne_self_eq_false] at hne
      cases hne

/-- All that a solution shows is determined by its lookups. -/
theorem reflects_of_get? (h : ∀ v, s.get? v = m v) : s.Reflects m where
  get? := h
  contains v := congrArg Option.isSome (h v)
  mem v t := by rw [mem_bindings, h v]
  nodup := nodup_bindings s
  size := by
    refine ⟨(s.bindings.map (·.1)).toFinset, fun v => ?_, ?_⟩
    · rw [List.mem_toFinset, List.mem_map, Option.isSome_iff_exists, ← h v]
      constructor
      · rintro ⟨⟨w, t⟩, hb, rfl⟩
        exact ⟨t, mem_bindings.mp hb⟩
      · rintro ⟨t, ht⟩
        exact ⟨(v, t), mem_bindings.mpr ht, rfl⟩
    · rw [List.toFinset_card_of_nodup (nodup_bindings s), List.length_map, size]
  isEmpty := by simp only [isEmpty_iff, h]

theorem reflects_empty : empty.Reflects .blank := reflects_of_get? fun _ => rfl

theorem Reflects.overlay (h : s.Reflects m) (v : Variable) (term : Term) :
    (s.overlay v term).Reflects (m.bind v term) :=
  reflects_of_get? fun w => by rw [get?_overlay, h.get? w, Assignment.bind]

theorem Reflects.extend (h : s.Reflects m) (bindings : List (Variable × Term)) :
    (s.extend bindings).Reflects (m.bindAll bindings) := by
  induction bindings generalizing s m with
  | nil => exact h
  | cons b rest ih =>
    refine reflects_of_get? fun v => ?_
    rw [get?_extend_cons]
    exact (ih (h.overlay b.1 b.2)).get? v

theorem Reflects.project (h : s.Reflects m) (vars : List Variable) :
    (s.project vars).Reflects (m.restrict vars) :=
  reflects_of_get? fun v => by
    rw [Solution.project, get?_ofBindings_filterMap, h.get? v, Assignment.restrict]

/-- Solutions are the same exactly if they read as the same assignment. -/
theorem Reflects.same_iff (h : s.Reflects m) (h' : t.Reflects n) : s.same t = true ↔ m = n := by
  rw [Solution.same_iff]
  constructor
  · exact fun heq => funext fun v => by rw [← h.get? v, ← h'.get? v, heq v]
  · rintro rfl v
    rw [h.get? v, h'.get? v]

/-! ### Histories of solutions -/

/-- A way to make a solution, anew or from one that was made before, which its number stands for. -/
inductive Making where
  | new
  | ofBindings (bindings : List (Variable × Term))
  | overlay (base : Nat) (v : Variable) (t : Term)
  | extend (base : Nat) (bindings : List (Variable × Term))
  | project (base : Nat) (vars : List Variable)

/-- The solution that is made, from those that there are. -/
def Making.make (made : List Solution) : Making → Solution
  | .new => .empty
  | .ofBindings bindings => .ofBindings bindings
  | .overlay base v t => (made.getD base .empty).overlay v t
  | .extend base bindings => (made.getD base .empty).extend bindings
  | .project base vars => (made.getD base .empty).project vars

/-- The assignment that is made in the same way. -/
def Making.assign (made : List Assignment) : Making → Assignment
  | .new => .blank
  | .ofBindings bindings => Assignment.blank.bindAll bindings
  | .overlay base v t => (made.getD base .blank).bind v t
  | .extend base bindings => (made.getD base .blank).bindAll bindings
  | .project base vars => (made.getD base .blank).restrict vars

/-- All solutions that are made, in their order. -/
def makeAll (makings : List Making) : List Solution :=
  makings.foldl (fun made making => made ++ [making.make made]) []

/-- All assignments that are made, in their order. -/
def assignAll (makings : List Making) : List Assignment :=
  makings.foldl (fun made making => made ++ [making.assign made]) []

section Makings

variable {made : List Solution} {assigned : List Assignment} {makings : List Making}

theorem makeAll_concat (makings : List Making) (making : Making) :
    makeAll (makings ++ [making]) = makeAll makings ++ [making.make (makeAll makings)] := by
  simp [makeAll]

theorem assignAll_concat (makings : List Making) (making : Making) :
    assignAll (makings ++ [making]) = assignAll makings ++ [making.assign (assignAll makings)] := by
  simp [assignAll]

theorem reflects_getD (h : List.Forall₂ Reflects made assigned) (base : Nat) :
    (made.getD base .empty).Reflects (assigned.getD base .blank) := by
  induction h generalizing base with
  | nil => exact reflects_empty
  | cons hs _ ih =>
    cases base with
    | zero => exact hs
    | succ base => exact ih base

/-- One more solution reflects one more assignment. -/
theorem Making.reflects (h : List.Forall₂ Reflects made assigned) (making : Making) :
    (making.make made).Reflects (making.assign assigned) := by
  cases making with
  | new => exact reflects_empty
  | ofBindings bindings => exact reflects_empty.extend bindings
  | overlay base v t => exact (reflects_getD h base).overlay v t
  | extend base bindings => exact (reflects_getD h base).extend bindings
  | project base vars => exact (reflects_getD h base).project vars

theorem forall₂_makeAll (makings : List Making) :
    List.Forall₂ Reflects (makeAll makings) (assignAll makings) := by
  induction makings using List.reverseRecOn with
  | nil => exact .nil
  | append_singleton makings making ih =>
    rw [makeAll_concat, assignAll_concat]
    exact List.rel_append ih (.cons (making.reflects ih) .nil)

theorem makeAll_prefix (makings more : List Making) :
    makeAll makings <+: makeAll (makings ++ more) := by
  induction more using List.reverseRecOn with
  | nil => rw [List.append_nil]
  | append_singleton more making ih =>
    rw [← List.append_assoc, makeAll_concat]
    exact ih.trans (List.prefix_append _ _)

end Makings

/-- **A solution is a finite map.**  Whatever solutions are made, each anew or from one that was made
before it, each reflects the assignment that is made in the same way by folding its bindings with the
later ones winning; two of them are the same exactly if their assignments are equal, however their
layers are cut; and making more of them changes none that is there. -/
theorem reflects_makeAll (makings : List Making) :
    List.Forall₂ Reflects (makeAll makings) (assignAll makings) ∧
      (∀ (i j : Nat) (s t : Solution) (m n : Assignment), (makeAll makings)[i]? = some s → (makeAll makings)[j]? = some t →
        (assignAll makings)[i]? = some m → (assignAll makings)[j]? = some n →
        (s.same t = true ↔ m = n)) ∧
      ∀ more, makeAll makings <+: makeAll (makings ++ more) := by
  have hall := forall₂_makeAll makings
  have hget : ∀ {i : Nat} {s : Solution} {m : Assignment}, (makeAll makings)[i]? = some s → (assignAll makings)[i]? = some m →
      s.Reflects m := by
    intro i s m hs hm
    have h := reflects_getD hall i
    rwa [List.getD_eq_getElem?_getD, List.getD_eq_getElem?_getD, hs, hm] at h
  exact ⟨hall, fun i j s t m n hs ht hm hn => (hget hs hm).same_iff (hget ht hn),
    makeAll_prefix makings⟩

end Solution

end TripleLoom
