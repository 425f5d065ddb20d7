import TripleLoom.Proofs.Sequence.Coverage
import TripleLoom.Select

/-!
# TripleLoom.Proofs.Sequence.Inline — solutions as inline data and back

The table that a query is joined with has a row for each solution and a cell for each binding
(`Sequence.carries_toTable`).  Read back as solutions, with the blank nodes restored, it gives every
term back that is not an IRI of the namespace set apart for blank nodes; such an IRI comes back as
the blank node that it spells (`Sequence.restores_toTable_iff`).  So the encoding tells apart all
terms outside of that namespace, and no others.
-/

namespace TripleLoom

/-! ### Terms -/

/-- An IRI that spells a blank node is the IRI made for it. -/
theorem Iri.unskolem?_eq_some_iff {i : Iri} {b : BlankNode} :
    i.unskolem? = some b ↔ i = b.skolem := by
  rw [unskolem?, Option.map_eq_some_iff]
  constructor
  · rintro ⟨label, hl, rfl⟩
    rw [List.isPrefixOf?_eq_some_iff_append_eq] at hl
    obtain ⟨text⟩ := i
    rw [BlankNode.skolem, Iri.mk.injEq, ← String.toList_inj, String.toList_append,
      String.toList_ofList]
    exact hl.symm
  · rintro rfl
    refine ⟨b.label.toList, ?_, by rw [String.ofList_toList]⟩
    rw [List.isPrefixOf?_eq_some_iff_append_eq, BlankNode.skolem, String.toList_append]

theorem BlankNode.skolem_injective {a b : BlankNode} (h : a.skolem = b.skolem) : a = b := by
  have ha := Iri.unskolem?_eq_some_iff.mpr (rfl : a.skolem = a.skolem)
  rw [h, Iri.unskolem?_eq_some_iff.mpr rfl] at ha
  exact (Option.some.inj ha).symm

namespace Term

/-- Whether a term is an IRI of the namespace set apart for blank nodes. -/
def isReserved : Term → Bool
  | .iri i => i.unskolem?.isSome
  | _ => false

/-- What comes back of a term that was written as inline data. -/
theorem restore_toGround (t : Term) : t.toGround.toTerm.restore = t.restore := by
  cases t with
  | iri i => rfl
  | literal l => rfl
  | blank b =>
    show (Term.iri b.skolem).restore = _
    rw [restore, Iri.unskolem?_eq_some_iff.mpr rfl]
    rfl

theorem restore_eq_self_iff {t : Term} : t.restore = t ↔ t.isReserved = false := by
  cases t with
  | iri i => cases h : i.unskolem? <;> simp [restore, isReserved, h]
  | literal l => exact iff_of_true rfl rfl
  | blank b => exact iff_of_true rfl rfl

/-- The encoding identifies a blank node with the IRI made for it, and no other two terms. -/
theorem toGround_eq_iff {s t : Term} : s.toGround = t.toGround ↔
    s = t ∨ ∃ b : BlankNode, s = .blank b ∧ t = .iri b.skolem ∨ s = .iri b.skolem ∧ t = .blank b := by
  cases s with
  | iri i => cases t <;> simp [toGround, eq_comm]
  | literal l => cases t <;> simp [toGround]
  | blank b =>
    cases t with
    | blank c => simpa [toGround] using ⟨BlankNode.skolem_injective, congrArg BlankNode.skolem⟩
    | iri | literal => simp [toGround, eq_comm]

end Term

/-! ### Solutions -/

namespace Solution

variable {s t : Solution} {v : Variable}

theorem get?_restoreBlanks : s.restoreBlanks.get? v = (s.get? v).map Term.restore := by
  have hkeys : ((s.bindings.map fun b => (b.1, b.2.restore)).map (·.1)).Nodup := by
    rw [List.map_map]
    exact nodup_bindings s
  ext term
  show (ofBindings (s.bindings.map fun b => (b.1, b.2.restore))).get? v = some term ↔ _
  rw [get?_ofBindings hkeys, lookup_eq_some_iff_mem hkeys, List.mem_map, Option.map_eq_some_iff]
  constructor
  · rintro ⟨⟨w, t⟩, hmem, heq⟩
    obtain ⟨rfl, rfl⟩ := Prod.mk.inj heq
    exact ⟨t, mem_bindings.mp hmem, rfl⟩
  · rintro ⟨t, ht, rfl⟩
    exact ⟨(v, t), mem_bindings.mpr ht, rfl⟩

theorem same_restoreBlanks (h : s.same t = true) :
    s.restoreBlanks.same t.restoreBlanks = true := by
  rw [same_iff] at h ⊢
  intro v
  rw [get?_restoreBlanks, get?_restoreBlanks, h v]

/-- Restoring blank nodes binds no further variable. -/
theorem IsUnder.restoreBlanks {vars : List Variable} (h : s.IsUnder vars) :
    s.restoreBlanks.IsUnder vars := by
  intro v term hv
  rw [get?_restoreBlanks] at hv
  obtain ⟨t, ht, -⟩ := Option.map_eq_some_iff.mp hv
  exact h v t ht

/-- A solution that binds no IRI of the namespace set apart for blank nodes. -/
def IsUnreserved (s : Solution) : Prop := ∀ v term, s.get? v = some term → term.isReserved = false

theorem isUnreserved_iff : s.IsUnreserved ↔ ∀ b ∈ s.bindings, b.2.isReserved = false :=
  ⟨fun h b hb => h b.1 b.2 (mem_bindings.mp hb), fun h v term hv => h (v, term) (mem_bindings.mpr hv)⟩

instance : Decidable s.IsUnreserved := decidable_of_iff _ isUnreserved_iff.symm

/-- A solution comes back as it was exactly if it binds no reserved IRI. -/
theorem same_restored_iff (h : ∀ v, t.get? v = (s.get? v).map Term.restore) :
    t.same s = true ↔ s.IsUnreserved := by
  rw [same_iff]
  refine forall_congr' fun v => ?_
  rw [h v]
  cases hv : s.get? v with
  | none => simp
  | some term => simp [Term.restore_eq_self_iff]

end Solution

/-! ### Tables -/

/-- The solution of a row under the variables of its table; an absent cell binds nothing. -/
def Solution.ofRow (vars : List Variable) (row : List (Option GroundTerm)) : Solution :=
  .ofBindings ((vars.zip row).filterMap fun (v, cell) => cell.map fun term => (v, term.toTerm))

theorem Solution.isUnder_ofRow (vars : List Variable) (row : List (Option GroundTerm)) :
    (Solution.ofRow vars row).IsUnder vars := by
  refine Solution.isUnder_ofBindings fun b hb => ?_
  obtain ⟨⟨v, cell⟩, hmem, hcell⟩ := List.mem_filterMap.mp hb
  obtain ⟨term, -, rfl⟩ := Option.map_eq_some_iff.mp hcell
  exact (List.of_mem_zip hmem).1

/-- A table read as solutions. -/
def ValuesTable.toSequence (t : ValuesTable) : Sequence :=
  .ofLists t.vars (t.rows.map (Solution.ofRow t.vars))

/-- A table that holds a sequence: a row for each solution in order, and in it a cell for each
binding. -/
structure ValuesTable.Carries (t : ValuesTable) (s : Sequence) : Prop where
  vars : t.vars = s.vars
  size : t.rows.length = s.size
  cells : ∀ (i : Nat) (u : Solution), s.solutions[i]? = some u →
    ∃ row : List (Option GroundTerm), t.rows[i]? = some row ∧ row.length = t.vars.length ∧
      ∀ v term, u.get? v = some term →
        ∃ k : Nat, t.vars[k]? = some v ∧ row[k]? = some (some term.toGround)

/-- The table that a pattern is joined with in the innermost place, modifiers apart. -/
def GraphPattern.inlined? : GraphPattern → Option ValuesTable
  | .values table => some table
  | .join left _ => left.inlined?
  | .filter _ inner | .extend inner _ _ | .orderBy inner _ | .project inner _ | .distinct inner
  | .reduced inner | .slice inner _ _ | .group inner _ _ => inner.inlined?
  | _ => none

namespace Select

variable (select : Select) (p : GraphPattern)

theorem inlined?_grouped : (select.grouped p).inlined? = p.inlined? := by
  unfold grouped
  split <;> rfl

theorem inlined?_filtered : (select.filtered p).inlined? = p.inlined? := by
  unfold filtered
  induction select.having generalizing p with
  | nil => rfl
  | cons condition rest ih => exact ih _

theorem inlined?_computed : (select.computed p).inlined? = p.inlined? := by
  unfold computed
  induction select.projection.getD [] generalizing p with
  | nil => rfl
  | cons item rest ih =>
    rw [List.foldl_cons, ih]
    split <;> rfl

theorem inlined?_ordered : (select.ordered p).inlined? = p.inlined? := by
  unfold ordered
  split <;> rfl

theorem inlined?_deduplicated : (select.deduplicated p).inlined? = p.inlined? := by
  unfold deduplicated
  split
  · rfl
  · split <;> rfl

theorem inlined?_sliced : (select.sliced p).inlined? = p.inlined? := by
  unfold sliced
  split <;> rfl

/-- The query for the engine is joined with the table of the solutions, unless there is but the one
solution without variables. -/
theorem inlined?_toQuery {s : Sequence} (h : ¬(s.vars = [] ∧ s.size = 1)) :
    (select.toQuery s).pattern.inlined? = some s.toTable := by
  have hjoin : (select.pattern.joinInline s).inlined? = some s.toTable := by
    unfold GraphPattern.joinInline
    rw [if_neg (by rwa [List.isEmpty_iff])]
    split <;> rfl
  rw [toQuery, inlined?_sliced, inlined?_deduplicated, GraphPattern.inlined?, inlined?_ordered,
    inlined?_computed, inlined?_filtered, inlined?_grouped, hjoin]

end Select

namespace Sequence

variable {s : Sequence}

theorem IsCovered.restoreBlanks (h : s.IsCovered) : s.restoreBlanks.IsCovered := by
  intro w hw
  obtain ⟨u, hu, rfl⟩ := List.mem_map.mp hw
  exact (h u hu).restoreBlanks

theorem carries_toTable (h : s.IsCovered) : s.toTable.Carries s where
  vars := rfl
  size := List.length_map _
  cells := by
    intro i u hu
    refine ⟨_, by rw [toTable, List.getElem?_map, hu]; rfl, List.length_map _, fun v term hv => ?_⟩
    obtain ⟨k, hk⟩ := List.getElem?_of_mem (h u (List.mem_of_getElem? hu) v term hv)
    exact ⟨k, hk, by rw [List.getElem?_map, show s.toTable.vars[k]? = some v from hk]; simp [hv]⟩

/-- What comes back of the solutions that were written as inline data. -/
def roundTrip (s : Sequence) : Sequence := s.toTable.toSequence.restoreBlanks

theorem vars_roundTrip (s : Sequence) : s.roundTrip.vars = s.vars :=
  Variable.declareAll_of_nodup s.nodup

/-- Every term comes back restored. -/
theorem get?_roundTrip (h : s.IsCovered) {i : Nat} {u : Solution} (hu : s.solutions[i]? = some u) :
    ∃ t, s.roundTrip.solutions[i]? = some t ∧ ∀ v, t.get? v = (u.get? v).map Term.restore := by
  let row := s.vars.map fun v => (u.get? v).map Term.toGround
  have hrow : ∀ v, (Solution.ofRow s.vars row).get? v = (u.get? v).map (·.toGround.toTerm) := by
    intro v
    have hcells : (s.vars.zip row).filterMap (fun (w, cell) => cell.map fun t => (w, t.toTerm)) =
        s.vars.filterMap fun w => ((u.get? w).map (·.toGround.toTerm)).map (w, ·) := by
      rw [← List.map_prod_left_eq_zip, List.filterMap_map]
      refine List.filterMap_congr fun w _ => ?_
      cases hw : u.get? w <;> simp [hw]
    rw [Solution.ofRow, hcells, Solution.get?_ofBindings_filterMap]
    split
    · rfl
    · next hv =>
      cases hu' : u.get? v with
      | none => rfl
      | some term => exact absurd (h u (List.mem_of_getElem? hu) v term hu') hv
  refine ⟨(Solution.ofRow s.vars row).restoreBlanks, ?_, fun v => ?_⟩
  · rw [roundTrip, restoreBlanks, solutions_withSolutions, ValuesTable.toSequence, solutions_ofLists,
      toTable, List.map_map, List.map_map, List.getElem?_map, hu]
    rfl
  · rw [Solution.get?_restoreBlanks, hrow, Option.map_map]
    exact congrArg (Option.map · (u.get? v)) (funext Term.restore_toGround)

theorem size_roundTrip (s : Sequence) : s.roundTrip.size = s.size := by
  simp [size, roundTrip, restoreBlanks, ValuesTable.toSequence, toTable]

/-- A sequence comes back as it was exactly if none of its solutions binds a reserved IRI. -/
theorem same_roundTrip_iff (h : s.IsCovered) :
    s.roundTrip.same s = true ↔ ∀ u ∈ s.solutions, u.IsUnreserved := by
  have hsize : s.roundTrip.solutions.length = s.solutions.length := s.size_roundTrip
  rw [same, vars_roundTrip, size_roundTrip, beq_self_eq_true, beq_self_eq_true, Bool.and_self,
    Bool.true_and, List.all_eq_true]
  constructor
  · intro hall u hu
    obtain ⟨i, hi⟩ := List.getElem?_of_mem hu
    obtain ⟨t, ht, hget⟩ := get?_roundTrip h hi
    exact (Solution.same_restored_iff hget).mp <|
      hall (t, u) (List.mem_of_getElem? (List.getElem?_zip_eq_some.mpr ⟨ht, hi⟩))
  · rintro hall ⟨t, u⟩ hmem
    obtain ⟨i, hi⟩ := List.getElem?_of_mem hmem
    obtain ⟨ht, hu⟩ := List.getElem?_zip_eq_some.mp hi
    obtain ⟨t', ht', hget⟩ := get?_roundTrip h hu
    obtain rfl : t' = t := Option.some.inj (ht'.symm.trans ht)
    exact (Solution.same_restored_iff hget).mpr (hall u (List.mem_of_getElem? hu))

/-- **Inline data read back.**  The query for the engine is joined with a table from which every
solution comes back, in order and under the same variables: each of its terms restored, and so the
solution as it was exactly if it binds no reserved IRI.  Two terms are the same inline data only if
they are equal or one of them is a blank node and the other the IRI made for it. -/
theorem roundTrip_restores (select : Select) (s : Sequence) (h : s.IsCovered) :
    (¬(s.vars = [] ∧ s.size = 1) → (select.toQuery s).pattern.inlined? = some s.toTable) ∧
    s.roundTrip.vars = s.vars ∧ s.roundTrip.size = s.size ∧
    (∀ (i : Nat) (u : Solution), s.solutions[i]? = some u →
      ∃ t, s.roundTrip.solutions[i]? = some t ∧ (∀ v, t.get? v = (u.get? v).map Term.restore) ∧
        (t.same u = true ↔ u.IsUnreserved)) ∧
    (s.roundTrip.same s = true ↔ ∀ u ∈ s.solutions, u.IsUnreserved) ∧
    ∀ a b : Term, a.toGround = b.toGround ↔ a = b ∨
      ∃ n : BlankNode, a = .blank n ∧ b = .iri n.skolem ∨ a = .iri n.skolem ∧ b = .blank n := by
  refine ⟨select.inlined?_toQuery, s.vars_roundTrip, s.size_roundTrip, fun i u hu => ?_,
    same_roundTrip_iff h, fun a b => Term.toGround_eq_iff⟩
  obtain ⟨t, ht, hget⟩ := get?_roundTrip h hu
  exact ⟨t, ht, hget, Solution.same_restored_iff hget⟩

/-- Solutions with a blank node and a literal, with a blank node that hides an IRI, and without any
binding. -/
def mixed : Sequence :=
  .ofLists [⟨"x"⟩, ⟨"y"⟩]
    [.ofBindings [(⟨"x"⟩, .blank ⟨"b0"⟩), (⟨"y"⟩, .literal (.tagged "chat" "fr"))],
      (Solution.ofBindings [(⟨"x"⟩, .iri ⟨"urn:hidden"⟩)]).overlay ⟨"x"⟩ (.blank ⟨"b1"⟩),
      .empty]

theorem mixed_comes_back : mixed.IsCovered ∧ (∀ u ∈ mixed.solutions, u.IsUnreserved) ∧
    ((default : Select).toQuery mixed).pattern.inlined? = some mixed.toTable ∧
    mixed.roundTrip.same mixed = true := by
  have hcovered : mixed.IsCovered := by decide +kernel
  have hfree : ∀ u ∈ mixed.solutions, u.IsUnreserved := by decide +kernel
  obtain ⟨htable, -, -, -, hsame, -⟩ := roundTrip_restores default mixed hcovered
  exact ⟨hcovered, hfree, htable (by decide), hsame.mpr hfree⟩

/-- A solution that binds an IRI of the namespace set apart for blank nodes. -/
def disguised : Sequence :=
  .ofLists [⟨"x"⟩] [.ofBindings [(⟨"x"⟩, .iri ⟨"urn:sparql-generate:skolem:b0"⟩)]]

/-- It comes back as the blank node, since that is the same inline data. -/
theorem disguised_comes_back_blank : disguised.IsCovered ∧
    disguised.roundTrip.solutions.map (·.get? ⟨"x"⟩) = [some (.blank ⟨"b0"⟩)] ∧
    disguised.roundTrip.same disguised = false ∧
    (Term.iri ⟨"urn:sparql-generate:skolem:b0"⟩).toGround = (Term.blank ⟨"b0"⟩).toGround ∧
    Term.iri ⟨"urn:sparql-generate:skolem:b0"⟩ ≠ .blank ⟨"b0"⟩ := by
  decide +kernel

end Sequence

end TripleLoom
