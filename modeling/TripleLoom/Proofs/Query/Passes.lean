import TripleLoom.Proofs.Query.Lifting

/-!
# TripleLoom.Proofs.Query.Passes — lifting is done after one pass

Lifting goes on in passes until one of them finds nothing to lift.  The first pass already takes every
expression out, however deep it lies in lists (`Query.isLiftable_lift`), and a pass that finds none
changes nothing (`Query.lift_of_not_liftable`).  So two passes always do, and what they give is what
the first one gives (`Query.liftWithin_eq`): compiling never fails on lifting (`Build.lift_eq`).
-/

namespace TripleLoom

/-! ### Nothing to lift -/

section Unliftable

variable {l : Lifting}

theorem Position.lifted_eq_self {p : Position} (h : p.isLiftable = false) : p.lifted l = p := by
  induction p with
  | list element ih => exact congrArg Position.list (ih h)
  | expression e => cases h
  | iri | blank | literal | var => rfl

theorem Position.embedded?_eq_none {p : Position} (h : p.isLiftable = false) :
    p.embedded? = none := by
  induction p with
  | list element ih => exact ih h
  | expression e => cases h
  | iri | blank | literal | var => rfl

theorem GenerateTriple.isLiftable_eq (t : GenerateTriple) :
    t.isLiftable = t.positions.any (·.isLiftable) := by
  simp [isLiftable, positions, Bool.or_assoc]

theorem GenerateTriple.lifted_eq_self {t : GenerateTriple} (h : t.isLiftable = false) :
    t.lifted l = t := by
  simp only [isLiftable, Bool.or_eq_false_iff] at h
  rw [lifted, Position.lifted_eq_self h.1.1, Position.lifted_eq_self h.1.2,
    Position.lifted_eq_self h.2]

theorem NamedCall.lifted_eq_self {c : NamedCall} (h : c.isLiftable = false) : c.lifted l = c := by
  obtain ⟨name, arguments⟩ := c
  cases name with
  | iri | var => rfl
  | _ => cases h

theorem NamedCall.embedded?_eq_none {c : NamedCall} (h : c.isLiftable = false) :
    c.embedded? = none := by
  obtain ⟨name, arguments⟩ := c
  cases name with
  | iri | var => rfl
  | _ => cases h

theorem Element.lifted_eq_self {e : Element} (h : e.isLiftable = false) : e.lifted l = e := by
  cases e with
  | triples ts =>
    have hts : ∀ t ∈ ts, t.lifted l = t := fun t ht =>
      GenerateTriple.lifted_eq_self (by simpa using List.any_eq_false.mp h t ht)
    rw [lifted, List.map_congr_left hts, List.map_id']
  | call c => rw [lifted, NamedCall.lifted_eq_self h]
  | query q => rfl

theorem TemplateElement.lifted_eq_self {e : TemplateElement} (h : e.isLiftable = false) :
    e.lifted l = e := by
  cases e with
  | call c => rw [lifted, NamedCall.lifted_eq_self h]
  | text | expression | query => rfl

theorem Element.isLiftable_iff {e : Element} : e.isLiftable = true ↔
    (∃ p ∈ e.positions, p.isLiftable = true) ∨ ∃ c ∈ e.calls, c.isLiftable = true := by
  cases e with
  | triples ts =>
    simp only [isLiftable, positions, calls, List.any_eq_true, List.mem_flatMap,
      GenerateTriple.isLiftable_eq, List.not_mem_nil, false_and, exists_false, or_false]
    constructor
    · rintro ⟨t, ht, p, hp, h⟩
      exact ⟨p, ⟨t, ht, hp⟩, h⟩
    · rintro ⟨p, ⟨t, ht, hp⟩, h⟩
      exact ⟨t, ht, p, hp, h⟩
  | call c => simp [isLiftable, positions, calls]
  | query q => simp [isLiftable, positions, calls]

theorem TemplateElement.isLiftable_iff {e : TemplateElement} : e.isLiftable = true ↔
    ∃ c ∈ e.calls, c.isLiftable = true := by
  cases e <;> simp [isLiftable, calls]

/-- There is something to lift in a form exactly if there is in one of its positions or calls. -/
theorem Form.isLiftable_iff {f : Form} : f.isLiftable = true ↔
    (∃ p ∈ f.positions, p.isLiftable = true) ∨ ∃ c ∈ f.calls, c.isLiftable = true := by
  cases f with
  | generate elements =>
    simp only [isLiftable, positions, calls, List.any_eq_true, List.mem_flatMap,
      Element.isLiftable_iff]
    constructor
    · rintro ⟨element, hmem, ⟨p, hp, h⟩ | ⟨c, hc, h⟩⟩
      · exact .inl ⟨p, ⟨element, hmem, hp⟩, h⟩
      · exact .inr ⟨c, ⟨element, hmem, hc⟩, h⟩
    · rintro (⟨p, ⟨element, hmem, hp⟩, h⟩ | ⟨c, ⟨element, hmem, hc⟩, h⟩)
      · exact ⟨element, hmem, .inl ⟨p, hp, h⟩⟩
      · exact ⟨element, hmem, .inr ⟨c, hc, h⟩⟩
  | template before elements separator after =>
    simp only [isLiftable, positions, calls, List.any_eq_true, List.mem_flatMap,
      TemplateElement.isLiftable_iff, List.not_mem_nil, false_and, exists_false, false_or]
    constructor
    · rintro ⟨element, hmem, c, hc, h⟩
      exact ⟨c, ⟨element, hmem, hc⟩, h⟩
    · rintro ⟨c, ⟨element, hmem, hc⟩, h⟩
      exact ⟨element, hmem, c, hc, h⟩
  | select => simp [isLiftable, positions, calls]

theorem Form.lifted_eq_self {f : Form} (h : f.isLiftable = false) : f.lifted l = f := by
  cases f with
  | generate elements =>
    have hall : ∀ e ∈ elements, e.lifted l = e := fun e he =>
      Element.lifted_eq_self (by simpa using List.any_eq_false.mp h e he)
    rw [lifted, List.map_congr_left hall, List.map_id']
  | template before elements separator after =>
    have hall : ∀ e ∈ elements, e.lifted l = e := fun e he =>
      TemplateElement.lifted_eq_self (by simpa using List.any_eq_false.mp h e he)
    rw [lifted, List.map_congr_left hall, List.map_id']
  | select => rfl

end Unliftable

/-- The expressions that are lifted out of a form are those of its positions and of its calls. -/
theorem Form.mem_embedded_iff {f : Form} {e : Expression} : e ∈ f.embedded ↔
    (∃ p ∈ f.positions, p.embedded? = some e) ∨ ∃ c ∈ f.calls, c.embedded? = some e := by
  refine ⟨fun h => ?_, ?_⟩
  · cases f with
    | generate elements =>
      obtain ⟨element, hmem, h⟩ := List.mem_flatMap.mp h
      rcases List.mem_append.mp h with h | h
      · obtain ⟨p, hp, he⟩ := List.mem_filterMap.mp h
        exact .inl ⟨p, List.mem_flatMap.mpr ⟨element, hmem, hp⟩, he⟩
      · obtain ⟨c, hc, he⟩ := List.mem_filterMap.mp h
        exact .inr ⟨c, List.mem_flatMap.mpr ⟨element, hmem, hc⟩, he⟩
    | template before elements separator after =>
      obtain ⟨element, hmem, h⟩ := List.mem_flatMap.mp h
      obtain ⟨c, hc, he⟩ := List.mem_filterMap.mp h
      exact .inr ⟨c, List.mem_flatMap.mpr ⟨element, hmem, hc⟩, he⟩
    | select => cases h
  · rintro (⟨p, hp, he⟩ | ⟨c, hc, he⟩)
    · exact mem_embedded_of_position hp he
    · exact mem_embedded_of_call hc he

theorem Form.embedded_eq_nil {f : Form} (h : f.isLiftable = false) : f.embedded = [] := by
  refine List.eq_nil_iff_forall_not_mem.mpr fun e he => ?_
  have hnot : ¬f.isLiftable = true := by simp [h]
  rw [isLiftable_iff, not_or] at hnot
  rcases mem_embedded_iff.mp he with ⟨p, hp, he⟩ | ⟨c, hc, he⟩
  · have hp' : p.isLiftable = false := by simpa using fun h => hnot.1 ⟨p, hp, h⟩
    rw [Position.embedded?_eq_none hp'] at he
    cases he
  · have hc' : c.isLiftable = false := by simpa using fun h => hnot.2 ⟨c, hc, h⟩
    rw [NamedCall.embedded?_eq_none hc'] at he
    cases he

/-! ### Nothing left to lift -/

section Lifted

variable {l : Lifting}

theorem Position.isLiftable_lifted {p : Position}
    (h : ∀ e, p.embedded? = some e → (l.variableFor? e).isSome) : (p.lifted l).isLiftable = false := by
  induction p with
  | list element ih => exact ih h
  | expression e =>
    cases e with
    | iri | literal | var => rfl
    | _ =>
      obtain ⟨v, hv⟩ := Option.isSome_iff_exists.mp (h _ rfl)
      simp [lifted, hv, isLiftable]
  | iri | blank | literal | var => rfl

theorem NamedCall.isLiftable_lifted {c : NamedCall}
    (h : ∀ e, c.embedded? = some e → (l.variableFor? e).isSome) : (c.lifted l).isLiftable = false := by
  obtain ⟨name, arguments⟩ := c
  cases name with
  | iri | var => rfl
  | _ =>
    obtain ⟨v, hv⟩ := Option.isSome_iff_exists.mp (h _ rfl)
    simp [lifted, hv, isLiftable]

end Lifted

namespace Query

variable (l : Lifting) (q : Query)

/-- The table holds every expression of the form. -/
theorem isSome_variableFor?_form {f : Form} {e : Expression} (h : e ∈ f.embedded) :
    ((l.form f).variableFor? e).isSome := by
  rw [Lifting.form_eq]
  exact Lifting.isSome_variableFor?_liftAll l h

/-- A pass leaves nothing to lift, however deep the expressions are in lists. -/
theorem isLiftable_lift : (q.lift l).2.form.isLiftable = false := by
  show (q.form.lifted (l.form q.form)).isLiftable = false
  rw [Bool.eq_false_iff, Ne, Form.isLiftable_iff, Form.positions_lifted, Form.calls_lifted]
  rintro (⟨p', hp', h⟩ | ⟨c', hc', h⟩)
  · obtain ⟨p, hp, rfl⟩ := List.mem_map.mp hp'
    have hnone := Position.isLiftable_lifted fun e he =>
      isSome_variableFor?_form l (Form.mem_embedded_of_position hp he)
    exact absurd h (by simp [hnone])
  · obtain ⟨c, hc, rfl⟩ := List.mem_map.mp hc'
    have hnone := NamedCall.isLiftable_lifted fun e he =>
      isSome_variableFor?_form l (Form.mem_embedded_of_call hc he)
    exact absurd h (by simp [hnone])

variable {l q}

/-- A pass that finds nothing to lift changes nothing. -/
theorem lift_of_not_liftable (h : q.form.isLiftable = false) : q.lift l = (l, q) := by
  have hform : l.form q.form = l := by rw [Lifting.form_eq, Form.embedded_eq_nil h]; rfl
  rw [lift, hform, Form.lifted_eq_self h, List.drop_length]
  cases q
  rfl

/-- Two passes always do, and they give what the first one gives. -/
theorem liftWithin_eq (l : Lifting) (q : Query) :
    ∀ {passes : Nat}, 2 ≤ passes → q.liftWithin passes l = some (q.lift l)
  | passes + 2, _ => by
    have hpass : ∀ passes l (q : Query), q.liftWithin (passes + 1) l = if q.form.isLiftable then
        (q.lift l).2.liftWithin passes (q.lift l).1 else some (q.lift l) := fun _ _ _ => rfl
    have hlast : (q.lift l).2.liftWithin (passes + 1) (q.lift l).1 = some (q.lift l) := by
      rw [hpass, isLiftable_lift, lift_of_not_liftable (q.isLiftable_lift l)]
      rfl
    rw [hpass, hlast, ite_self]

end Query

/-- Compiling never fails on lifting. -/
theorem Build.lift_eq (q : Query) (n : Numbering) :
    Build.lift q n = (.ok (q.lift (.startingAt n.nextVariable)),
      { n with nextVariable := (q.lift (.startingAt n.nextVariable)).1.nextId }) := by
  have hpasses : ∀ l, q.liftWithin Lifting.maxPasses l = some (q.lift l) := fun l =>
    Query.liftWithin_eq l q (by decide)
  simp only [lift, hpasses]
  rfl

end TripleLoom
