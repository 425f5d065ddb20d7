import TripleLoom.Plan.OfQuery

/-!
# TripleLoom.Proofs.Plan.Steps — what the steps of compiling give

The terms, calls and triples of a plan tell what they are made of.  A step of compiling that does not
fail gives one that is made of what it was given, and counts on for a list only
(`TemplateTerm.ofPosition_ok`, `CallPlan.ofCall_ok`, `TriplesPlan.add_ok`).
-/

namespace TripleLoom

namespace Build

variable {α β : Type} {m : Build α} {f : α → Build β} {n n' : Numbering}

theorem bind_eq (m : Build α) (f : α → Build β) (n : Numbering) : (m >>= f) n =
    match m n with
    | (.ok a, n₁) => f a n₁
    | (.error e, n₁) => (.error e, n₁) := by
  have hbind : (m >>= f) n = ExceptT.bindCont f (m n).1 (m n).2 := rfl
  rw [hbind]
  rcases m n with ⟨_ | a, n₁⟩ <;> rfl

theorem bind_ok {b : β} (h : (m >>= f) n = (.ok b, n')) :
    ∃ a n₁, m n = (.ok a, n₁) ∧ f a n₁ = (.ok b, n') := by
  rw [bind_eq] at h
  rcases hm : m n with ⟨_ | a, n₁⟩ <;> rw [hm] at h
  · cases h
  · exact ⟨a, n₁, rfl, h⟩

end Build

/-! ### What templates and calls are made of -/

/-- Whether a position is a list. -/
def Position.isList : Position → Bool
  | .list _ => true
  | .iri _ | .blank _ | .literal _ | .var _ | .expression _ => false

/-- The position that a term is made of. -/
def TemplateTerm.position : TemplateTerm → Position
  | .iri i => .iri i
  | .blank b => .blank b
  | .literal l => .literal l
  | .var v => .var v

/-- The triple that a template is made of. -/
def TripleTemplate.triple (t : TripleTemplate) : GenerateTriple :=
  ⟨t.subject.position, t.predicate.position, t.object.position⟩

/-- The triple that a template of a list is made of. -/
def ListTemplate.triple (t : ListTemplate) : GenerateTriple :=
  ⟨t.subject.position, t.predicate.position, .list t.element.position⟩

/-- The call that a planned one is made of. -/
def CallPlan.namedCall (c : CallPlan) : NamedCall :=
  match c.name with
  | .iri i => ⟨.iri i, c.arguments⟩
  | .var v => ⟨.var v, c.arguments⟩

theorem TemplateTerm.isList_position (t : TemplateTerm) : t.position.isList = false := by
  cases t <;> rfl

/-! ### Steps that do not fail -/

section Steps

variable {n n' : Numbering}

theorem TemplateTerm.ofPosition_ok {p : Position} {t : TemplateTerm}
    (h : ofPosition p n = (.ok t, n')) : t.position = p ∧ n' = n := by
  cases p <;> cases h <;> exact ⟨rfl, rfl⟩

theorem CallPlan.ofCall_ok {c : NamedCall} {call : CallPlan} (h : ofCall c n = (.ok call, n')) :
    call.namedCall = c ∧ n' = n := by
  obtain ⟨name, arguments⟩ := c
  cases name <;> cases h <;> exact ⟨rfl, rfl⟩

/-- A triple is added as a template of it behind the others, or as a template of its list, which gets
the next number. -/
theorem TriplesPlan.add_ok {p p' : TriplesPlan} {t : GenerateTriple}
    (h : p.add t n = (.ok p', n')) :
    (∃ template : TripleTemplate, template.triple = t ∧
      p' = { p with triples := p.triples ++ [template] } ∧ n' = n) ∨
    ∃ template : ListTemplate, template.triple = t ∧ template.id = n.nextList ∧
      p' = { p with lists := p.lists ++ [template] } ∧
      n' = { n with nextList := n.nextList + 1 } := by
  obtain ⟨subject, n₁, hsubject, hrest⟩ := Build.bind_ok h
  obtain ⟨predicate, n₂, hpredicate, hlast⟩ := Build.bind_ok hrest
  obtain ⟨hs, rfl⟩ := TemplateTerm.ofPosition_ok hsubject
  obtain ⟨hp, rfl⟩ := TemplateTerm.ofPosition_ok hpredicate
  obtain ⟨tsubject, tpredicate, tobject⟩ := t
  cases tobject with
  | list telement =>
    cases telement with
    | list => cases hlast
    | _ =>
      obtain ⟨element, n₃, helement, hdone⟩ := Build.bind_ok hlast
      obtain ⟨he, rfl⟩ := TemplateTerm.ofPosition_ok helement
      cases hdone
      refine .inr ⟨⟨_, subject, predicate, element⟩, ?_, rfl, rfl, rfl⟩
      rw [ListTemplate.triple, hs, hp, he]
  | _ =>
    obtain ⟨object, n₃, hobject, hdone⟩ := Build.bind_ok hlast
    obtain ⟨ho, rfl⟩ := TemplateTerm.ofPosition_ok hobject
    cases hdone
    refine .inl ⟨⟨subject, predicate, object⟩, ?_, rfl, rfl⟩
    rw [TripleTemplate.triple, hs, hp, ho]

end Steps

end TripleLoom
