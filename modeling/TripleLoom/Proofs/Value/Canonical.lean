import TripleLoom.Proofs.Numeric.Canonical
import TripleLoom.Proofs.Value.Reading

/-!
# TripleLoom.Proofs.Value.Canonical — terms in canonical form

The canonical form of a term is the one that it gets by being read and written back.  An integer or a
decimal is read back from its canonical literal, so for all terms but floats and doubles the canonical form
is read as the same value and is its own canonical form (`Term.canonical_normal_form`).  The canonical form
differs from the term only where the term is read as a truth value or a number, which valid literals are and
those that are misread.
-/

namespace TripleLoom

/-! ### Numbers -/

namespace Numeric

variable {m n : Numeric} {k l : ExactKind} {x y : ℚ}

/-- The canonical literal of a number denotes its value. -/
theorem HasValue.denotes_toLiteral (h : n.HasValue k x) : n.toLiteral.Denotes k x := by
  cases h with
  | integer i =>
    have hdatatype : isIntegerDatatype (Iri.xsd "integer") = true := by decide
    exact .integer hdatatype (Integer.spells_display i)
  | decimal d => exact .decimal (Decimal.spells_display d)

/-- It is a valid literal of its datatype. -/
theorem HasValue.denotesNumber_toLiteral (h : n.HasValue k x) : n.toLiteral.DenotesNumber (.exact k x) := by
  cases h with
  | integer i => exact .typed rfl rfl (.integer (Integer.spells_display i) trivial)
  | decimal d => exact .typed rfl rfl (.decimal (Decimal.spells_display d))

/-- A number is read back from its canonical literal. -/
theorem HasValue.ofTerm_toLiteral (h : n.HasValue k x) :
    Value.ofTerm (.literal n.toLiteral) = .numeric n := by
  obtain ⟨m, hread, hm⟩ := Value.ofTerm_of_denotes h.denotes_toLiteral (exists_hasValue_iff.mp ⟨n, h⟩)
  rw [hread, hm.unique h]

theorem HasValue.ofLiteral?_toLiteral (h : n.HasValue k x) : ofLiteral? n.toLiteral = some (some n) := by
  have hread : Value.ofLiteral n.toLiteral = .numeric n := h.ofTerm_toLiteral
  obtain ⟨v, d, hl, hnumber⟩ := Value.ofLiteral_eq_numeric_iff_read?.mp hread
  rw [hl]
  exact hnumber

/-- Numbers with one canonical literal are equal. -/
theorem HasValue.eq_of_toLiteral (hm : m.HasValue k x) (hn : n.HasValue l y)
    (h : m.toLiteral = n.toLiteral) : m = n := by
  have hread : ofLiteral? n.toLiteral = some (some m) := h ▸ hm.ofLiteral?_toLiteral
  rw [hn.ofLiteral?_toLiteral, Option.some.injEq, Option.some.injEq] at hread
  exact hread.symm

end Numeric

/-! ### Terms -/

/-- Strings are made as simple literals. -/
theorem Literal.withDatatype_ne_typed_string (v w : String) (d : Iri) :
    withDatatype v d ≠ .typed w (.xsd "string") := by
  rw [withDatatype]
  split
  · nofun
  · next hd => exact fun h => hd (Literal.typed.inj h).2

namespace Term

/-- The canonical form of a term: the term is read and written back. -/
def canonical (t : Term) : Term := (Value.ofTerm t).toTerm

/-- The terms that are written back in another form than their own, and that form: valid literals of
booleans and numbers, the literals that are misread as numbers, and typed literals of `xsd:string`, which
`Literal.withDatatype` never makes. -/
inductive Rewritten : Term → Term → Prop where
  | boolean {l : Literal} {b : Bool} (h : l.DenotesBoolean b) : Rewritten (.literal l) (.ofBool b)
  | numeric {l : Literal} {n : Numeric} {x : NumericValue} (h : l.DenotesNumber x) (hn : n.StandsFor x) :
      Rewritten (.literal l) (.literal n.toLiteral)
  | misread {l : Literal} {n : Numeric} {x : NumericValue} (h : l.Misread x) (hn : n.StandsFor x) :
      Rewritten (.literal l) (.literal n.toLiteral)
  | text (v : String) : Rewritten (.literal (.typed v (.xsd "string"))) (.ofText v)

variable {t u : Term}

theorem Rewritten.canonical_eq (h : t.Rewritten u) : t.canonical = u := by
  cases h with
  | boolean h =>
    rw [canonical, Value.ofTerm, Value.ofLiteral_of_denotesBoolean h]
    rfl
  | numeric h hn =>
    rw [canonical, Value.ofTerm, Value.ofLiteral_eq_numeric_iff.mpr ⟨_, .inl h, hn⟩]
    rfl
  | misread h hn =>
    rw [canonical, Value.ofTerm, Value.ofLiteral_eq_numeric_iff.mpr ⟨_, .inr h, hn⟩]
    rfl
  | text v => rfl

/-- The canonical form of a literal that is read as a number. -/
theorem Rewritten.of_ofLiteral {l : Literal} {n : Numeric} (h : Value.ofLiteral l = .numeric n) :
    (literal l).Rewritten (.literal n.toLiteral) := by
  obtain ⟨x, hx | hx, hn⟩ := Value.ofLiteral_eq_numeric_iff.mp h
  · exact .numeric hx hn
  · exact .misread hx hn

/-- A term has its own canonical form, if it is not written back in another. -/
theorem canonical_eq_self (h : ∀ u, ¬t.Rewritten u) : t.canonical = t := by
  cases t with
  | iri | blank => rfl
  | literal l =>
    cases l with
    | simple | tagged => rfl
    | typed v d =>
      have hstring : d ≠ .xsd "string" := by
        rintro rfl
        exact h _ (.text v)
      rw [canonical, Value.ofTerm]
      by_cases hboolean : d = .xsd "boolean"
      · subst hboolean
        have hnone : Value.readBoolean? v = none :=
          Option.eq_none_iff_forall_ne_some.mpr fun b hb =>
            h _ (.boolean (Value.readBoolean?_eq_some_iff.mp hb))
        rw [Value.ofLiteral_typed, if_neg hstring, if_pos rfl, hnone]
        rfl
      · rw [Value.ofLiteral_typed_eq_other hstring hboolean fun n hn => h _ (.of_ofLiteral hn)]
        rfl

theorem canonical_eq_iff : t.canonical = u ↔ t.Rewritten u ∨ (u = t ∧ ∀ u', ¬t.Rewritten u') := by
  constructor
  · rintro rfl
    by_cases h : ∃ u', t.Rewritten u'
    · obtain ⟨u', hu'⟩ := h
      exact .inl (hu'.canonical_eq ▸ hu')
    · have hnone := not_exists.mp h
      exact .inr ⟨canonical_eq_self hnone, hnone⟩
  · rintro (h | ⟨rfl, h⟩)
    · exact h.canonical_eq
    · exact canonical_eq_self h

/-- A literal that is read as a number is read as an integer or a decimal, if it is no float or double. -/
theorem exists_hasValue_of_ofLiteral {l : Literal} {n : Numeric} (hl : ¬(literal l).IsFloating)
    (h : Value.ofLiteral l = .numeric n) : ∃ k x, n.HasValue k x := by
  have hexact : (Value.ofTerm (.literal l)).IsExact := Value.isExact_ofTerm hl
  rw [Value.ofTerm, h] at hexact
  exact hexact

/-- The form that a term is written back in is read as the same value. -/
theorem Rewritten.ofTerm_eq (h : t.Rewritten u) (ht : ¬t.IsFloating) : Value.ofTerm u = Value.ofTerm t := by
  have hnumber {l : Literal} {n : Numeric} (hl : ¬(literal l).IsFloating)
      (hn : Value.ofLiteral l = .numeric n) : Value.ofTerm (.literal n.toLiteral) = Value.ofLiteral l := by
    obtain ⟨k, x, hx⟩ := exists_hasValue_of_ofLiteral hl hn
    rw [hx.ofTerm_toLiteral, hn]
  cases h with
  | @boolean l b h =>
    have hread : Value.ofTerm (.literal l) = .boolean b := Value.ofLiteral_of_denotesBoolean h
    rw [hread]
    cases b <;> rfl
  | numeric h hn => exact hnumber ht (Value.ofLiteral_eq_numeric_iff.mpr ⟨_, .inl h, hn⟩)
  | misread h hn => exact hnumber ht (Value.ofLiteral_eq_numeric_iff.mpr ⟨_, .inr h, hn⟩)
  | text v => rfl

/-- The terms that may have another canonical form than they are: valid literals of booleans and numbers.
Typed literals of `xsd:string` are among them too, but none is ever made. -/
inductive MayChange : Term → Prop where
  | boolean {l : Literal} {b : Bool} (h : l.DenotesBoolean b) : MayChange (.literal l)
  | numeric {l : Literal} {x : NumericValue} (h : l.DenotesNumber x) : MayChange (.literal l)
  | text (v : String) : MayChange (.literal (.typed v (.xsd "string")))

/-- The terms that are read as a number and must not. -/
inductive IsMisread : Term → Prop where
  | literal {l : Literal} {x : NumericValue} {n : Numeric} (h : l.Misread x) (hn : n.StandsFor x) :
      IsMisread (.literal l)

/-- What is misread as a number is no valid literal. -/
theorem MayChange.not_misread {l : Literal} {x : NumericValue} (h : (literal l).MayChange) :
    ¬l.Misread x := by
  intro hmisread
  cases h with
  | boolean h =>
    obtain ⟨rfl, -⟩ := h
    obtain ⟨hd, ht, -⟩ := hmisread
    rw [← Iri.xsd_injective hd] at ht
    cases ht
  | numeric h => exact hmisread.not_denotesNumber h
  | text v =>
    obtain ⟨hd, ht, -⟩ := hmisread
    rw [← Iri.xsd_injective hd] at ht
    cases ht

/-- The terms that change although they must not are those that are misread. -/
theorem canonical_eq_self_or_mayChange_iff (ht : ¬t.IsFloating) :
    t.canonical = t ∨ t.MayChange ↔ ¬t.IsMisread := by
  constructor
  · rintro h ⟨hmisread, hn⟩
    obtain hself | hchange := h
    · have hread := Value.ofLiteral_eq_numeric_iff.mpr ⟨_, .inr hmisread, hn⟩
      obtain ⟨k, q, hq⟩ := exists_hasValue_of_ofLiteral ht hread
      rw [(Rewritten.misread hmisread hn).canonical_eq, literal.injEq] at hself
      exact hmisread.not_denotesNumber (hself ▸ hq.denotesNumber_toLiteral)
    · exact hchange.not_misread hmisread
  · intro h
    generalize hu : t.canonical = u
    obtain hwritten | ⟨hself, -⟩ := canonical_eq_iff.mp hu
    · right
      cases hwritten with
      | boolean hvalid => exact .boolean hvalid
      | numeric hvalid => exact .numeric hvalid
      | misread hmisread hn => exact absurd (.literal hmisread hn) h
      | text v => exact .text v
    · exact .inl hself

/-- **Canonical forms are normal forms.**  An integer or a decimal is read back from its canonical literal,
which no other one has.  The canonical form of a term that is no float or double is read as the same value
and is its own canonical form.  It is the term itself or the term is a valid literal of a boolean or a number
exactly if the term is not misread as a number.  In any case it is the form that the term is written back
in, if there is one, and the term otherwise. -/
theorem canonical_normal_form (n : Numeric) (t : Term) :
    (∀ {k : ExactKind} {x : ℚ}, n.HasValue k x →
      Numeric.ofLiteral? n.toLiteral = some (some n) ∧
      ∀ {m : Numeric} {l : ExactKind} {y : ℚ}, m.HasValue l y → m.toLiteral = n.toLiteral → m = n) ∧
    (¬t.IsFloating →
      Value.ofTerm t.canonical = Value.ofTerm t ∧ t.canonical.canonical = t.canonical ∧
      (t.canonical = t ∨ t.MayChange ↔ ¬t.IsMisread)) ∧
    (∀ u, t.canonical = u ↔ t.Rewritten u ∨ (u = t ∧ ∀ u', ¬t.Rewritten u')) ∧
    ∀ (v w : String) (d : Iri), Literal.withDatatype v d ≠ .typed w (.xsd "string") := by
  refine ⟨fun hn => ⟨hn.ofLiteral?_toLiteral, fun hm => hm.eq_of_toLiteral hn⟩, fun ht => ?_,
    fun u => canonical_eq_iff, Literal.withDatatype_ne_typed_string⟩
  have hsame : Value.ofTerm t.canonical = Value.ofTerm t := by
    generalize hu : t.canonical = u
    obtain h | ⟨rfl, -⟩ := canonical_eq_iff.mp hu
    · exact h.ofTerm_eq ht
    · rfl
  exact ⟨hsame, congrArg Value.toTerm hsame, canonical_eq_self_or_mayChange_iff ht⟩

/-- A decimal with a sign and zeros that the canonical form leaves out. -/
def signedPlaces : Literal := .typed "+01.50" (.xsd "decimal")

/-- Its canonical form is "1.5", which is read as the same value and stays as it is; the least integer is read
back from its canonical literal, which is that of no other integer. -/
theorem signedPlaces_canonical :
    (literal signedPlaces).canonical = .literal (.typed "1.5" (.xsd "decimal")) ∧
      Value.ofTerm (.literal (.typed "1.5" (.xsd "decimal"))) = Value.ofTerm (.literal signedPlaces) ∧
      (literal (.typed "1.5" (.xsd "decimal"))).canonical = .literal (.typed "1.5" (.xsd "decimal")) ∧
      ∃ n : Integer, n.val = -9223372036854775808 ∧
        Numeric.ofLiteral? (Numeric.integer n).toLiteral = some (some (.integer n)) ∧
        ∀ m : Integer, (Numeric.integer m).toLiteral = (Numeric.integer n).toLiteral → m = n := by
  let n : Integer := ⟨-9223372036854775808, by decide, by decide⟩
  obtain ⟨hnumber, hstable, -⟩ := canonical_normal_form (.integer n) (literal signedPlaces)
  obtain ⟨hread, hinjective⟩ := hnumber (.integer n)
  have hfloating : ¬(literal signedPlaces).IsFloating := by
    rintro (h | h) <;> exact absurd h (by decide)
  obtain ⟨hvalue, hagain, -⟩ := hstable hfloating
  have hcanonical : (literal signedPlaces).canonical = .literal (.typed "1.5" (.xsd "decimal")) := by decide
  rw [hcanonical] at hvalue hagain
  exact ⟨hcanonical, hvalue, hagain, n, rfl, hread,
    fun m hm => Numeric.integer.inj (hinjective (.integer m) hm)⟩

/-- The byte "300" is no valid literal, but its canonical form is another one. -/
theorem greatByte_rewritten :
    (literal (.typed "300" (.xsd "byte"))).canonical = .literal (.typed "300" (.xsd "integer")) ∧
      (∀ x, ¬Literal.DenotesNumber (.typed "300" (.xsd "byte")) x) ∧
      ∀ b, ¬Literal.DenotesBoolean (.typed "300" (.xsd "byte")) b := by
  refine ⟨by decide, fun x => Literal.greatByte_misread.not_denotesNumber, fun b ⟨hd, _⟩ => ?_⟩
  exact absurd hd (by decide)

end Term

end TripleLoom
