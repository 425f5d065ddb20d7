import TripleLoom.Proofs.Value.Reading

/-!
# TripleLoom.Proofs.Value.Truth — the truth of terms

The effective boolean value of a term by section 17.2.2 of SPARQL 1.1 is `Term.truth?`.  A condition does not
follow it everywhere: the terms on which it does not, with what it gives for them, are those of
`Term.Deviates`, and on all others it does (`Term.truth_iff_not_deviates`).  For numbers this rests on the
patterns of floats and doubles, of which those of zero and of "not a number" count as false.
-/

namespace TripleLoom

/-! ### Numbers -/

/-- The values of numbers that count as false: zero, what is rounded to it, and "not a number". -/
inductive NumericValue.IsFalsy : NumericValue → Prop where
  | zero (k : ExactKind) : IsFalsy (.exact k 0)
  | rounded {f : BinaryFormat} {negative : Bool} {x : ℚ} (h : f.IsNearest x 0) :
      IsFalsy (.floating f negative (.finite x))
  | notANumber (f : BinaryFormat) (negative : Bool) : IsFalsy (.floating f negative .notANumber)

theorem NumericValue.isFalsy_exact_iff {k : ExactKind} {x : ℚ} :
    (NumericValue.exact k x).IsFalsy ↔ x = 0 := by
  constructor
  · rintro ⟨⟩
    rfl
  · rintro rfl
    exact .zero k

namespace BinaryFormat

variable {f : BinaryFormat} {negative : Bool} {m : Magnitude} {p bits : Nat}

theorem isZero_withSign_iff (hp : p < f.signBit) : f.IsZero (f.withSign negative p) ↔ p = 0 := by
  rw [IsZero, withSign_mod hp]

theorem isNaN_withSign_iff (hp : p < f.signBit) : f.IsNaN (f.withSign negative p) ↔ f.infinity < p := by
  rw [IsNaN, withSign_mod hp]

/-- The patterns of zero and of "not a number" are those of the values that count as false. -/
theorem Encodes.isFalsy_iff (hf : f = single ∨ f = double) (h : f.Encodes negative m bits) :
    (NumericValue.floating f negative m).IsFalsy ↔ f.IsZero bits ∨ f.IsNaN bits := by
  obtain ⟨hinfinity, hnan⟩ := patterns_lt hf
  cases h with
  | @finite x p h =>
    have hp : p ≤ f.infinity := h.1
    rw [isZero_withSign_iff (by omega), isNaN_withSign_iff (by omega), or_iff_left (by omega)]
    constructor
    · rintro ⟨⟩
      next hzero => exact h.unique hzero
    · rintro rfl
      exact .rounded h
  | infinite =>
    have hpos : 0 < f.infinity := by obtain rfl | rfl := hf <;> decide
    rw [isZero_withSign_iff (by omega), isNaN_withSign_iff (by omega)]
    exact iff_of_false nofun (by omega)
  | notANumber =>
    refine iff_of_true (.notANumber f negative) (.inr ?_)
    rwa [IsNaN, Nat.mod_eq_of_lt hnan]

end BinaryFormat

namespace Numeric

variable {n : Numeric} {f : BinaryFormat} {bits : Nat} {x : NumericValue}

theorem format_of_bits? (h : n.bits? = some (f, bits)) : f = .single ∨ f = .double := by
  cases n with
  | integer | decimal => cases h
  | float a => exact .inl (Prod.mk.inj (Option.some.inj h)).1.symm
  | double a => exact .inr (Prod.mk.inj (Option.some.inj h)).1.symm

/-- A float or a double counts as true if its pattern is none of zero or of "not a number". -/
theorem isTruthy_iff_of_bits? (h : n.bits? = some (f, bits)) :
    n.isTruthy ↔ ¬(f.IsZero bits ∨ f.IsNaN bits) := by
  cases n with
  | integer | decimal => cases h
  | float a =>
    obtain ⟨rfl, rfl⟩ := Prod.mk.inj (Option.some.inj h)
    rw [← BinaryFormat.beq_zero_single_iff, ← BinaryFormat.isNaN_single_iff, isTruthy, Bool.and_eq_true,
      bne, Bool.not_eq_true', Bool.not_eq_true', not_or, Bool.not_eq_true, Bool.not_eq_true]
  | double a =>
    obtain ⟨rfl, rfl⟩ := Prod.mk.inj (Option.some.inj h)
    rw [← BinaryFormat.beq_zero_double_iff, ← BinaryFormat.isNaN_double_iff, isTruthy, Bool.and_eq_true,
      bne, Bool.not_eq_true', Bool.not_eq_true', not_or, Bool.not_eq_true, Bool.not_eq_true]

/-- A number counts as true exactly if its value does. -/
theorem StandsFor.isTruthy_iff (h : n.StandsFor x) : n.isTruthy ↔ ¬x.IsFalsy := by
  cases h with
  | exact h =>
    cases h with
    | integer i =>
      rw [NumericValue.isFalsy_exact_iff, Int.cast_eq_zero, isTruthy, decide_eq_true_iff]
    | decimal d =>
      rw [NumericValue.isFalsy_exact_iff, Decimal.value_eq_iff, zero_mul, Int.cast_eq_zero, isTruthy,
        decide_eq_true_iff]
  | floating hn h => rw [h.isFalsy_iff (format_of_bits? hn), isTruthy_iff_of_bits? hn]

end Numeric

/-! ### Literals -/

/-- Whether there is a number for a value: floats and doubles have one for every value, integers and
decimals where their kind holds it. -/
def NumericValue.IsHeld : NumericValue → Prop
  | .exact k x => k.Holds x
  | .floating .. => True

/-- What is read as a float or a double has a pattern. -/
theorem BinaryFormat.exists_hasPattern {f : BinaryFormat} (hf : f = single ∨ f = double) {s : List Char}
    {m : Magnitude} (h : Readable s m) : ∃ p, f.HasPattern m p := by
  cases h with
  | number h =>
    obtain ⟨y, -, rfl⟩ := Scientific.spells_iff.mp h
    exact ⟨_, .finite (Scientific.isNearest_toBinary hf y)⟩
  | name h =>
    cases h with
    | inf | infinity => exact ⟨_, .infinite⟩
    | notANumber => exact ⟨_, .notANumber⟩

theorem NumericDatatype.format_of_ofName? {f : BinaryFormat} {name : String}
    (h : ofName? name = some (.floating f)) : f = .single ∨ f = .double := by
  obtain ⟨-, _, hrange⟩ | ⟨-, hdecimal⟩ | ⟨-, hfloat⟩ | ⟨-, hdouble⟩ := ofName?_eq_some h
  · cases hrange
  · cases hdecimal
  · exact .inl (NumericDatatype.floating.inj hfloat)
  · exact .inr (NumericDatatype.floating.inj hdouble)

/-- There is a number for what is read as a float or a double. -/
theorem Numeric.exists_standsFor_floating {f : BinaryFormat} (hf : f = .single ∨ f = .double) {s : List Char}
    {negative : Bool} {m : Magnitude} (h : SpellsFloating s negative m ∨ Misnamed s negative m) :
    ∃ n : Numeric, n.StandsFor (.floating f negative m) := by
  obtain ⟨rest, -, hreadable⟩ : ∃ rest, Signed rest s negative ∧ Readable rest m := by
    obtain h | ⟨⟨rest, hs, hname⟩, -⟩ := h
    · exact h.readable
    · exact ⟨rest, hs, .name hname⟩
  obtain ⟨p, hp⟩ := BinaryFormat.exists_hasPattern hf hreadable
  have hlt : f.withSign negative p < 2 * f.signBit :=
    BinaryFormat.withSign_lt ((hp.le hf).trans_lt (BinaryFormat.patterns_lt hf).2)
  have hencodes : f.Encodes negative m (f.canonical (f.withSign negative p)) :=
    (BinaryFormat.encodes_iff hf).mpr ⟨p, hp, rfl⟩
  obtain rfl | rfl := hf
  · exact ⟨_, .floating (bits?_float hlt) hencodes⟩
  · exact ⟨_, .floating (bits?_double hlt) hencodes⟩

/-- Only literals of the numeric datatypes are misread. -/
theorem Literal.Misread.isNumericDatatype {l : Literal} {x : NumericValue} (h : l.Misread x) :
    Numeric.isNumericDatatype l.datatype := by
  obtain ⟨rfl, ht, -⟩ := h
  exact Numeric.isNumericDatatype_of_ofName? ht

/-- What a number stands for is held. -/
theorem Numeric.StandsFor.isHeld {n : Numeric} {x : NumericValue} (h : n.StandsFor x) : x.IsHeld := by
  cases h with
  | exact h => exact Numeric.exists_hasValue_iff.mp ⟨n, h⟩
  | floating => trivial

namespace Value

variable {l : Literal} {x : NumericValue}

/-- A literal that denotes a number or is taken for one is read if there is a number for its value. -/
theorem exists_ofLiteral_eq_numeric (h : l.DenotesNumber x ∨ l.Misread x) (hx : x.IsHeld) :
    ∃ n, ofLiteral l = .numeric n ∧ n.StandsFor x := by
  obtain ⟨n, hn⟩ : ∃ n : Numeric, n.StandsFor x := by
    cases x with
    | exact k q =>
      obtain ⟨n, hn⟩ := Numeric.exists_hasValue_iff.mpr hx
      exact ⟨n, .exact hn⟩
    | floating f negative m =>
      obtain ⟨-, ht, h⟩ | ⟨-, ht, h⟩ := h
      · cases h with
        | floating h =>
          exact Numeric.exists_standsFor_floating (NumericDatatype.format_of_ofName? ht) (.inl h)
      · cases h with
        | floating h =>
          exact Numeric.exists_standsFor_floating (NumericDatatype.format_of_ofName? ht) (.inr h)
  exact ⟨n, ofLiteral_eq_numeric_iff.mpr ⟨x, h, hn⟩, hn⟩

theorem isTrue?_of_denotes (h : l.DenotesNumber x ∨ l.Misread x) (hx : x.IsHeld) :
    ∃ b, (ofLiteral l).isTrue? = some b ∧ (b ↔ ¬x.IsFalsy) := by
  obtain ⟨n, hn, hstands⟩ := exists_ofLiteral_eq_numeric h hx
  exact ⟨n.isTruthy, by rw [hn]; rfl, hstands.isTruthy_iff⟩

end Value

/-! ### Conditions -/

namespace Term

open scoped Classical in
/-- The effective boolean value of a term by the standard, `none` for a type error. -/
noncomputable def truth? : Term → Option Bool
  | .literal (.tagged v _) => some (v ≠ "")
  | .literal l =>
    if l.datatype = .xsd "string" then some (l.value ≠ "")
    else if l.datatype = .xsd "boolean" then some (l.DenotesBoolean true)
    else if Numeric.isNumericDatatype l.datatype then some (∃ x, l.DenotesNumber x ∧ ¬x.IsFalsy)
    else none
  | _ => none

/-- The terms whose truth is not that of the standard, and what it is instead. -/
inductive Deviates : Term → Option Bool → Prop where
  | tagged (v language : String) : Deviates (.literal (.tagged v language)) none
  | boolean {v : String} {d : Iri} (hd : d = .xsd "boolean")
      (h : ∀ b, ¬Literal.DenotesBoolean (.typed v d) b) : Deviates (.literal (.typed v d)) none
  | unread {l : Literal} (hd : Numeric.isNumericDatatype l.datatype)
      (h : ∀ x, l.DenotesNumber x ∨ l.Misread x → ¬x.IsHeld) : Deviates (.literal l) none
  | misread {l : Literal} {x : NumericValue} (h : l.Misread x) (hx : x.IsHeld) (htrue : ¬x.IsFalsy) :
      Deviates (.literal l) (some true)

variable {t : Term} {r : Option Bool}

open scoped Classical in
theorem truth?_boolean (v : String) :
    (Term.literal (.typed v (.xsd "boolean"))).truth? =
      some (decide (Literal.DenotesBoolean (.typed v (.xsd "boolean")) true)) := by
  have hstring : (Literal.typed v (.xsd "boolean")).datatype ≠ .xsd "string" := by
    rw [Literal.datatype]
    decide
  rw [truth?, if_neg hstring, Literal.datatype, if_pos rfl]
  intro value language h
  cases h

open scoped Classical in
theorem truth?_of_isNumericDatatype {l : Literal} (hd : Numeric.isNumericDatatype l.datatype) :
    (Term.literal l).truth? = some (decide (∃ x, l.DenotesNumber x ∧ ¬x.IsFalsy)) := by
  obtain ⟨hstring, hboolean, htagged⟩ := Numeric.ne_of_isNumericDatatype hd
  rw [truth?, if_neg hstring, if_neg hboolean, if_pos hd]
  rintro v language rfl
  exact htagged rfl

theorem Deviates.isTrue?_eq (h : t.Deviates r) : (Value.ofTerm t).isTrue? = r := by
  cases h with
  | tagged => rfl
  | @boolean v _ hd h =>
    subst hd
    have hnone : Value.readBoolean? v = none :=
      Option.eq_none_iff_forall_ne_some.mpr fun b hb => h b (Value.readBoolean?_eq_some_iff.mp hb)
    rw [Value.ofTerm, Value.ofLiteral_typed, if_neg (by decide), if_pos rfl, hnone]
    rfl
  | unread hd h =>
    rw [Value.ofTerm, Value.ofLiteral_eq_other hd fun n hn => ?_]
    · rfl
    · obtain ⟨x, hx, hstands⟩ := Value.ofLiteral_eq_numeric_iff.mp hn
      exact h x hx hstands.isHeld
  | misread h hx htrue =>
    obtain ⟨b, hb, hiff⟩ := Value.isTrue?_of_denotes (.inr h) hx
    rw [Value.ofTerm, hb, hiff.mpr htrue]

/-- It is not that of the standard. -/
theorem Deviates.truth?_ne (h : t.Deviates r) : t.truth? ≠ r := by
  classical
  cases h with
  | tagged => nofun
  | boolean hd =>
    rw [hd, truth?_boolean]
    nofun
  | unread hd h =>
    rw [truth?_of_isNumericDatatype hd]
    nofun
  | misread h hx htrue =>
    rw [truth?_of_isNumericDatatype h.isNumericDatatype, ne_eq, Option.some.injEq, decide_eq_true_iff]
    rintro ⟨y, hy, -⟩
    exact h.not_denotesNumber hy

/-- The truth of a literal of a numeric datatype is that of the standard, if it does not deviate. -/
theorem isTrue?_eq_truth?_of_isNumericDatatype {l : Literal} (hd : Numeric.isNumericDatatype l.datatype)
    (h : ∀ r, ¬(Term.literal l).Deviates r) :
    (Value.ofLiteral l).isTrue? = (Term.literal l).truth? := by
  classical
  obtain ⟨x, hx, hheld⟩ : ∃ x, (l.DenotesNumber x ∨ l.Misread x) ∧ x.IsHeld := by
    by_contra hnone
    exact h none (.unread hd fun x hx hheld => hnone ⟨x, hx, hheld⟩)
  obtain ⟨b, hb, hiff⟩ := Value.isTrue?_of_denotes hx hheld
  rw [truth?_of_isNumericDatatype hd, hb, Option.some.injEq, Bool.eq_iff_iff, hiff, decide_eq_true_iff]
  obtain hx | hx := hx
  · exact ⟨fun hfalse => ⟨x, hx, hfalse⟩, fun ⟨y, hy, hfalse⟩ => hx.unique hy ▸ hfalse⟩
  · refine iff_of_false (fun htrue => h _ (.misread hx hheld htrue)) ?_
    rintro ⟨y, hy, -⟩
    exact hx.not_denotesNumber hy

theorem isTrue?_eq_truth?_boolean (v : String)
    (h : ∀ r, ¬(Term.literal (.typed v (.xsd "boolean"))).Deviates r) :
    (Value.ofTerm (.literal (.typed v (.xsd "boolean")))).isTrue? =
      (Term.literal (.typed v (.xsd "boolean"))).truth? := by
  classical
  cases hread : Value.readBoolean? v with
  | none =>
    refine absurd (.boolean rfl fun b hb => ?_) (h none)
    rw [Value.readBoolean?_eq_some_iff.mpr hb] at hread
    cases hread
  | some b =>
    have hvalue := Value.ofLiteral_of_denotesBoolean (Value.readBoolean?_eq_some_iff.mp hread)
    rw [truth?_boolean, Value.ofTerm, hvalue, Value.isTrue?, Option.some.injEq, Bool.eq_iff_iff,
      decide_eq_true_iff, ← Value.readBoolean?_eq_some_iff, hread, Option.some.injEq]

theorem not_isEmpty_eq (v : String) : (!v.isEmpty) = decide (v ≠ "") := by
  rw [Bool.eq_iff_iff, Bool.not_eq_true', decide_eq_true_iff, ne_eq, ← String.isEmpty_iff, Bool.not_eq_true]

theorem isTrue?_eq_truth? (h : ∀ r, ¬t.Deviates r) : (Value.ofTerm t).isTrue? = t.truth? := by
  classical
  cases t with
  | iri | blank => rfl
  | literal l =>
    by_cases hd : Numeric.isNumericDatatype l.datatype
    · exact isTrue?_eq_truth?_of_isNumericDatatype hd h
    cases l with
    | simple v => exact congrArg some (not_isEmpty_eq v)
    | tagged v language => exact absurd (.tagged v language) (h none)
    | typed v d =>
      rw [Literal.datatype] at hd
      by_cases hstring : d = .xsd "string"
      · subst hstring
        exact congrArg some (not_isEmpty_eq v)
      by_cases hboolean : d = .xsd "boolean"
      · subst hboolean
        exact isTrue?_eq_truth?_boolean v h
      · have hother : Value.ofLiteral (.typed v d) = .other (.typed v d) := by
          refine Value.ofLiteral_typed_eq_other hstring hboolean fun n hn => hd ?_
          obtain ⟨_, _, ⟨⟩, hread⟩ := Value.ofLiteral_eq_numeric_iff_read?.mp hn
          exact Numeric.isNumericDatatype_of_read? hread
        rw [Value.ofTerm, hother, truth?, Literal.datatype, if_neg hstring, if_neg hboolean, if_neg hd]
        · rfl
        · intro value language h
          cases h

/-- **Where conditions follow the standard.**  The truth of a term as a condition is the effective boolean
value that the standard gives it, or an error like there, exactly if the term does not deviate: it is no
string with a language, no invalid literal of `xsd:boolean`, and no literal of a numeric datatype that is
not read as a number or that is misread as one that counts as true.  A term that deviates has no truth,
but for a misread one, which is true. -/
theorem truth_iff_not_deviates (t : Term) :
    ((Value.ofTerm t).isTrue? = t.truth? ↔ ∀ r, ¬t.Deviates r) ∧
    (∀ r, t.Deviates r → (Value.ofTerm t).isTrue? = r) ∧
    ∀ {m : Eval Term} {before after : Scopes}, m.run before = (some t, after) →
      (Eval.condition m).run before = ((Value.ofTerm t).isTrue?, after) := by
  refine ⟨⟨fun h r hr => hr.truth?_ne (h.symm.trans hr.isTrue?_eq), isTrue?_eq_truth?⟩,
    fun r hr => hr.isTrue?_eq, fun hm => ?_⟩
  rw [Eval.condition, Eval.run_bind_of_run (Eval.run_value_of_run hm)]
  rfl

/-- A decimal of value zero. -/
def zeroPlaces : Literal := .typed "-0.00" (.xsd "decimal")

/-- A valid decimal of value zero does not deviate: as a condition it is false, as the standard has it. -/
theorem zeroPlaces_false :
    (∀ r, ¬(Term.literal zeroPlaces).Deviates r) ∧ (Term.literal zeroPlaces).truth? = some false ∧
      (Eval.condition (pure (.literal zeroPlaces))).run .empty = (some false, .empty) := by
  have hfalse : (Value.ofTerm (.literal zeroPlaces)).isTrue? = some false := by decide
  obtain ⟨hiff, -, heval⟩ := truth_iff_not_deviates (.literal zeroPlaces)
  have hzero : Decimal.zero.value = 0 := by rw [Decimal.value_eq_iff, zero_mul, Int.cast_eq_zero]; rfl
  have hdenotes : zeroPlaces.DenotesNumber (.exact .decimal 0) :=
    .typed rfl rfl (.decimal (hzero ▸ Decimal.read?_eq_some_iff.mp (by decide)))
  have hnot : ∀ r, ¬(Term.literal zeroPlaces).Deviates r := by
    intro r hr
    unfold zeroPlaces at hr hdenotes
    cases hr with
    | boolean hd => exact absurd hd (by decide)
    | unread _ h => exact h _ (.inl hdenotes) (ExactKind.holds_zero .decimal)
    | misread h => exact h.not_denotesNumber hdenotes
  exact ⟨hnot, (hiff.mpr hnot).symm.trans hfalse, (heval rfl).trans (by rw [hfalse])⟩

/-- An invalid integer, which the standard takes for false, and a text with a language that is not empty,
which it takes for true, are errors as conditions. -/
theorem errors_against_standard :
    (Value.ofTerm (.literal (.typed "abc" (.xsd "integer")))).isTrue? = none ∧
      (Term.literal (.typed "abc" (.xsd "integer"))).truth? = some false ∧
      (Value.ofTerm (.literal (.tagged "a" "en"))).isTrue? = none ∧
      (Term.literal (.tagged "a" "en")).truth? = some true := by
  have hnone : readInteger? "abc".toList = none := by decide
  have hinvalid : ¬∃ x, Literal.DenotesNumber (.typed "abc" (.xsd "integer")) x ∧ ¬x.IsFalsy := by
    rintro ⟨x, ⟨hd, ht, h⟩, -⟩
    obtain rfl := Iri.xsd_injective hd
    cases ht
    cases h with
    | integer h => exact absurd (hnone.symm.trans (readInteger?_eq_some_iff.mpr h)) nofun
  refine ⟨by decide, ?_, rfl, congrArg some (decide_eq_true (by decide))⟩
  classical
  rw [truth?_of_isNumericDatatype (by decide), decide_eq_false hinvalid]

end Term

end TripleLoom
