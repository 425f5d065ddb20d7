import TripleLoom.Proofs.Value.Canonical

/-!
# TripleLoom.Proofs.Expression.Casting — casts between truth values, integers and decimals

A truth value, an integer or a decimal is cast to another of these datatypes by its value: a number to
whether it is not zero, a truth value to one or zero, a decimal to an integer without what stands behind the
point (`ExactValue.castTo`).  The casts of expressions do not look at the value but read the lexical form
again by the other datatype.  What comes out so is never wrong, but a form that the datatype refuses has no
result, though its value may have one (`CastTarget.casts_unless_refused`).
-/

namespace TripleLoom

/-! ### Values -/

/-- The values of `xsd:boolean`, the integers and the decimals. -/
inductive ExactValue where
  | boolean (b : Bool)
  | number (k : ExactKind) (x : ℚ)

/-- The datatypes that such values are cast to. -/
inductive CastTarget where
  | boolean
  | number (k : ExactKind)

/-- The IRI of a datatype, which names the cast to it. -/
def CastTarget.datatype : CastTarget → Iri
  | .boolean => .xsd "boolean"
  | .number .integer => .xsd "integer"
  | .number .decimal => .xsd "decimal"

/-- A literal and the value that it denotes. -/
inductive Literal.DenotesExact : Literal → ExactValue → Prop where
  | boolean {l : Literal} {b : Bool} (h : l.DenotesBoolean b) : DenotesExact l (.boolean b)
  | number {l : Literal} {k : ExactKind} {x : ℚ} (h : l.DenotesNumber (.exact k x)) :
      DenotesExact l (.number k x)

namespace ExactValue

/-- The value as a truth value: a number is whether it is not zero. -/
def toBool : ExactValue → Bool
  | .boolean b => b
  | .number _ x => x ≠ 0

/-- The value as a number of a kind: a truth value is one or zero, and integers have nothing behind the
point. -/
def toNumber : ExactKind → ExactValue → ℚ
  | _, .boolean b => if b then 1 else 0
  | .integer, .number _ x => truncated x
  | .decimal, .number _ x => x

/-- The value cast to a datatype. -/
def castTo : CastTarget → ExactValue → ExactValue
  | .boolean, x => .boolean x.toBool
  | .number k, x => .number k (x.toNumber k)

/-- Whether there is a literal of a value. -/
def IsHeld : ExactValue → Prop
  | .boolean _ => True
  | .number k x => k.Holds x

/-- The canonical literal of a value. -/
inductive IsWritten : ExactValue → Term → Prop where
  | boolean (b : Bool) : IsWritten (.boolean b) (.ofBool b)
  | number {n : Numeric} {k : ExactKind} {x : ℚ} (h : n.HasValue k x) :
      IsWritten (.number k x) (.literal n.toLiteral)

theorem isHeld_iff {y : ExactValue} : y.IsHeld ↔ ∃ t, y.IsWritten t := by
  cases y with
  | boolean b => exact iff_of_true trivial ⟨_, .boolean b⟩
  | number k x =>
    constructor
    · intro h
      obtain ⟨n, hn⟩ := Numeric.exists_hasValue_iff.mpr h
      exact ⟨_, .number hn⟩
    · rintro ⟨_, ⟨⟩⟩
      next hn => exact Numeric.exists_hasValue_iff.mp ⟨_, hn⟩

end ExactValue

/-- The lexical forms that a datatype reads, and their values. -/
inductive CastTarget.Reads : CastTarget → String → ExactValue → Prop where
  | boolean {v : String} {b : Bool} (h : Value.readBoolean? v = some b) : Reads .boolean v (.boolean b)
  | number {v : String} {k : ExactKind} {x : ℚ} (h : k.Spells v.toList x) : Reads (.number k) v (.number k x)

/-- The valid literals whose lexical form is refused by another datatype that has their values: words for
truth values are no numerals, a point stands in no numeral of an integer, and only two numerals are lexical
forms of `xsd:boolean`. -/
inductive CastTarget.Refuses : CastTarget → Literal → Prop where
  | word {k : ExactKind} {l : Literal} {b : Bool} (h : l.DenotesBoolean b)
      (hword : l.value = "true" ∨ l.value = "false") : Refuses (.number k) l
  | point {l : Literal} {x : ℚ} (h : l.DenotesNumber (.exact .decimal x)) (hpoint : '.' ∈ l.value.toList) :
      Refuses (.number .integer) l
  | numeral {k : ExactKind} {l : Literal} {x : ℚ} (h : l.DenotesNumber (.exact k x))
      (hnumeral : l.value ≠ "0" ∧ l.value ≠ "1") : Refuses .boolean l

/-! ### Numerals -/

namespace ExactKind

variable {k l : ExactKind} {s : List Char} {x y : ℚ}

theorem spellsUnsigned_integer_iff :
    integer.SpellsUnsigned s x ↔ decimal.SpellsUnsigned s x ∧ '.' ∉ s := by
  constructor
  · rintro ⟨hne, hdigits⟩
    exact ⟨.digits hne hdigits, fun hpoint => absurd (hdigits '.' hpoint) (by decide)⟩
  · rintro ⟨⟨hne, hdigits⟩ | _, hpoint⟩
    · exact .digits hne hdigits
    · exact absurd (List.mem_append_right _ List.mem_cons_self) hpoint

/-- The numerals of integers are those of decimals that have no point. -/
theorem spells_integer_iff : integer.Spells s x ↔ decimal.Spells s x ∧ '.' ∉ s := by
  have hsign {c : Char} {s : List Char} (hc : '.' ≠ c) : '.' ∉ c :: s ↔ '.' ∉ s := by
    rw [List.mem_cons, or_iff_right hc]
  constructor
  · rintro (h | h | h) <;> obtain ⟨h, hpoint⟩ := spellsUnsigned_integer_iff.mp h
    · exact ⟨.bare h, hpoint⟩
    · exact ⟨.plus h, (hsign (by decide)).mpr hpoint⟩
    · exact ⟨.minus h, (hsign (by decide)).mpr hpoint⟩
  · rintro ⟨h | h | h, hpoint⟩
    · exact .bare (spellsUnsigned_integer_iff.mpr ⟨h, hpoint⟩)
    · exact .plus (spellsUnsigned_integer_iff.mpr ⟨h, (hsign (by decide)).mp hpoint⟩)
    · exact .minus (spellsUnsigned_integer_iff.mpr ⟨h, (hsign (by decide)).mp hpoint⟩)

/-- A numeral is one of a decimal too. -/
theorem Spells.toDecimal (h : k.Spells s x) : decimal.Spells s x := by
  cases k with
  | integer => exact (spells_integer_iff.mp h).1
  | decimal => exact h

/-- A numeral spells one number, be it read as an integer or as a decimal. -/
theorem Spells.value_unique (h : k.Spells s x) (h' : l.Spells s y) : x = y := h.toDecimal.unique h'.toDecimal

/-- What the numeral of an integer spells is one. -/
theorem Spells.exists_int (h : integer.Spells s x) : ∃ n : Int, x = n := by
  have hunsigned {s : List Char} {x : ℚ} (h : integer.SpellsUnsigned s x) : ∃ n : Nat, x = n := by
    cases h with
    | digits => exact ⟨_, rfl⟩
  obtain h | h | h := h <;> obtain ⟨n, rfl⟩ := hunsigned h
  · exact ⟨n, rfl⟩
  · exact ⟨n, rfl⟩
  · exact ⟨-n, by rw [Int.cast_neg, Int.cast_natCast]⟩

/-- The characters of a numeral. -/
theorem Spells.mem (h : k.Spells s x) {c : Char} (hc : c ∈ s) : c.isDigit ∨ c ∈ ['.', '+', '-'] := by
  have hunsigned {s : List Char} {x : ℚ} (h : decimal.SpellsUnsigned s x) (hc : c ∈ s) :
      c.isDigit ∨ c ∈ ['.', '+', '-'] := by
    cases h with
    | digits _ hdigits => exact .inl (hdigits c hc)
    | pointed _ hwhole hfraction =>
      rw [List.mem_append, List.mem_cons] at hc
      obtain hc | rfl | hc := hc
      · exact .inl (hwhole c hc)
      · exact .inr (by decide)
      · exact .inl (hfraction c hc)
  cases h.toDecimal with
  | bare hs => exact hunsigned hs hc
  | plus hs | minus hs =>
    obtain rfl | hc := List.mem_cons.mp hc
    · exact .inr (by decide)
    · exact hunsigned hs hc

/-- No letter stands in a numeral, in particular not one that both words for truth values have. -/
theorem Spells.not_mem_e (h : k.Spells s x) : 'e' ∉ s := by
  intro he
  obtain hdigit | hmark := h.mem he
  · exact absurd hdigit (by decide)
  · exact absurd hmark (by decide)

/-- A digit is the numeral of its value. -/
theorem spells_digit {c : Char} (hc : c.isDigit) : k.Spells [c] (Nat.ofDigitChars 10 [c] 0 : Nat) :=
  .bare (.digits (List.cons_ne_nil c []) (List.forall_mem_singleton.mpr hc))

theorem spells_one : k.Spells "1".toList 1 := by
  have hone : Nat.ofDigitChars 10 ['1'] 0 = 1 := by decide
  rw [← Nat.cast_one, ← hone]
  exact spells_digit (by decide)

theorem spells_zero : k.Spells "0".toList 0 := by
  have hzero : Nat.ofDigitChars 10 ['0'] 0 = 0 := by decide
  rw [← Nat.cast_zero, ← hzero]
  exact spells_digit (by decide)

end ExactKind

/-! ### Lexical forms -/

/-- Nothing is taken off an integer. -/
theorem truncated_intCast (n : Int) : truncated n = n := by
  rw [truncated, Int.floor_intCast, Int.ceil_intCast, ite_self]

/-- The lexical forms of `xsd:boolean` are two words and two digits. -/
theorem Value.readBoolean?_eq_some {v : String} {b : Bool} (h : readBoolean? v = some b) :
    v = "true" ∨ v = "false" ∨ (v = "1" ∧ b = true) ∨ (v = "0" ∧ b = false) := by
  obtain ⟨-, hmem⟩ := readBoolean?_eq_some_iff.mp h
  simp only [List.mem_cons, Prod.mk.injEq, List.not_mem_nil, or_false] at hmem
  tauto

namespace Literal

variable {l : Literal} {k : ExactKind} {b : Bool} {x : ℚ}

theorem DenotesNumber.spells (h : l.DenotesNumber (.exact k x)) : k.Spells l.value.toList x := by
  obtain ⟨-, -, h⟩ := h
  cases h with
  | integer h => exact h
  | decimal h => exact h

theorem DenotesBoolean.readBoolean? (h : l.DenotesBoolean b) : Value.readBoolean? l.value = some b := by
  obtain ⟨rfl, hv⟩ := h
  exact Value.readBoolean?_eq_some_iff.mpr (.typed rfl hv)

theorem DenotesBoolean.not_denotesNumber {y : NumericValue} (h : l.DenotesBoolean b) :
    ¬l.DenotesNumber y := by
  rintro ⟨hd, ht, -⟩
  obtain ⟨hboolean, -⟩ := h
  rw [← Iri.xsd_injective (hboolean.symm.trans hd)] at ht
  cases ht

end Literal

namespace CastTarget

variable {target : CastTarget} {l : Literal} {v : String} {x y : ExactValue} {k : ExactKind} {q : ℚ} {b : Bool}

/-- A form that is read as a truth value and as a number is a digit. -/
theorem digit_of_reads (hb : Value.readBoolean? v = some b) (hq : k.Spells v.toList q) :
    (v = "1" ∧ b = true ∧ q = 1) ∨ (v = "0" ∧ b = false ∧ q = 0) := by
  obtain rfl | rfl | ⟨rfl, rfl⟩ | ⟨rfl, rfl⟩ := Value.readBoolean?_eq_some hb
  · exact absurd (by decide) hq.not_mem_e
  · exact absurd (by decide) hq.not_mem_e
  · exact .inl ⟨rfl, rfl, hq.value_unique (l := k) ExactKind.spells_one⟩
  · exact .inr ⟨rfl, rfl, hq.value_unique (l := k) ExactKind.spells_zero⟩

/-- What the lexical form of a valid literal is read as by another datatype is its value, cast. -/
theorem Reads.eq_castTo (h : target.Reads l.value y) (hl : l.DenotesExact x) : y = x.castTo target := by
  cases hl with
  | boolean hb =>
    cases h with
    | boolean hread =>
      rw [hb.readBoolean?, Option.some.injEq] at hread
      rw [ExactValue.castTo, ExactValue.toBool, hread]
    | number hspells =>
      obtain ⟨-, rfl, rfl⟩ | ⟨-, rfl, rfl⟩ := digit_of_reads hb.readBoolean? hspells <;> rfl
  | number hn =>
    cases h with
    | boolean hread =>
      obtain ⟨-, rfl, rfl⟩ | ⟨-, rfl, rfl⟩ := digit_of_reads hread hn.spells <;> rfl
    | @number _ k _ hspells =>
      obtain rfl := hn.spells.value_unique hspells
      cases k with
      | integer =>
        obtain ⟨n, rfl⟩ := hspells.exists_int
        rw [ExactValue.castTo, ExactValue.toNumber, truncated_intCast]
      | decimal => rfl

/-- A word for a truth value is refused by the numbers. -/
theorem exists_reads_iff_of_boolean (hb : l.DenotesBoolean b) :
    (∃ y, (number k).Reads l.value y) ↔ ¬(number k).Refuses l := by
  constructor
  · rintro ⟨_, ⟨⟩⟩
    next hspells =>
    rintro (⟨-, hword | hword⟩ | ⟨hn, -⟩ | _)
    · exact absurd (hword ▸ by decide) hspells.not_mem_e
    · exact absurd (hword ▸ by decide) hspells.not_mem_e
    · exact hb.not_denotesNumber hn
  · intro h
    obtain hword | hword | ⟨hone, -⟩ | ⟨hzero, -⟩ := Value.readBoolean?_eq_some hb.readBoolean?
    · exact absurd (.word hb (.inl hword)) h
    · exact absurd (.word hb (.inr hword)) h
    · exact ⟨_, .number (hone ▸ ExactKind.spells_one)⟩
    · exact ⟨_, .number (hzero ▸ ExactKind.spells_zero)⟩

/-- A numeral is refused by `xsd:boolean` if it is no single digit that stands for its value, and by the
integers if it has a point. -/
theorem exists_reads_iff_of_number (hn : l.DenotesNumber (.exact k q)) :
    (∃ y, target.Reads l.value y) ↔ ¬target.Refuses l := by
  have hspells := hn.spells
  constructor
  · rintro ⟨_, hread | hread⟩ hrefuses
    · cases hrefuses with
      | numeral _ hnumeral =>
        obtain ⟨hone, -⟩ | ⟨hzero, -⟩ := digit_of_reads hread hspells
        · exact hnumeral.2 hone
        · exact hnumeral.1 hzero
    · cases hrefuses with
      | word hb => exact hb.not_denotesNumber hn
      | point _ hpoint => exact (ExactKind.spells_integer_iff.mp hread).2 hpoint
  · intro h
    cases target with
    | boolean =>
      by_cases hzero : l.value = "0"
      · exact ⟨_, .boolean (b := false) (hzero ▸ by decide)⟩
      by_cases hone : l.value = "1"
      · exact ⟨_, .boolean (b := true) (hone ▸ by decide)⟩
      exact absurd (.numeral hn ⟨hzero, hone⟩) h
    | number m =>
      cases m with
      | decimal => exact ⟨_, .number hspells.toDecimal⟩
      | integer =>
        cases k with
        | integer => exact ⟨_, .number hspells⟩
        | decimal =>
          exact ⟨_, .number (ExactKind.spells_integer_iff.mpr ⟨hspells, fun hpoint => h (.point hn hpoint)⟩)⟩

/-- A datatype reads the lexical form of a valid literal exactly if it does not refuse it. -/
theorem exists_reads_iff (hl : l.DenotesExact x) : (∃ y, target.Reads l.value y) ↔ ¬target.Refuses l := by
  cases hl with
  | number hn => exact exists_reads_iff_of_number hn
  | boolean hb =>
    cases target with
    | number k => exact exists_reads_iff_of_boolean hb
    | boolean =>
      refine iff_of_true ⟨_, .boolean hb.readBoolean?⟩ fun hrefuses => ?_
      cases hrefuses with
      | numeral hn => exact hb.not_denotesNumber hn

end CastTarget

/-! ### Casts -/

/-- Only white space at the ends is taken off. -/
theorem Text.trim_eq_self {s : String} (h : ∀ c ∈ s.toList, isBlank c = false) : trim s = s := by
  have hdrop {l : List Char} (hl : ∀ c ∈ l, isBlank c = false) : dropBlanks l = l := by
    cases l with
    | nil => rfl
    | cons c l =>
      have hc := hl c List.mem_cons_self
      rw [dropBlanks, List.dropWhile_cons_of_neg (by rw [hc]; exact Bool.false_ne_true)]
  rw [trim, hdrop h, hdrop fun c hc => h c (List.mem_reverse.mp hc), List.reverse_reverse,
    String.ofList_toList]

namespace CastTarget

variable {target : CastTarget} {l : Literal} {v : String} {x y : ExactValue} {n : Numeric} {k : ExactKind}
  {q : ℚ} {t : Term}

theorem datatype_ne_string : target.datatype ≠ .xsd "string" := by
  rcases target with _ | _ | _ <;> decide

theorem datatype_mem_castTargets : target.datatype ∈ castTargets := by
  rcases target with _ | _ | _ <;> decide

theorem ofLiteral_number_iff :
    Value.ofLiteral (.typed v (number k).datatype) = .numeric n ↔
      ∃ q, k.Spells v.toList q ∧ n.HasValue k q := by
  have hread : Value.ofLiteral (.typed v (number k).datatype) = .numeric n ↔
      Numeric.read? (number k).datatype v = some (some n) := by
    rw [Value.ofLiteral_eq_numeric_iff_read?]
    constructor
    · rintro ⟨_, _, ⟨⟩, h⟩
      exact h
    · exact fun h => ⟨_, _, rfl, h⟩
  rw [hread]
  cases k with
  | integer =>
    rw [datatype, Numeric.read?, if_pos (by decide), Option.some.injEq, Option.map_eq_some_iff]
    constructor
    · rintro ⟨i, hi, rfl⟩
      exact ⟨_, Integer.read?_eq_some_iff.mp hi, .integer i⟩
    · rintro ⟨_, hspells, ⟨i⟩⟩
      exact ⟨i, Integer.read?_eq_some_iff.mpr hspells, rfl⟩
  | decimal =>
    rw [datatype, Numeric.read?, if_neg (by decide), if_pos rfl, Option.some.injEq, Option.map_eq_some_iff]
    constructor
    · rintro ⟨d, hd, rfl⟩
      exact ⟨_, Decimal.read?_eq_some_iff.mp hd, .decimal d⟩
    · rintro ⟨_, hspells, hn⟩
      obtain ⟨d, rfl, rfl⟩ := Numeric.hasValue_decimal_iff.mp hn
      exact ⟨d, Decimal.read?_eq_some_iff.mpr hspells, rfl⟩

/-- The result of a cast is the value of the literal that the datatype makes of the lexical form, unless it
is of no use. -/
theorem cast?_eq :
    (Term.literal l).cast? target.datatype =
      match Value.ofLiteral (.typed (Text.trim l.value) target.datatype) with
      | .other _ => none
      | value => some value.toTerm := by
  rw [Term.cast?, Term.castText?, Option.bind_eq_bind, Option.bind_some, if_neg datatype_ne_string,
    if_pos datatype_mem_castTargets, Literal.withDatatype, if_neg datatype_ne_string]
  rfl

theorem isNumericDatatype_number : Numeric.isNumericDatatype (number k).datatype := by
  cases k <;> decide

/-- A literal is cast to what the datatype reads between the white space around its lexical form, written
in canonical form. -/
theorem cast?_eq_some_iff :
    (Term.literal l).cast? target.datatype = some t ↔
      ∃ y, target.Reads (Text.trim l.value) y ∧ y.IsWritten t := by
  rw [cast?_eq]
  generalize Text.trim l.value = v
  cases target with
  | boolean =>
    rw [datatype, Value.ofLiteral_typed, if_neg (by decide), if_pos rfl]
    cases hread : Value.readBoolean? v with
    | none =>
      refine iff_of_false nofun ?_
      rintro ⟨_, ⟨hsome⟩, -⟩
      rw [hread] at hsome
      cases hsome
    | some b =>
      constructor
      · rintro ⟨⟩
        exact ⟨_, .boolean hread, .boolean b⟩
      · rintro ⟨_, ⟨hsome⟩, ⟨_⟩⟩
        rw [hread, Option.some.injEq] at hsome
        rw [hsome]
        rfl
  | number k =>
    by_cases hnumber : ∃ n, Value.ofLiteral (.typed v (number k).datatype) = .numeric n
    · obtain ⟨n, hn⟩ := hnumber
      obtain ⟨q, hspells, hq⟩ := ofLiteral_number_iff.mp hn
      rw [hn]
      constructor
      · rintro ⟨⟩
        exact ⟨_, .number hspells, .number hq⟩
      · rintro ⟨_, hreads, hwritten⟩
        cases hreads with
        | number hspells' =>
          cases hwritten with
          | number hm =>
            rw [hspells'.value_unique hspells] at hm
            rw [hm.unique hq]
            rfl
    · have hnone := not_exists.mp hnumber
      rw [Value.ofLiteral_eq_other (l := .typed v (number k).datatype) isNumericDatatype_number hnone]
      refine iff_of_false nofun ?_
      rintro ⟨_, hreads, hwritten⟩
      cases hreads with
      | number hspells =>
        cases hwritten with
        | number hm => exact hnone _ (ofLiteral_number_iff.mpr ⟨_, hspells, hm⟩)

end CastTarget

/-! ### Casts of valid literals -/

/-- No white space stands in a valid lexical form. -/
theorem Literal.DenotesExact.trim_value {l : Literal} {x : ExactValue} (h : l.DenotesExact x) :
    Text.trim l.value = l.value := by
  cases h with
  | boolean hb =>
    obtain hv | hv | ⟨hv, -⟩ | ⟨hv, -⟩ := Value.readBoolean?_eq_some hb.readBoolean? <;>
      rw [hv] <;> decide
  | number hn =>
    refine Text.trim_eq_self fun c hc => ?_
    obtain hdigit | hmark := hn.spells.mem hc
    · have hrange : 48 ≤ c.toNat ∧ c.toNat ≤ 57 := by
        simpa [Char.isDigit, UInt32.le_iff_toNat_le] using hdigit
      simp [Text.isBlank]
      omega
    · simp only [List.mem_cons, List.not_mem_nil, or_false] at hmark
      obtain rfl | rfl | rfl := hmark <;> decide

/-- Casting to the datatype that a value was cast to changes nothing. -/
theorem ExactValue.castTo_castTo (target : CastTarget) (x : ExactValue) :
    (x.castTo target).castTo target = x.castTo target := by
  cases target with
  | boolean => rfl
  | number k =>
    cases k with
    | decimal => rfl
    | integer =>
      obtain ⟨n, hn⟩ : ∃ n : Int, x.toNumber .integer = n := by
        cases x with
        | boolean b => exact ⟨if b then 1 else 0, by rw [toNumber]; split <;> norm_num⟩
        | number k q => exact ⟨truncated q, rfl⟩
      rw [castTo, castTo, hn, toNumber, truncated_intCast]

namespace CastTarget

variable {target : CastTarget} {l : Literal} {x : ExactValue} {t : Term}

theorem cast?_eq_some_iff_of_denotes (hl : l.DenotesExact x) :
    (Term.literal l).cast? target.datatype = some t ↔ ¬target.Refuses l ∧ (x.castTo target).IsWritten t := by
  rw [cast?_eq_some_iff, hl.trim_value, ← exists_reads_iff hl]
  constructor
  · rintro ⟨y, hreads, hwritten⟩
    exact ⟨⟨y, hreads⟩, hreads.eq_castTo hl ▸ hwritten⟩
  · rintro ⟨⟨y, hreads⟩, hwritten⟩
    exact ⟨y, hreads, hreads.eq_castTo hl ▸ hwritten⟩

theorem cast?_eq_none_iff_of_denotes (hl : l.DenotesExact x) :
    (Term.literal l).cast? target.datatype = none ↔ target.Refuses l ∨ ¬(x.castTo target).IsHeld := by
  rw [Option.eq_none_iff_forall_ne_some, ExactValue.isHeld_iff]
  rw [← not_exists, exists_congr fun t => cast?_eq_some_iff_of_denotes hl, exists_and_left, not_and_or, not_not]

/-- What is written as a result of a cast is a literal of that value, which the datatype reads. -/
theorem exists_literal_of_isWritten (h : (x.castTo target).IsWritten t) :
    ∃ l, t = .literal l ∧ l.DenotesExact (x.castTo target) ∧ target.Reads l.value (x.castTo target) := by
  cases target with
  | boolean =>
    cases h
    have hread : Value.readBoolean? (if x.toBool then "true" else "false") = some x.toBool := by
      cases x.toBool <;> decide
    exact ⟨_, rfl, .boolean (Value.readBoolean?_eq_some_iff.mp hread), .boolean hread⟩
  | number k =>
    cases h with
    | number hn => exact ⟨_, rfl, .number hn.denotesNumber_toLiteral, .number hn.denotesNumber_toLiteral.spells⟩

/-- The result of a cast is cast to itself. -/
theorem cast?_of_isWritten (h : (x.castTo target).IsWritten t) : t.cast? target.datatype = some t := by
  obtain ⟨l, rfl, hl, hreads⟩ := exists_literal_of_isWritten h
  rw [cast?_eq_some_iff_of_denotes hl, ExactValue.castTo_castTo]
  exact ⟨(exists_reads_iff hl).mp ⟨_, hreads⟩, h⟩

end CastTarget

/-! ### Expressions -/

/-- The cast of what an expression gives. -/
def Expression.castTo (target : CastTarget) (e : Expression) : Expression := .call (.custom target.datatype) [e]

namespace CastTarget

variable {target : CastTarget} {c : EvalContext} {s : Solution} {e : Expression} {t : Term}
  {before after : Scopes}

/-- A cast is what the name of a datatype stands for if there is no function of that name. -/
theorem run_castTo (hname : c.functions.scalar? target.datatype = none) {r : Option Term}
    (he : (e.eval c s).run before = (r, after)) :
    ((e.castTo target).eval c s).run before = (r.bind (Term.cast? target.datatype), after) := by
  show (c.callNamed target.datatype [e.eval c s]).run before = _
  have harguments : (Eval.each id [e.eval c s]).run before = (r.map ([·]), after) := by
    rw [Eval.each, Eval.run_bind, id, he]
    cases r <;> rfl
  rw [EvalContext.callNamed, Eval.run_bind, harguments]
  cases r with
  | none => rfl
  | some t =>
    rw [Option.map_some, hname]
    rfl

/-- **Which casts are missing.**  Take an expression that gives a valid literal of a truth value, an integer
or a decimal, and cast it to one of these datatypes by a name that no function of the registry has.  The
result is the canonical literal of the value, cast: whether a number is not zero, one or zero for a truth
value, a decimal without what stands behind the point, or the same value.  It is missing exactly if there is
no literal of that value or the datatype refuses the lexical form: words for truth values as numbers, points
in integers, and numerals but "0" and "1" as truth values.  Casting the result again to the same datatype
changes nothing. -/
theorem casts_unless_refused (target : CastTarget) {l : Literal} {x : ExactValue}
    (hname : c.functions.scalar? target.datatype = none) (hl : l.DenotesExact x)
    (he : (e.eval c s).run before = (some (.literal l), after)) :
    (∀ t, ((e.castTo target).eval c s).run before = (some t, after) ↔
      ¬target.Refuses l ∧ (x.castTo target).IsWritten t) ∧
    (((e.castTo target).eval c s).run before = (none, after) ↔
      target.Refuses l ∨ ¬(x.castTo target).IsHeld) ∧
    (((e.castTo target).castTo target).eval c s).run before = ((e.castTo target).eval c s).run before := by
  have hcast := run_castTo hname he
  rw [Option.bind_some] at hcast
  refine ⟨fun t => ?_, ?_, ?_⟩
  · rw [hcast, Prod.mk.injEq, and_iff_left rfl, cast?_eq_some_iff_of_denotes hl]
  · rw [hcast, Prod.mk.injEq, and_iff_left rfl, cast?_eq_none_iff_of_denotes hl]
  · rw [run_castTo hname hcast, hcast, Prod.mk.injEq, and_iff_left rfl]
    cases hresult : (Term.literal l).cast? target.datatype with
    | none => rfl
    | some t => exact cast?_of_isWritten ((cast?_eq_some_iff_of_denotes hl).mp hresult).2

/-- An integer beyond the 64-bit range. -/
def vast : Literal := .typed "+010000000000000000000" (.xsd "nonNegativeInteger")

/-- As a decimal it is held, and the cast gives it; cast to an integer it is missing. -/
theorem vast_cast :
    ((Expression.castTo (.number .decimal) (.literal vast)).eval ⟨.empty, none, 0⟩ .empty).run .empty =
        (some (.literal (.typed "10000000000000000000" (.xsd "decimal"))), .empty) ∧
      ((Expression.castTo (.number .integer) (.literal vast)).eval ⟨.empty, none, 0⟩ .empty).run .empty =
        (none, .empty) := by
  have hspells : ExactKind.integer.Spells "+010000000000000000000".toList (10000000000000000000 : Int) :=
    readInteger?_eq_some_iff.mp (by decide)
  have hdenotes : vast.DenotesExact (.number .integer (10000000000000000000 : Int)) :=
    .number (.typed rfl rfl (.integer hspells (by decide)))
  have heval : ((Expression.literal vast).eval ⟨.empty, none, 0⟩ .empty).run .empty =
      (some (.literal vast), .empty) := rfl
  obtain ⟨hdecimal, -, -⟩ := casts_unless_refused (.number .decimal) rfl hdenotes heval
  obtain ⟨-, hinteger, -⟩ := casts_unless_refused (.number .integer) rfl hdenotes heval
  have haccepted : ¬(CastTarget.number .decimal).Refuses vast := by
    rintro ⟨⟨hd, -⟩, -⟩
    exact absurd hd (by decide)
  have hvalue : (Numeric.ofUnits 10000000000000000000000000000000000000 (by decide)).HasValue .decimal
      (10000000000000000000 : Int) :=
    Numeric.hasValue_ofUnits _ (by rw [show Decimal.unit = 1000000000000000000 by decide]; norm_num)
  have hbeyond : ¬ExactKind.integer.Holds (10000000000000000000 : Int) := by
    rintro ⟨n, hn, heq⟩
    rw [ExactKind.unit, Int.cast_one, div_one, Int.cast_inj] at heq
    exact absurd (heq ▸ hn) (by decide)
  refine ⟨(hdecimal _).mpr ⟨haccepted, .number hvalue⟩, hinteger.mpr (.inr ?_)⟩
  rw [ExactValue.castTo, ExactValue.toNumber, truncated_intCast]
  exact hbeyond

/-- The decimal "1.5" has no cast to an integer, the integer "5" none to a truth value and the truth value
"true" none to a decimal, though there are literals of their values, cast. -/
theorem held_values_refused :
    (((Expression.castTo (.number .integer) (.literal (.typed "1.5" (.xsd "decimal")))).eval
        ⟨.empty, none, 0⟩ .empty).run .empty = (none, .empty) ∧
      Literal.DenotesExact (.typed "1.5" (.xsd "decimal")) (.number .decimal (3 / 2)) ∧
      ((ExactValue.number .decimal (3 / 2)).castTo (.number .integer)).IsWritten
        (.literal (.typed "1" (.xsd "integer")))) ∧
    (((Expression.castTo .boolean (.literal (.typed "5" (.xsd "integer")))).eval ⟨.empty, none, 0⟩ .empty).run
        .empty = (none, .empty) ∧
      Literal.DenotesExact (.typed "5" (.xsd "integer")) (.number .integer (5 : Int)) ∧
      ((ExactValue.number .integer (5 : Int)).castTo .boolean).IsWritten (.ofBool true)) ∧
    (((Expression.castTo (.number .decimal) (.literal (.typed "true" (.xsd "boolean")))).eval
        ⟨.empty, none, 0⟩ .empty).run .empty = (none, .empty) ∧
      Literal.DenotesExact (.typed "true" (.xsd "boolean")) (.boolean true) ∧
      ((ExactValue.boolean true).castTo (.number .decimal)).IsWritten
        (.literal (.typed "1" (.xsd "decimal")))) := by
  have hunit : (Decimal.unit : ℚ) = 1000000000000000000 := by exact_mod_cast (by decide : Decimal.unit = _)
  have hpoint : ExactKind.decimal.Spells "1.5".toList (3 / 2) := by
    have hread : Decimal.read? "1.5" = some ⟨⟨1500000000000000000, by decide, by decide⟩⟩ := by decide
    have hvalue : Decimal.value ⟨⟨1500000000000000000, by decide, by decide⟩⟩ = 3 / 2 := by
      rw [Decimal.value_eq_iff, hunit]
      norm_num
    exact hvalue ▸ Decimal.read?_eq_some_iff.mp hread
  have hfive : ExactKind.integer.Spells "5".toList (5 : Int) := readInteger?_eq_some_iff.mp (by decide)
  have htruncated : truncated (3 / 2) = 1 := truncated_div 3 2
  have hone : (Numeric.ofUnits 1000000000000000000 (by decide)).HasValue .decimal 1 :=
    Numeric.hasValue_ofUnits _ (by rw [hunit]; norm_num)
  refine ⟨⟨rfl, .number (.typed rfl rfl (.decimal hpoint)), ?_⟩,
    ⟨rfl, .number (.typed rfl rfl (.integer hfive trivial)), ?_⟩,
    ⟨rfl, .boolean (.typed rfl (by decide)), .number hone⟩⟩
  · rw [ExactValue.castTo, ExactValue.toNumber, htruncated]
    exact .number (.integer ⟨1, by decide, by decide⟩)
  · have htrue : (ExactValue.number .integer (5 : Int)).toBool = true := by simp [ExactValue.toBool]
    rw [ExactValue.castTo, htrue]
    exact .boolean true

end CastTarget

end TripleLoom
