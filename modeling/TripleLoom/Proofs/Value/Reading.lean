import TripleLoom.Proofs.Expression.Comparison
import TripleLoom.Proofs.Numeric.Bits
import TripleLoom.Proofs.Numeric.FloatingNumerals

/-!
# TripleLoom.Proofs.Value.Reading — which literals are read as numbers

The sixteen numeric datatypes are given by their values (`NumericDatatype`): a range of integers, the
decimals, or one of the two formats.  Beside the valid lexical forms of a datatype (`Spells`) stand the
invalid ones that are taken for a value (`Misspells`): the integers out of the range of a derived datatype,
and names of infinity and of "not a number" that floats and doubles do not have.  A literal is read as a
number exactly if its lexical form is one of these and there is a number for the value
(`Value.ofLiteral_eq_numeric_iff`), so that whatever else is invalid stays as it is.
-/

namespace TripleLoom

/-! ### Floats and doubles -/

namespace BinaryFormat

variable {f : BinaryFormat} {negative : Bool} {m : Magnitude} {p bits : Nat}

/-- In both formats the patterns end below the bit of the sign. -/
theorem patterns_lt (hf : f = single ∨ f = double) :
    f.infinity < f.notANumber ∧ f.notANumber < f.signBit := by
  obtain rfl | rfl := hf <;> decide

theorem withSign_mod (hp : p < f.signBit) : f.withSign negative p % f.signBit = p := by
  rw [withSign]
  split
  · rw [Nat.add_mod_right, Nat.mod_eq_of_lt hp]
  · exact Nat.mod_eq_of_lt hp

theorem withSign_lt (hp : p < f.signBit) : f.withSign negative p < 2 * f.signBit := by
  rw [withSign]
  split <;> omega

theorem HasPattern.le (hf : f = single ∨ f = double) (h : f.HasPattern m p) : p ≤ f.notANumber := by
  have hless := (patterns_lt hf).1
  cases h with
  | finite h => exact h.1.trans hless.le
  | infinite => exact hless.le
  | notANumber => exact le_rfl

/-- The pattern of a numeral is that of its magnitude with the sign, but for "not a number". -/
theorem encodes_iff (hf : f = single ∨ f = double) :
    f.Encodes negative m bits ↔ ∃ p, f.HasPattern m p ∧ bits = f.canonical (f.withSign negative p) := by
  obtain ⟨hinfinity, hnan⟩ := patterns_lt hf
  have hnumber {p : Nat} (hp : p ≤ f.infinity) :
      f.canonical (f.withSign negative p) = f.withSign negative p := by
    refine if_neg fun h => ?_
    rw [IsNaN, withSign_mod (by omega)] at h
    omega
  have hnone : f.canonical (f.withSign negative f.notANumber) = f.notANumber := by
    refine if_pos ?_
    rwa [IsNaN, withSign_mod hnan]
  constructor
  · rintro (h | _ | _)
    · exact ⟨_, .finite h, (hnumber h.1).symm⟩
    · exact ⟨_, .infinite, (hnumber le_rfl).symm⟩
    · exact ⟨_, .notANumber, hnone.symm⟩
  · rintro ⟨p, h | _ | _, rfl⟩
    · rw [hnumber h.1]
      exact .finite h
    · rw [hnumber le_rfl]
      exact .infinite
    · rw [hnone]
      exact .notANumber

end BinaryFormat

/-- The format and the pattern of a number, if it is a float or a double. -/
def Numeric.bits? : Numeric → Option (BinaryFormat × Nat)
  | .float a => some (.single, a.toBits.toNat)
  | .double a => some (.double, a.toBits.toNat)
  | _ => none

theorem Numeric.bits?_float {p : Nat} (hp : p < 2 * BinaryFormat.single.signBit) :
    (float (.ofBits (.ofNat p))).bits? = some (.single, BinaryFormat.single.canonical p) := by
  rw [bits?, BinaryFormat.toBits_ofBits_single hp]

theorem Numeric.bits?_double {p : Nat} (hp : p < 2 * BinaryFormat.double.signBit) :
    (double (.ofBits (.ofNat p))).bits? = some (.double, BinaryFormat.double.canonical p) := by
  rw [bits?, BinaryFormat.toBits_ofBits_double hp]

/-- A pattern is that of one number only. -/
theorem Numeric.eq_of_bits? {m n : Numeric} {b : BinaryFormat × Nat} (hm : m.bits? = some b)
    (hn : n.bits? = some b) : m = n := by
  have hsame := hm.trans hn.symm
  cases m with
  | integer | decimal => cases hm
  | float a =>
    cases n with
    | integer | decimal => cases hn
    | float b =>
      have hbits : a.toBits.toNat = b.toBits.toNat := (Prod.mk.inj (Option.some.inj hsame)).2
      rw [Float32.toBits_inj.mp (UInt32.toNat_inj.mp hbits)]
    | double b => exact absurd (Prod.mk.inj (Option.some.inj hsame)).1 (by decide)
  | double a =>
    cases n with
    | integer | decimal => cases hn
    | float b => exact absurd (Prod.mk.inj (Option.some.inj hsame)).1 (by decide)
    | double b =>
      have hbits : a.toBits.toNat = b.toBits.toNat := (Prod.mk.inj (Option.some.inj hsame)).2
      rw [Float.toBits_inj.mp (UInt64.toNat_inj.mp hbits)]

/-! ### The numeric datatypes -/

/-- What the literals of the numeric datatypes denote. -/
inductive NumericValue where
  | exact (k : ExactKind) (x : ℚ)
  | floating (f : BinaryFormat) (negative : Bool) (m : Magnitude)

/-- The numeric datatypes: `xsd:integer` and those derived from it are given by their values, `xsd:float`
and `xsd:double` by their formats. -/
inductive NumericDatatype where
  | integer (range : Set Int)
  | decimal
  | floating (f : BinaryFormat)

namespace NumericDatatype

/-- The numeric datatype of a local name. -/
def ofName? : String → Option NumericDatatype
  | "integer" => some (.integer Set.univ)
  | "byte" => some (.integer (Set.Icc (-128) 127))
  | "short" => some (.integer (Set.Icc (-32768) 32767))
  | "int" => some (.integer (Set.Icc (-2147483648) 2147483647))
  | "long" => some (.integer (Set.Icc (-9223372036854775808) 9223372036854775807))
  | "unsignedByte" => some (.integer (Set.Icc 0 255))
  | "unsignedShort" => some (.integer (Set.Icc 0 65535))
  | "unsignedInt" => some (.integer (Set.Icc 0 4294967295))
  | "unsignedLong" => some (.integer (Set.Icc 0 18446744073709551615))
  | "positiveInteger" => some (.integer (Set.Ici 1))
  | "negativeInteger" => some (.integer (Set.Iic (-1)))
  | "nonPositiveInteger" => some (.integer (Set.Iic 0))
  | "nonNegativeInteger" => some (.integer (Set.Ici 0))
  | "decimal" => some .decimal
  | "float" => some (.floating .single)
  | "double" => some (.floating .double)
  | _ => none

/-- The valid lexical forms of a datatype and what they denote. -/
inductive Spells : NumericDatatype → List Char → NumericValue → Prop where
  | integer {range : Set Int} {s : List Char} {n : Int} (h : ExactKind.integer.Spells s n) (hn : n ∈ range) :
      Spells (.integer range) s (.exact .integer n)
  | decimal {s : List Char} {x : ℚ} (h : ExactKind.decimal.Spells s x) :
      Spells .decimal s (.exact .decimal x)
  | floating {f : BinaryFormat} {s : List Char} {negative : Bool} {m : Magnitude}
      (h : SpellsFloating s negative m) : Spells (.floating f) s (.floating f negative m)

/-- The invalid lexical forms that are taken for a value: a numeral of an integer outside the range, and a
name that is no valid numeral of a float or double. -/
inductive Misspells : NumericDatatype → List Char → NumericValue → Prop where
  | integer {range : Set Int} {s : List Char} {n : Int} (h : ExactKind.integer.Spells s n) (hn : n ∉ range) :
      Misspells (.integer range) s (.exact .integer n)
  | floating {f : BinaryFormat} {s : List Char} {negative : Bool} {m : Magnitude}
      (h : Misnamed s negative m) : Misspells (.floating f) s (.floating f negative m)

variable {t : NumericDatatype} {s : List Char} {x y : NumericValue} {name : String}

/-- A valid lexical form denotes one value. -/
theorem Spells.unique (h : t.Spells s x) (h' : t.Spells s y) : x = y := by
  cases h with
  | integer h =>
    cases h' with
    | integer h' => rw [h.unique h']
  | decimal h =>
    cases h' with
    | decimal h' => rw [h.unique h']
  | floating h =>
    cases h' with
    | floating h' =>
      obtain ⟨rfl, rfl⟩ := h.unique h'
      rfl

theorem Misspells.not_spells (h : t.Misspells s x) : ¬t.Spells s y := by
  intro h'
  cases h with
  | integer h hn =>
    cases h' with
    | integer h' hn' =>
      have heq := h.unique h'
      rw [Int.cast_inj] at heq
      exact hn (heq ▸ hn')
  | floating h =>
    cases h' with
    | floating h' => exact h.not_spellsFloating h'

/-- What is read as an integer, in the range or not. -/
theorem integer_taken_iff {range : Set Int} :
    (integer range).Spells s x ∨ (integer range).Misspells s x ↔
      ∃ n : Int, ExactKind.integer.Spells s n ∧ x = .exact .integer n := by
  constructor
  · rintro (⟨h, -⟩ | ⟨h, -⟩)
    · exact ⟨_, h, rfl⟩
    · exact ⟨_, h, rfl⟩
  · rintro ⟨n, h, rfl⟩
    by_cases hn : n ∈ range
    · exact .inl (.integer h hn)
    · exact .inr (.integer h hn)

/-- Only valid decimals are read. -/
theorem decimal_taken_iff :
    decimal.Spells s x ∨ decimal.Misspells s x ↔
      ∃ q, ExactKind.decimal.Spells s q ∧ x = .exact .decimal q := by
  constructor
  · intro h
    obtain h | h := h <;> cases h
    next h => exact ⟨_, h, rfl⟩
  · rintro ⟨q, h, rfl⟩
    exact .inl (.decimal h)

/-- What is read as a float or a double, a valid numeral or a name. -/
theorem floating_taken_iff {f : BinaryFormat} :
    (floating f).Spells s x ∨ (floating f).Misspells s x ↔
      ∃ negative m, (SpellsFloating s negative m ∨ Misnamed s negative m) ∧ x = .floating f negative m := by
  constructor
  · intro h
    obtain h | h := h <;> cases h
    · next h => exact ⟨_, _, .inl h, rfl⟩
    · next h => exact ⟨_, _, .inr h, rfl⟩
  · rintro ⟨negative, m, h | h, rfl⟩
    · exact .inl (.floating h)
    · exact .inr (.floating h)

theorem ofName?_eq_some (h : ofName? name = some t) :
    (name ∈ Numeric.integerNames ∧ ∃ range, t = .integer range) ∨ (name = "decimal" ∧ t = .decimal) ∨
      (name = "float" ∧ t = .floating .single) ∨ (name = "double" ∧ t = .floating .double) := by
  unfold ofName? at h
  split at h <;> cases h <;> simp [Numeric.integerNames]

theorem ofName?_of_mem (h : name ∈ Numeric.integerNames) : ∃ range, ofName? name = some (.integer range) := by
  simp only [Numeric.integerNames, List.mem_cons, List.not_mem_nil, or_false] at h
  rcases h with rfl | rfl | rfl | rfl | rfl | rfl | rfl | rfl | rfl | rfl | rfl | rfl | rfl <;>
    exact ⟨_, rfl⟩

end NumericDatatype

/-! ### Reading -/

theorem Iri.xsd_injective : Function.Injective Iri.xsd := by
  intro a b h
  exact (String.append_right_inj xsdNamespace).mp (congrArg Iri.text h)

namespace Numeric

/-- Whether a number is the one that is computed with for a value: it has that value, or the pattern
nearest to it. -/
inductive StandsFor : Numeric → NumericValue → Prop where
  | exact {n : Numeric} {k : ExactKind} {x : ℚ} (h : n.HasValue k x) : StandsFor n (.exact k x)
  | floating {n : Numeric} {f : BinaryFormat} {negative : Bool} {m : Magnitude} {bits : Nat}
      (hn : n.bits? = some (f, bits)) (h : f.Encodes negative m bits) :
      StandsFor n (.floating f negative m)

variable {n n' : Numeric} {x : NumericValue} {t : NumericDatatype} {name v : String}

/-- There is one number for a value. -/
theorem StandsFor.unique (h : n.StandsFor x) (h' : n'.StandsFor x) : n = n' := by
  cases h with
  | exact h =>
    cases h' with
    | exact h' => exact h.unique h'
  | floating hn h =>
    cases h' with
    | floating hn' h' => exact eq_of_bits? hn (h.unique h' ▸ hn')

theorem standsFor_exact_iff {k : ExactKind} {q : ℚ} : n.StandsFor (.exact k q) ↔ n.HasValue k q :=
  ⟨fun | .exact h => h, .exact⟩

theorem standsFor_floating_iff {f : BinaryFormat} {negative : Bool} {m : Magnitude} :
    n.StandsFor (.floating f negative m) ↔ ∃ bits, n.bits? = some (f, bits) ∧ f.Encodes negative m bits :=
  ⟨fun | .floating hn h => ⟨_, hn, h⟩, fun ⟨_, hn, h⟩ => .floating hn h⟩

theorem isIntegerDatatype_xsd_iff : isIntegerDatatype (.xsd name) ↔ name ∈ integerNames := by
  rw [isIntegerDatatype, List.any_eq_true]
  constructor
  · rintro ⟨name', hmem, heq⟩
    rwa [← Iri.xsd_injective (beq_iff_eq.mp heq)]
  · exact fun hmem => ⟨name, hmem, beq_iff_eq.mpr rfl⟩

theorem map_read?_integer_iff {range : Set Int} :
    (Integer.read? v).map .integer = some n ↔
      ∃ x, ((NumericDatatype.integer range).Spells v.toList x ∨
        (NumericDatatype.integer range).Misspells v.toList x) ∧ n.StandsFor x := by
  rw [Option.map_eq_some_iff]
  constructor
  · rintro ⟨i, hread, rfl⟩
    exact ⟨_, NumericDatatype.integer_taken_iff.mpr ⟨_, Integer.read?_eq_some_iff.mp hread, rfl⟩,
      .exact (.integer i)⟩
  · rintro ⟨x, h, hn⟩
    obtain ⟨m, hspells, rfl⟩ := NumericDatatype.integer_taken_iff.mp h
    obtain ⟨i, rfl, hi⟩ := hasValue_integer_iff.mp (standsFor_exact_iff.mp hn)
    exact ⟨i, Integer.read?_eq_some_iff.mpr (hi ▸ hspells), rfl⟩

theorem map_read?_decimal_iff :
    (Decimal.read? v).map .decimal = some n ↔
      ∃ x, (NumericDatatype.decimal.Spells v.toList x ∨ NumericDatatype.decimal.Misspells v.toList x) ∧
        n.StandsFor x := by
  rw [Option.map_eq_some_iff]
  constructor
  · rintro ⟨d, hread, rfl⟩
    exact ⟨_, NumericDatatype.decimal_taken_iff.mpr ⟨_, Decimal.read?_eq_some_iff.mp hread, rfl⟩,
      .exact (.decimal d)⟩
  · rintro ⟨x, h, hn⟩
    obtain ⟨q, hspells, rfl⟩ := NumericDatatype.decimal_taken_iff.mp h
    obtain ⟨d, rfl, hd⟩ := hasValue_decimal_iff.mp (standsFor_exact_iff.mp hn)
    exact ⟨d, Decimal.read?_eq_some_iff.mpr (hd ▸ hspells), rfl⟩

/-- The same of floats and doubles, by what makes a number of a pattern. -/
theorem map_read?_floating_iff {f : BinaryFormat} (hf : f = .single ∨ f = .double) {make : Nat → Numeric}
    (hmake : ∀ p < 2 * f.signBit, (make p).bits? = some (f, f.canonical p)) :
    (f.read? v).map make = some n ↔
      ∃ x, ((NumericDatatype.floating f).Spells v.toList x ∨
        (NumericDatatype.floating f).Misspells v.toList x) ∧ n.StandsFor x := by
  have hlt {negative : Bool} {m : Magnitude} {p : Nat} (h : f.HasPattern m p) :
      f.withSign negative p < 2 * f.signBit :=
    BinaryFormat.withSign_lt ((h.le hf).trans_lt (BinaryFormat.patterns_lt hf).2)
  rw [Option.map_eq_some_iff]
  constructor
  · rintro ⟨_, hread, rfl⟩
    obtain ⟨negative, m, p, hspells, hpattern, rfl⟩ := (BinaryFormat.read?_eq_some_iff hf).mp hread
    exact ⟨_, NumericDatatype.floating_taken_iff.mpr ⟨negative, m, hspells, rfl⟩,
      .floating (hmake _ (hlt hpattern)) ((BinaryFormat.encodes_iff hf).mpr ⟨p, hpattern, rfl⟩)⟩
  · rintro ⟨x, h, hn⟩
    obtain ⟨negative, m, hspells, rfl⟩ := NumericDatatype.floating_taken_iff.mp h
    obtain ⟨bits, hbits, hencodes⟩ := standsFor_floating_iff.mp hn
    obtain ⟨p, hpattern, rfl⟩ := (BinaryFormat.encodes_iff hf).mp hencodes
    exact ⟨_, (BinaryFormat.read?_eq_some_iff hf).mpr ⟨negative, m, p, hspells, hpattern, rfl⟩,
      eq_of_bits? (hmake _ (hlt hpattern)) hbits⟩

/-- A lexical form is read as a number exactly if it is that of a value or is taken for one, and then as
the number for that value. -/
theorem read?_xsd_eq_some_iff (ht : NumericDatatype.ofName? name = some t) :
    read? (.xsd name) v = some (some n) ↔
      ∃ x, (t.Spells v.toList x ∨ t.Misspells v.toList x) ∧ n.StandsFor x := by
  obtain ⟨hmem, range, rfl⟩ | ⟨rfl, rfl⟩ | ⟨rfl, rfl⟩ | ⟨rfl, rfl⟩ := NumericDatatype.ofName?_eq_some ht
  · rw [read?, if_pos (isIntegerDatatype_xsd_iff.mpr hmem), Option.some.injEq]
    exact map_read?_integer_iff
  · rw [read?, if_neg (by decide), if_pos rfl, Option.some.injEq]
    exact map_read?_decimal_iff
  · rw [read?, if_neg (by decide), if_neg (by decide), if_pos rfl, Option.some.injEq]
    exact map_read?_floating_iff (.inl rfl) fun p => bits?_float
  · rw [read?, if_neg (by decide), if_neg (by decide), if_neg (by decide), if_pos rfl, Option.some.injEq]
    exact map_read?_floating_iff (.inr rfl) fun p => bits?_double

end Numeric

/-! ### Literals -/

namespace Literal

/-- The valid literals of the numeric datatypes, and what they denote. -/
inductive DenotesNumber : Literal → NumericValue → Prop where
  | typed {v name : String} {d : Iri} {t : NumericDatatype} {x : NumericValue} (hd : d = .xsd name)
      (ht : NumericDatatype.ofName? name = some t) (h : t.Spells v.toList x) : DenotesNumber (.typed v d) x

/-- The invalid literals that are taken for a number. -/
inductive Misread : Literal → NumericValue → Prop where
  | typed {v name : String} {d : Iri} {t : NumericDatatype} {x : NumericValue} (hd : d = .xsd name)
      (ht : NumericDatatype.ofName? name = some t) (h : t.Misspells v.toList x) : Misread (.typed v d) x

/-- The valid literals of `xsd:boolean`, and what they denote. -/
inductive DenotesBoolean : Literal → Bool → Prop where
  | typed {v : String} {d : Iri} {b : Bool} (hd : d = .xsd "boolean")
      (h : (v, b) ∈ [("true", true), ("1", true), ("false", false), ("0", false)]) :
      DenotesBoolean (.typed v d) b

variable {l : Literal} {x y : NumericValue}

/-- A valid literal denotes one value. -/
theorem DenotesNumber.unique (h : l.DenotesNumber x) (h' : l.DenotesNumber y) : x = y := by
  obtain ⟨rfl, ht, h⟩ := h
  obtain ⟨hd, ht', h'⟩ := h'
  obtain rfl := Iri.xsd_injective hd
  obtain rfl := Option.some.inj (ht.symm.trans ht')
  exact h.unique h'

/-- What is misread is no valid literal. -/
theorem Misread.not_denotesNumber (h : l.Misread x) : ¬l.DenotesNumber y := by
  intro h'
  obtain ⟨rfl, ht, h⟩ := h
  obtain ⟨hd, ht', h'⟩ := h'
  obtain rfl := Iri.xsd_injective hd
  obtain rfl := Option.some.inj (ht.symm.trans ht')
  exact h.not_spells h'

end Literal

namespace Numeric

/-- The datatypes of strings and of truth values are not numeric. -/
theorem ne_of_isNumericDatatype {d : Iri} (h : isNumericDatatype d) :
    d ≠ .xsd "string" ∧ d ≠ .xsd "boolean" ∧ d ≠ .rdf "langString" := by
  refine ⟨?_, ?_, ?_⟩ <;> rintro rfl <;> revert h <;> decide

theorem isNumericDatatype_of_ofName? {name : String} {t : NumericDatatype}
    (h : NumericDatatype.ofName? name = some t) : isNumericDatatype (.xsd name) := by
  rw [isNumericDatatype, Bool.or_eq_true]
  obtain ⟨hmem, -⟩ | ⟨rfl, -⟩ | ⟨rfl, -⟩ | ⟨rfl, -⟩ := NumericDatatype.ofName?_eq_some h
  · exact .inl (isIntegerDatatype_xsd_iff.mpr hmem)
  all_goals exact .inr (by decide)

/-- A numeric datatype has a name. -/
theorem exists_ofName?_of_isNumericDatatype {d : Iri} (h : isNumericDatatype d) :
    ∃ name t, d = .xsd name ∧ NumericDatatype.ofName? name = some t := by
  rw [isNumericDatatype, Bool.or_eq_true, isIntegerDatatype, List.any_eq_true, List.any_eq_true] at h
  obtain ⟨name, hmem, heq⟩ | ⟨name, hmem, heq⟩ := h
  · obtain ⟨range, ht⟩ := NumericDatatype.ofName?_of_mem hmem
    exact ⟨name, _, (beq_iff_eq.mp heq).symm, ht⟩
  · simp only [List.mem_cons, List.not_mem_nil, or_false] at hmem
    obtain rfl | rfl | rfl := hmem <;> exact ⟨_, _, (beq_iff_eq.mp heq).symm, rfl⟩

end Numeric

namespace Value

variable {l : Literal} {n : Numeric}

theorem ofLiteral_typed (v : String) (d : Iri) :
    ofLiteral (.typed v d) =
      if d = Iri.xsd "string" then .simple v
      else if d = Iri.xsd "boolean" then
        match readBoolean? v with
        | some b => .boolean b
        | none => .other (.typed v d)
      else
        match Numeric.read? d v with
        | some (some n) => .numeric n
        | _ => .other (.typed v d) := rfl

theorem readBoolean?_eq_some_iff {v : String} {b : Bool} :
    readBoolean? v = some b ↔ Literal.DenotesBoolean (.typed v (.xsd "boolean")) b := by
  constructor
  · intro h
    refine .typed rfl ?_
    unfold readBoolean? at h
    split at h
    · next hv =>
      cases h
      obtain rfl | rfl := hv <;> decide
    split at h
    · next hv =>
      cases h
      obtain rfl | rfl := hv <;> decide
    · cases h
  · rintro ⟨-, h⟩
    simp only [List.mem_cons, Prod.mk.injEq, List.not_mem_nil, or_false] at h
    obtain ⟨rfl, rfl⟩ | ⟨rfl, rfl⟩ | ⟨rfl, rfl⟩ | ⟨rfl, rfl⟩ := h <;> decide

/-- A valid literal of `xsd:boolean` is read as what it denotes. -/
theorem ofLiteral_of_denotesBoolean {b : Bool} (h : l.DenotesBoolean b) : ofLiteral l = .boolean b := by
  obtain ⟨rfl, hv⟩ := h
  rw [ofLiteral_typed, if_neg (by decide), if_pos rfl, readBoolean?_eq_some_iff.mpr (.typed rfl hv)]

/-- A literal is read as a number if its datatype says so. -/
theorem ofLiteral_eq_numeric_iff_read? :
    ofLiteral l = .numeric n ↔ ∃ v d, l = .typed v d ∧ Numeric.read? d v = some (some n) := by
  constructor
  · intro h
    cases l with
    | simple v => cases h
    | tagged v language => cases h
    | typed v d =>
      refine ⟨v, d, rfl, ?_⟩
      rw [ofLiteral_typed] at h
      split at h
      · cases h
      split at h
      · split at h <;> cases h
      split at h
      · next hread =>
        cases h
        exact hread
      · cases h
  · rintro ⟨v, d, rfl, h⟩
    exact ofLiteral_of_numeric h

/-- **A literal is read as a number exactly if it denotes one or is taken for one**, and then as the number
that stands for it. -/
theorem ofLiteral_eq_numeric_iff :
    ofLiteral l = .numeric n ↔ ∃ x, (l.DenotesNumber x ∨ l.Misread x) ∧ n.StandsFor x := by
  rw [ofLiteral_eq_numeric_iff_read?]
  constructor
  · rintro ⟨v, d, rfl, h⟩
    obtain ⟨name, t, rfl, ht⟩ :=
      Numeric.exists_ofName?_of_isNumericDatatype (Numeric.isNumericDatatype_of_read? h)
    obtain ⟨x, hx, hn⟩ := (Numeric.read?_xsd_eq_some_iff ht).mp h
    exact ⟨x, hx.imp (.typed rfl ht) (.typed rfl ht), hn⟩
  · rintro ⟨x, ⟨rfl, ht, h⟩ | ⟨rfl, ht, h⟩, hn⟩
    · exact ⟨_, _, rfl, (Numeric.read?_xsd_eq_some_iff ht).mpr ⟨x, .inl h, hn⟩⟩
    · exact ⟨_, _, rfl, (Numeric.read?_xsd_eq_some_iff ht).mpr ⟨x, .inr h, hn⟩⟩

/-- A literal that is read as no string, truth value or number is kept as it is. -/
theorem ofLiteral_typed_eq_other {v : String} {d : Iri} (hstring : d ≠ .xsd "string")
    (hboolean : d ≠ .xsd "boolean") (h : ∀ n, ofLiteral (.typed v d) ≠ .numeric n) :
    ofLiteral (.typed v d) = .other (.typed v d) := by
  rw [ofLiteral_typed, if_neg hstring, if_neg hboolean] at h ⊢
  split
  · next n hread =>
    rw [hread] at h
    exact absurd rfl (h n)
  · rfl

theorem ofLiteral_eq_other (hd : Numeric.isNumericDatatype l.datatype) (h : ∀ n, ofLiteral l ≠ .numeric n) :
    ofLiteral l = .other l := by
  obtain ⟨hstring, hboolean, htagged⟩ := Numeric.ne_of_isNumericDatatype hd
  cases l with
  | simple v => exact absurd rfl hstring
  | tagged v language => exact absurd rfl htagged
  | typed v d => exact ofLiteral_typed_eq_other hstring hboolean h

end Value

theorem Term.isNumeric_iff {t : Term} : t.isNumeric ↔ ∃ n, Value.ofTerm t = .numeric n := by
  unfold isNumeric
  split
  · next n hn => exact iff_of_true rfl ⟨n, hn⟩
  · next hn => exact iff_of_false nofun fun ⟨n, h⟩ => hn n h

namespace Eval

variable {m : Eval Term} {t : Term} {n : Numeric} {before after : Scopes}

/-- An operand is a number exactly if its term is read as that number. -/
theorem run_numeric_eq_some_iff (hm : m.run before = (some t, after)) :
    (numeric m).run before = (some n, after) ↔ Value.ofTerm t = .numeric n := by
  rw [numeric, run_bind_of_run (run_value_of_run hm)]
  split
  · next i hi =>
    rw [hi, Value.numeric.injEq]
    exact ⟨fun h => Option.some.inj (Prod.mk.inj h).1, fun h => by rw [h]; rfl⟩
  · next hnone =>
    exact iff_of_false (fun h => nomatch (Prod.mk.inj h).1) fun h => hnone n h

end Eval

/-- **Which literals are numbers.**  A literal is read as a number exactly if it is valid for its datatype or
misread, and then as the number for what it denotes or is taken for.  What is misread is not valid: only
numerals outside the range of a datatype derived from `xsd:integer`, and the names that floats and doubles
are too loose on.  Any other literal of a numeric datatype is kept as it is.  An operand is a number for
arithmetic, and for `ISNUMERIC`, exactly if its literal is read as one. -/
theorem Literal.numeric_iff_denotes_or_misread (l : Literal) :
    (∀ n, Value.ofLiteral l = .numeric n ↔ ∃ x, (l.DenotesNumber x ∨ l.Misread x) ∧ n.StandsFor x) ∧
    (∀ x y, l.Misread x → ¬l.DenotesNumber y) ∧
    (∀ x y, l.DenotesNumber x → l.DenotesNumber y → x = y) ∧
    (Numeric.isNumericDatatype l.datatype → (∀ x, ¬l.DenotesNumber x ∧ ¬l.Misread x) →
      Value.ofLiteral l = .other l) ∧
    ∀ {m : Eval Term} {before after : Scopes}, m.run before = (some (.literal l), after) →
      (∀ n, (Eval.numeric m).run before = (some n, after) ↔ Value.ofLiteral l = .numeric n) ∧
      ∀ base scope, ∃ b, (Builtin.apply base scope .isNumeric [m]).run before = (some (.ofBool b), after) ∧
        (b ↔ ∃ n, Value.ofLiteral l = .numeric n) := by
  refine ⟨fun n => Value.ofLiteral_eq_numeric_iff, fun x y h => h.not_denotesNumber,
    fun x y h => h.unique, fun hd h => ?_, fun hm => ⟨fun n => Eval.run_numeric_eq_some_iff hm,
      fun base scope => ⟨_, Eval.run_bind_of_run hm _, Term.isNumeric_iff⟩⟩⟩
  refine Value.ofLiteral_eq_other hd fun n hn => ?_
  obtain ⟨x, hx | hx, -⟩ := Value.ofLiteral_eq_numeric_iff.mp hn
  · exact (h x).1 hx
  · exact (h x).2 hx

/-- The byte "-128" is the number that it denotes. -/
theorem Literal.leastByte_numeric :
    Literal.DenotesNumber (.typed "-128" (.xsd "byte")) (.exact .integer (-128 : Int)) ∧
      (Eval.numeric (pure (.literal (.typed "-128" (.xsd "byte"))))).run .empty =
        (some (.integer ⟨-128, by decide, by decide⟩), .empty) := by
  have hspells : ExactKind.integer.Spells "-128".toList (-128 : Int) :=
    readInteger?_eq_some_iff.mp (by decide)
  have hvalid : Literal.DenotesNumber (.typed "-128" (.xsd "byte")) (.exact .integer (-128 : Int)) :=
    .typed rfl rfl (.integer hspells ⟨by decide, by decide⟩)
  obtain ⟨hnumber, -, -, -, heval⟩ :=
    Literal.numeric_iff_denotes_or_misread (.typed "-128" (.xsd "byte"))
  exact ⟨hvalid, ((heval rfl).1 _).mpr ((hnumber _).mpr ⟨_, .inl hvalid, .exact (.integer _)⟩)⟩

/-- A byte beyond the range of bytes is misread. -/
theorem Literal.greatByte_misread :
    Literal.Misread (.typed "300" (.xsd "byte")) (.exact .integer (300 : Int)) := by
  have hspells : ExactKind.integer.Spells "300".toList (300 : Int) := readInteger?_eq_some_iff.mp (by decide)
  exact .typed rfl rfl (.integer hspells fun h => absurd h.2 (by decide))

/-- The byte "300" and the double "infinity" are read as numbers, but neither of them is valid. -/
theorem Literal.invalid_read_as_numbers :
    (∃ n, Value.ofLiteral (.typed "300" (.xsd "byte")) = .numeric n) ∧
      (∀ x, ¬Literal.DenotesNumber (.typed "300" (.xsd "byte")) x) ∧
      (∃ n, Value.ofLiteral (.typed "infinity" (.xsd "double")) = .numeric n) ∧
      ∀ x, ¬Literal.DenotesNumber (.typed "infinity" (.xsd "double")) x := by
  have hname : Misnamed "infinity".toList false .infinite := by
    refine ⟨⟨_, .bare, .infinity (by decide)⟩, fun h => ?_⟩
    generalize htext : "infinity".toList = text at h
    cases h with
    | infinity hs => cases hs <;> exact absurd htext (by decide)
  have hdouble : Literal.Misread (.typed "infinity" (.xsd "double")) (.floating .double false .infinite) :=
    .typed rfl rfl (.floating hname)
  exact ⟨⟨_, rfl⟩, fun _ => greatByte_misread.not_denotesNumber, ⟨_, rfl⟩, fun _ => hdouble.not_denotesNumber⟩

end TripleLoom
