import TripleLoom.Proofs.Numeric.Nearest
import TripleLoom.Proofs.Numeric.Numerals

/-!
# TripleLoom.Proofs.Numeric.FloatingNumerals — what the numerals of floats and doubles stand for

The numeral of a float or double is an optional sign in front of that of a decimal, with a signed exponent
behind it or none; and there are the names `INF`, with or without a sign, and `NaN` (`SpellsFloating`).  The
reader takes a numeral for the pattern nearest to its number.  It is loose on names: it takes them in any
case of letters, `NaN` with a sign too, and `infinity` as well (`Misnamed`).  Apart from that it reads what
is valid and nothing else (`BinaryFormat.read?_eq_some_iff`).
-/

namespace TripleLoom

/-! ### Numerals with an exponent -/

/-- The exponents behind a numeral, and their values. -/
inductive SpellsExponent : List Char → Int → Prop where
  | none : SpellsExponent [] 0
  | some {c : Char} {s : List Char} {n : Int} (hc : c = 'e' ∨ c = 'E')
      (h : ExactKind.integer.Spells s n) : SpellsExponent (c :: s) n

/-- The numerals without a sign that may have an exponent, and their values. -/
inductive SpellsScientific : List Char → ℚ → Prop where
  | scaled {s e : List Char} {x : ℚ} {n : Int} (h : ExactKind.decimal.SpellsUnsigned s x)
      (he : SpellsExponent e n) : SpellsScientific (s ++ e) (x * 10 ^ n)

theorem SpellsExponent.head {s : List Char} {n : Int} (h : SpellsExponent s n) :
    ∀ c ∈ s.head?, ¬c.isDigit ∧ c ≠ '.' := by
  cases h with
  | none => exact fun c hc => nomatch hc
  | some hc _ =>
    rintro _ ⟨⟩
    obtain rfl | rfl := hc <;> decide

namespace Scientific

theorem readExponent?_eq_some_iff {s : List Char} {n : Int} :
    readExponent? s = some n ↔ SpellsExponent s n := by
  cases s with
  | nil =>
    constructor
    · rintro ⟨⟩
      exact .none
    · rintro ⟨⟩
      rfl
  | cons c s =>
    rw [readExponent?, Option.ite_none_right_eq_some, readInteger?_eq_some_iff]
    constructor
    · rintro ⟨hc, h⟩
      exact .some hc h
    · intro h
      cases h with
      | some hc h => exact ⟨hc, h⟩

/-- A text begins with digits and perhaps a point with more digits behind it. -/
theorem digits_front (s : List Char) :
    (∃ whole rest, (∀ c ∈ whole, c.isDigit) ∧ (∀ c ∈ rest.head?, ¬c.isDigit ∧ c ≠ '.') ∧
      s = whole ++ rest) ∨
    ∃ whole fraction rest, (∀ c ∈ whole, c.isDigit) ∧ (∀ c ∈ fraction, c.isDigit) ∧
      (∀ c ∈ rest.head?, ¬c.isDigit) ∧ s = whole ++ '.' :: (fraction ++ rest) := by
  have hsplit (t : List Char) : ∃ ds rest, (∀ c ∈ ds, c.isDigit) ∧ (∀ c ∈ rest.head?, ¬c.isDigit) ∧
      t = ds ++ rest := by
    refine ⟨t.takeWhile Char.isDigit, t.dropWhile Char.isDigit, fun c hc => List.mem_takeWhile_imp hc,
      fun c hc => ?_, List.takeWhile_append_dropWhile.symm⟩
    have hne : t.dropWhile Char.isDigit ≠ [] := by rintro hnil; rw [hnil] at hc; cases hc
    have hhead := List.head_dropWhile_not Char.isDigit hne
    rw [List.head?_eq_some_head hne] at hc
    cases hc
    simp [hhead]
  obtain ⟨whole, rest, hwhole, hrest, rfl⟩ := hsplit s
  cases rest with
  | nil => exact .inl ⟨whole, [], hwhole, by simp, rfl⟩
  | cons c rest =>
    by_cases hc : c = '.'
    · obtain ⟨fraction, behind, hfraction, hbehind, rfl⟩ := hsplit rest
      exact .inr ⟨whole, fraction, behind, hwhole, hfraction, hbehind, by rw [hc]⟩
    · refine .inl ⟨whole, c :: rest, hwhole, fun d hd => ⟨hrest d hd, ?_⟩, rfl⟩
      cases hd
      exact hc

theorem takeWhile_digits {ds rest : List Char} (hds : ∀ c ∈ ds, c.isDigit)
    (hrest : ∀ c ∈ rest.head?, ¬c.isDigit) :
    (ds ++ rest).takeWhile Char.isDigit = ds ∧ (ds ++ rest).dropWhile Char.isDigit = rest := by
  rw [List.takeWhile_append_of_pos hds, List.dropWhile_append_of_pos hds]
  cases rest with
  | nil => simp
  | cons c rest =>
    have hc := hrest c rfl
    rw [List.takeWhile_cons_of_neg hc, List.dropWhile_cons_of_neg hc, List.append_nil]
    exact ⟨rfl, rfl⟩

/-- Digits with no point behind them are read as a number, with the exponent that follows. -/
theorem read?_whole {whole rest : List Char} (hwhole : ∀ c ∈ whole, c.isDigit)
    (hrest : ∀ c ∈ rest.head?, ¬c.isDigit ∧ c ≠ '.') :
    read? (whole ++ rest) =
      if whole = [] then none
      else (readExponent? rest).map fun n => ⟨Nat.ofDigitChars 10 whole 0, n⟩ := by
  obtain ⟨htake, hdrop⟩ := takeWhile_digits hwhole fun c hc => (hrest c hc).1
  unfold read?
  rw [htake, hdrop]
  cases rest with
  | nil => cases whole <;> simp [Option.map_eq_bind]
  | cons c rest =>
    have hc : c ≠ '.' := (hrest c rfl).2
    cases whole <;> simp [hc, Option.map_eq_bind]

/-- Digits with a point are read as the number of all of them, with the exponent that follows lowered by the
number of those behind the point. -/
theorem read?_pointed {whole fraction rest : List Char} (hwhole : ∀ c ∈ whole, c.isDigit)
    (hfraction : ∀ c ∈ fraction, c.isDigit) (hrest : ∀ c ∈ rest.head?, ¬c.isDigit) :
    read? (whole ++ '.' :: (fraction ++ rest)) =
      if whole = [] ∧ fraction = [] then none
      else (readExponent? rest).map fun n =>
        ⟨Nat.ofDigitChars 10 (whole ++ fraction) 0, n - fraction.length⟩ := by
  have hpoint : ∀ c ∈ ('.' :: (fraction ++ rest)).head?, ¬c.isDigit := by simp
  obtain ⟨htake, hdrop⟩ := takeWhile_digits hwhole hpoint
  obtain ⟨htake', hdrop'⟩ := takeWhile_digits hfraction hrest
  unfold read?
  rw [htake, hdrop]
  simp only [htake', hdrop']
  cases whole <;> cases fraction <;> simp [Option.map_eq_bind]

/-- The places behind the point divide the number of the digits. -/
theorem value_mk (digits : Nat) (n : Int) (places : Nat) :
    value ⟨digits, n - places⟩ = (digits / 10 ^ places : ℚ) * 10 ^ n := by
  rw [value, zpow_sub₀ (by norm_num), zpow_natCast]
  ring

/-- The numerals that are read are those with a value, and they are read as one of that value. -/
theorem spells_iff {s : List Char} {x : ℚ} :
    SpellsScientific s x ↔ ∃ y, read? s = some y ∧ y.value = x := by
  constructor
  · rintro ⟨h, he⟩
    have hexponent := readExponent?_eq_some_iff.mpr he
    cases h with
    | @digits _ whole hne hwhole =>
      refine ⟨⟨Nat.ofDigitChars 10 _ 0, _⟩, ?_, rfl⟩
      rw [read?_whole hwhole he.head, if_neg hne, hexponent, Option.map_some]
    | @pointed whole fraction hne hwhole hfraction =>
      refine ⟨_, ?_, value_mk _ _ fraction.length⟩
      rw [List.append_assoc, List.cons_append, read?_pointed hwhole hfraction fun c hc => (he.head c hc).1,
        if_neg (not_and_or.mpr hne), hexponent, Option.map_some]
  · rintro ⟨y, h, rfl⟩
    obtain ⟨whole, rest, hwhole, hrest, rfl⟩ | ⟨whole, fraction, rest, hwhole, hfraction, hrest, rfl⟩ :=
      digits_front s
    · rw [read?_whole hwhole hrest, Option.ite_none_left_eq_some, Option.map_eq_some_iff] at h
      obtain ⟨hne, n, hn, rfl⟩ := h
      exact .scaled (.digits hne hwhole) (readExponent?_eq_some_iff.mp hn)
    · rw [read?_pointed hwhole hfraction hrest, Option.ite_none_left_eq_some, Option.map_eq_some_iff,
        not_and_or] at h
      obtain ⟨hne, n, hn, rfl⟩ := h
      rw [value_mk, ← List.cons_append, ← List.append_assoc]
      exact .scaled (.pointed hne hwhole hfraction) (readExponent?_eq_some_iff.mp hn)

end Scientific

theorem SpellsScientific.unique {s : List Char} {x y : ℚ} (h : SpellsScientific s x)
    (h' : SpellsScientific s y) : x = y := by
  obtain ⟨a, ha, rfl⟩ := Scientific.spells_iff.mp h
  obtain ⟨b, hb, rfl⟩ := Scientific.spells_iff.mp h'
  rw [Option.some.inj (ha.symm.trans hb)]

namespace ExactKind

variable {k : ExactKind} {s : List Char} {x y : ℚ}

/-- The numerals of integers and decimals are such without an exponent. -/
theorem SpellsUnsigned.spellsScientific (h : k.SpellsUnsigned s x) : SpellsScientific s x := by
  have hdecimal : decimal.SpellsUnsigned s x := by
    cases h with
    | digits hne hdigits => exact .digits hne hdigits
    | pointed hne hwhole hfraction => exact .pointed hne hwhole hfraction
  have hnone := SpellsScientific.scaled hdecimal .none
  rwa [List.append_nil, zpow_zero, mul_one] at hnone

/-- A numeral spells one number. -/
theorem Spells.unique (h : k.Spells s x) (h' : k.Spells s y) : x = y := by
  obtain ⟨a, ha, rfl⟩ := spells_iff_splitSign.mp h
  obtain ⟨b, hb, rfl⟩ := spells_iff_splitSign.mp h'
  rw [ha.spellsScientific.unique hb.spellsScientific]

end ExactKind

/-! ### Names and signs -/

/-- What the numerals of floats and doubles spell without their sign. -/
inductive Magnitude where
  | finite (x : ℚ)
  | infinite
  | notANumber

/-- A text with a sign in front or none, and whether that is a minus. -/
inductive Signed (rest : List Char) : List Char → Bool → Prop where
  | bare : Signed rest rest false
  | plus : Signed rest ('+' :: rest) false
  | minus : Signed rest ('-' :: rest) true

/-- The valid numerals of floats and doubles: their sign and the rest of what they spell. -/
inductive SpellsFloating : List Char → Bool → Magnitude → Prop where
  | numeral {rest s : List Char} {negative : Bool} {x : ℚ} (hs : Signed rest s negative)
      (h : SpellsScientific rest x) : SpellsFloating s negative (.finite x)
  | infinity {s : List Char} {negative : Bool} (hs : Signed ['I', 'N', 'F'] s negative) :
      SpellsFloating s negative .infinite
  | notANumber : SpellsFloating ['N', 'a', 'N'] false .notANumber

/-- The names of infinity and of "not a number" in any case of letters. -/
inductive Names : List Char → Magnitude → Prop where
  | inf {s : List Char} (h : String.ofList (s.map Char.toLower) = "inf") : Names s .infinite
  | infinity {s : List Char} (h : String.ofList (s.map Char.toLower) = "infinity") : Names s .infinite
  | notANumber {s : List Char} (h : String.ofList (s.map Char.toLower) = "nan") : Names s .notANumber

/-- Whether a text is a name with a sign or none, but no valid numeral. -/
def Misnamed (s : List Char) (negative : Bool) (m : Magnitude) : Prop :=
  (∃ rest, Signed rest s negative ∧ Names rest m) ∧ ¬SpellsFloating s negative m

/-- What is read behind a sign or none: a number or a name. -/
inductive Readable : List Char → Magnitude → Prop where
  | number {s : List Char} {x : ℚ} (h : SpellsScientific s x) : Readable s (.finite x)
  | name {s : List Char} {m : Magnitude} (h : Names s m) : Readable s m

theorem signed_splitSign (s : List Char) : Signed (splitSign s).2 s (splitSign s).1 := by
  unfold splitSign
  split
  · exact .plus
  · exact .minus
  · exact .bare

theorem Signed.splitSign_eq {rest s : List Char} {negative : Bool} (h : Signed rest s negative)
    (hrest : ∀ c ∈ rest.head?, c ≠ '+' ∧ c ≠ '-') : splitSign s = (negative, rest) := by
  cases h with
  | bare =>
    unfold splitSign
    split
    · exact absurd rfl (hrest '+' rfl).1
    · exact absurd rfl (hrest '-' rfl).2
    · rfl
  | plus => rfl
  | minus => rfl

/-- The characters in front of the letters are their own small letters. -/
theorem toLower_eq_self {c : Char} (h : c.toNat < 65) : c.toLower = c := by
  unfold Char.toLower
  split
  · next hupper =>
    have hle : 65 ≤ c.toNat := hupper.1
    omega
  · rfl

/-- The first character of a name stands behind all digits and signs. -/
theorem Names.head {s : List Char} {m : Magnitude} (h : Names s m) :
    ∃ c rest, s = c :: rest ∧ 65 ≤ c.toNat := by
  have hfirst (c : Char) (rest : List Char) (hc : 65 ≤ c.toNat)
      (hname : String.ofList (s.map Char.toLower) = String.ofList (c :: rest)) :
      ∃ c rest, s = c :: rest ∧ 65 ≤ c.toNat := by
    obtain ⟨d, rest, rfl, rfl, -⟩ := List.map_eq_cons_iff.mp (String.ofList_injective hname)
    refine ⟨d, rest, rfl, not_lt.mp fun hlt => ?_⟩
    rw [toLower_eq_self hlt] at hc
    omega
  cases h with
  | inf h => exact hfirst 'i' ['n', 'f'] (by decide) h
  | infinity h => exact hfirst 'i' ['n', 'f', 'i', 'n', 'i', 't', 'y'] (by decide) h
  | notANumber h => exact hfirst 'n' ['a', 'n'] (by decide) h

/-- The first character of a number stands before all letters, and is no sign. -/
theorem SpellsScientific.head {s : List Char} {x : ℚ} (h : SpellsScientific s x) :
    ∃ c rest, s = c :: rest ∧ c.toNat < 65 ∧ c ≠ '+' ∧ c ≠ '-' := by
  have hdigit {c : Char} (hc : c.isDigit) : c.toNat < 65 ∧ c ≠ '+' ∧ c ≠ '-' := by
    have hnine : c.toNat ≤ 57 := (Char.isDigit_iff_toNat.mp hc).2
    refine ⟨by omega, ?_, ?_⟩ <;> rintro rfl <;> cases hc
  obtain ⟨h, -⟩ := h
  cases h with
  | @digits _ whole hne hwhole =>
    obtain ⟨c, rest, rfl⟩ := List.exists_cons_of_ne_nil hne
    exact ⟨c, _, rfl, hdigit (hwhole c List.mem_cons_self)⟩
  | @pointed whole _ _ hwhole _ =>
    cases whole with
    | nil => exact ⟨'.', _, rfl, by decide⟩
    | cons c _ => exact ⟨c, _, rfl, hdigit (hwhole c List.mem_cons_self)⟩

/-- A name is no number. -/
theorem Names.not_spellsScientific {s : List Char} {m : Magnitude} {x : ℚ} (h : Names s m) :
    ¬SpellsScientific s x := by
  intro hx
  obtain ⟨c, rest, rfl, hletter⟩ := h.head
  obtain ⟨_, _, ⟨⟩, hless, -⟩ := hx.head
  omega

theorem Names.unique {s : List Char} {m m' : Magnitude} (h : Names s m) (h' : Names s m') : m = m' := by
  cases h with
  | inf h | infinity h | notANumber h =>
    cases h' with
    | inf h' | infinity h' | notANumber h' => first | rfl | exact absurd (h.symm.trans h') (by decide)

theorem Readable.unique {s : List Char} {m m' : Magnitude} (h : Readable s m) (h' : Readable s m') :
    m = m' := by
  cases h with
  | number h =>
    cases h' with
    | number h' => rw [h.unique h']
    | name h' => exact absurd h h'.not_spellsScientific
  | name h =>
    cases h' with
    | number h' => exact absurd h' h.not_spellsScientific
    | name h' => exact h.unique h'

/-- Nothing is split off what is read behind a sign. -/
theorem Signed.splitSign_of_readable {s rest : List Char} {negative : Bool} {m : Magnitude}
    (hs : Signed rest s negative) (h : Readable rest m) : splitSign s = (negative, rest) := by
  refine hs.splitSign_eq fun c hc => ?_
  obtain hx | hname := h
  · obtain ⟨_, _, rfl, -, hsign⟩ := hx.head
    cases hc
    exact hsign
  · obtain ⟨_, _, rfl, hletter⟩ := hname.head
    cases hc
    constructor <;> rintro rfl <;> exact absurd hletter (by decide)

/-- A text has one sign, and one thing is read behind it. -/
theorem Signed.unique {s rest rest' : List Char} {negative negative' : Bool} {m m' : Magnitude}
    (hs : Signed rest s negative) (h : Readable rest m) (hs' : Signed rest' s negative')
    (h' : Readable rest' m') : negative = negative' ∧ m = m' := by
  have hsplit := (hs.splitSign_of_readable h).symm.trans (hs'.splitSign_of_readable h')
  obtain ⟨hnegative, rfl⟩ := Prod.mk.inj hsplit
  exact ⟨hnegative, h.unique h'⟩

/-- A valid numeral is a number or a name behind a sign or none. -/
theorem SpellsFloating.readable {s : List Char} {negative : Bool} {m : Magnitude}
    (h : SpellsFloating s negative m) : ∃ rest, Signed rest s negative ∧ Readable rest m := by
  cases h with
  | numeral hs hx => exact ⟨_, hs, .number hx⟩
  | infinity hs => exact ⟨_, hs, .name (.inf (by decide))⟩
  | notANumber => exact ⟨_, .bare, .name (.notANumber (by decide))⟩

/-- What is misnamed is no valid numeral at all. -/
theorem Misnamed.not_spellsFloating {s : List Char} {negative negative' : Bool} {m m' : Magnitude}
    (h : Misnamed s negative m) : ¬SpellsFloating s negative' m' := by
  intro hvalid
  obtain ⟨⟨rest, hs, hname⟩, hinvalid⟩ := h
  obtain ⟨rest', hs', hreadable⟩ := hvalid.readable
  obtain ⟨rfl, rfl⟩ := hs.unique (.name hname) hs' hreadable
  exact hinvalid hvalid

theorem SpellsFloating.unique {s : List Char} {negative negative' : Bool} {m m' : Magnitude}
    (h : SpellsFloating s negative m) (h' : SpellsFloating s negative' m') :
    negative = negative' ∧ m = m' := by
  obtain ⟨rest, hs, hm⟩ := h.readable
  obtain ⟨rest', hs', hm'⟩ := h'.readable
  exact hs.unique hm hs' hm'

namespace BinaryFormat

variable {f : BinaryFormat}

variable (f) in
/-- The pattern of what a numeral spells without its sign: the nearest one of a number. -/
inductive HasPattern : Magnitude → Nat → Prop where
  | finite {x : ℚ} {p : Nat} (h : f.IsNearest x p) : HasPattern (.finite x) p
  | infinite : HasPattern .infinite f.infinity
  | notANumber : HasPattern .notANumber f.notANumber

/-- A number is read as the pattern nearest to it. -/
theorem map_toBinary_eq_some_iff (hf : f = single ∨ f = double) {s : List Char} {p : Nat} :
    (Scientific.read? s).map (Scientific.toBinary f) = some p ↔
      ∃ x, SpellsScientific s x ∧ f.HasPattern (.finite x) p := by
  rw [Option.map_eq_some_iff]
  constructor
  · rintro ⟨y, hread, rfl⟩
    exact ⟨y.value, Scientific.spells_iff.mpr ⟨y, hread, rfl⟩, .finite (Scientific.isNearest_toBinary hf y)⟩
  · rintro ⟨_, hspells, ⟨hnearest⟩⟩
    obtain ⟨y, hread, rfl⟩ := Scientific.spells_iff.mp hspells
    exact ⟨y, hread, (Scientific.isNearest_toBinary hf y).unique hnearest⟩

variable (f) in
/-- The pattern with a sign. -/
def withSign (negative : Bool) (pattern : Nat) : Nat := if negative then pattern + f.signBit else pattern

variable (f) in
/-- The pattern of a text without a sign. -/
def readMagnitude? (s : List Char) : Option Nat :=
  match String.ofList (s.map Char.toLower) with
  | "inf" | "infinity" => some f.infinity
  | "nan" => some f.notANumber
  | _ => (Scientific.read? s).map (Scientific.toBinary f)

theorem read?_eq (s : String) :
    f.read? s = (f.readMagnitude? (splitSign s.toList).2).map (f.withSign (splitSign s.toList).1) := by
  rw [read?, readMagnitude?]
  generalize splitSign s.toList = parts
  obtain ⟨negative, rest⟩ := parts
  dsimp only
  generalize String.ofList (rest.map Char.toLower) = name
  split
  · rfl
  · rfl
  · rfl
  · simp [Option.map_eq_bind, Option.bind_assoc, withSign]

/-- A name is read as its pattern, and any other text as a number. -/
theorem readMagnitude?_eq_some_iff (hf : f = single ∨ f = double) {s : List Char} {p : Nat} :
    f.readMagnitude? s = some p ↔ ∃ m, Readable s m ∧ f.HasPattern m p := by
  have hnamed {m : Magnitude} (h : Names s m) :
      (∃ m, Readable s m ∧ f.HasPattern m p) ↔ f.HasPattern m p := by
    constructor
    · rintro ⟨m', hx | h', hp⟩
      · exact absurd hx h.not_spellsScientific
      · rwa [h.unique h']
    · exact fun hp => ⟨m, .name h, hp⟩
  unfold readMagnitude?
  split
  · next h =>
    rw [hnamed (.inf h), Option.some.injEq]
    exact ⟨fun hp => hp ▸ .infinite, fun hp => by cases hp; rfl⟩
  · next h =>
    rw [hnamed (.infinity h), Option.some.injEq]
    exact ⟨fun hp => hp ▸ .infinite, fun hp => by cases hp; rfl⟩
  · next h =>
    rw [hnamed (.notANumber h), Option.some.injEq]
    exact ⟨fun hp => hp ▸ .notANumber, fun hp => by cases hp; rfl⟩
  · next hinf hinfinity hnan =>
    rw [map_toBinary_eq_some_iff hf]
    constructor
    · rintro ⟨x, hx, hp⟩
      exact ⟨_, .number hx, hp⟩
    · rintro ⟨_, hx | h, hp⟩
      · exact ⟨_, hx, hp⟩
      · cases h with
        | inf h => exact absurd h hinf
        | infinity h => exact absurd h hinfinity
        | notANumber h => exact absurd h hnan

/-- A text is read exactly if it is a number or a name behind a sign or none. -/
theorem read?_eq_some_iff_signed (hf : f = single ∨ f = double) {s : String} {p : Nat} :
    f.read? s = some p ↔ ∃ rest negative m q, Signed rest s.toList negative ∧ Readable rest m ∧
      f.HasPattern m q ∧ p = f.withSign negative q := by
  rw [read?_eq, Option.map_eq_some_iff]
  constructor
  · rintro ⟨q, hq, rfl⟩
    obtain ⟨m, hm, hpattern⟩ := (readMagnitude?_eq_some_iff hf).mp hq
    exact ⟨_, _, m, q, signed_splitSign s.toList, hm, hpattern, rfl⟩
  · rintro ⟨rest, negative, m, q, hs, hm, hpattern, rfl⟩
    rw [hs.splitSign_of_readable hm]
    exact ⟨q, (readMagnitude?_eq_some_iff hf).mpr ⟨m, hm, hpattern⟩, rfl⟩

/-- A text is read exactly if it is a valid numeral or misnamed. -/
theorem read?_eq_some_iff (hf : f = single ∨ f = double) {s : String} {p : Nat} :
    f.read? s = some p ↔ ∃ negative m q, (SpellsFloating s.toList negative m ∨ Misnamed s.toList negative m) ∧
      f.HasPattern m q ∧ p = f.withSign negative q := by
  rw [read?_eq_some_iff_signed hf]
  constructor
  · rintro ⟨rest, negative, m, q, hs, hx | hname, hpattern, rfl⟩
    · exact ⟨negative, _, q, .inl (.numeral hs hx), hpattern, rfl⟩
    · by_cases hvalid : SpellsFloating s.toList negative m
      · exact ⟨negative, m, q, .inl hvalid, hpattern, rfl⟩
      · exact ⟨negative, m, q, .inr ⟨⟨rest, hs, hname⟩, hvalid⟩, hpattern, rfl⟩
  · rintro ⟨negative, m, q, hvalid | ⟨⟨rest, hs, hname⟩, -⟩, hpattern, rfl⟩
    · obtain ⟨rest, hs, hm⟩ := hvalid.readable
      exact ⟨rest, negative, m, q, hs, hm, hpattern, rfl⟩
    · exact ⟨rest, negative, m, q, hs, .name hname, hpattern, rfl⟩

/-! ### Signs -/

variable (f) in
/-- The pattern of what a numeral spells. There is only one of "not a number". -/
inductive Encodes (negative : Bool) : Magnitude → Nat → Prop where
  | finite {x : ℚ} {p : Nat} (h : f.IsNearest x p) : Encodes negative (.finite x) (f.withSign negative p)
  | infinite : Encodes negative .infinite (f.withSign negative f.infinity)
  | notANumber : Encodes negative .notANumber f.notANumber

theorem Encodes.unique {negative : Bool} {m : Magnitude} {bits bits' : Nat}
    (h : f.Encodes negative m bits) (h' : f.Encodes negative m bits') : bits = bits' := by
  cases h with
  | finite h =>
    cases h' with
    | finite h' => rw [h.unique h']
  | infinite =>
    cases h'
    rfl
  | notANumber =>
    cases h'
    rfl

end BinaryFormat

end TripleLoom
