import TripleLoom.Proofs.Expression.Strings

/-!
# TripleLoom.Proofs.Expression.UriEncoding — `ENCODE_FOR_URI` as a percent-encoding

The percent-encodings of some bytes are made of unreserved characters, each of which stands for its ASCII
code, and of percent signs with two hexadecimal digits (`Percent.Spells`).  `ENCODE_FOR_URI` gives such an
encoding of the UTF-8 bytes of a string, and no other bytes are spelled by it, so nothing is lost.  It goes
byte by byte: strings may be put together before or after they are encoded (`Expression.encodes_for_uri`).
-/

namespace TripleLoom

/-! ### Bytes -/

namespace Percent

/-- The hexadecimal digits, with capital letters, by their values. -/
def hexDigits : List Char :=
  ['0', '1', '2', '3', '4', '5', '6', '7', '8', '9', 'A', 'B', 'C', 'D', 'E', 'F']

/-- Whether a character is unreserved in a URI. -/
def Unreserved (c : Char) : Prop := c.isAlphanum ∨ c ∈ ['-', '.', '_', '~']

instance (c : Char) : Decidable (Unreserved c) := inferInstanceAs (Decidable (_ ∨ _))

/-- Whether some characters are a percent-encoding of some bytes. -/
inductive Spells : List Char → List UInt8 → Prop where
  | nil : Spells [] []
  | unreserved {c : Char} {cs : List Char} {bytes : List UInt8} (hc : Unreserved c) (h : Spells cs bytes) :
    Spells (c :: cs) (UInt8.ofNat c.toNat :: bytes)
  | escaped {high low : Nat} {a b : Char} {cs : List Char} {bytes : List UInt8}
    (ha : hexDigits[high]? = some a) (hb : hexDigits[low]? = some b) (h : Spells cs bytes) :
    Spells ('%' :: a :: b :: cs) (UInt8.ofNat (16 * high + low) :: bytes)

variable {c : Char} {cs : List Char} {bytes : List UInt8} {n : Nat}

/-- What holds of the ASCII characters one by one holds of each. -/
theorem forall_ascii {P : Char → Prop} (h : ∀ n < 128, P (Char.ofNat n)) (hc : c.toNat < 128) : P c :=
  Char.ofNat_toNat c ▸ h c.toNat hc

theorem Unreserved.lt (h : Unreserved c) : c.toNat < 128 := by
  rcases h with h | h
  · simp only [Char.isAlphanum, Char.isAlpha, Char.isUpper, Char.isLower, Char.isDigit, Bool.or_eq_true,
      Bool.and_eq_true, decide_eq_true_eq, UInt32.le_iff_toNat_le] at h
    change ((65 ≤ c.toNat ∧ c.toNat ≤ 90) ∨ (97 ≤ c.toNat ∧ c.toNat ≤ 122)) ∨
      (48 ≤ c.toNat ∧ c.toNat ≤ 57) at h
    omega
  · simp only [List.mem_cons, List.not_mem_nil, or_false] at h
    rcases h with rfl | rfl | rfl | rfl <;> decide

theorem isUnreserved_iff (hc : c.toNat < 128) : isUnreserved (UInt8.ofNat c.toNat) ↔ Unreserved c :=
  forall_ascii (P := fun c => isUnreserved (UInt8.ofNat c.toNat) ↔ Unreserved c) (by decide) hc

theorem hexDigit_of_hexValue? (h : hexValue? c = some n) : n < 16 ∧ hexDigit n = c := by
  unfold hexValue? at h
  split at h
  · next hc =>
    obtain ⟨hlower, hupper⟩ : 48 ≤ c.toNat ∧ c.toNat ≤ 57 := hc
    cases h
    refine ⟨by omega, ?_⟩
    rw [hexDigit, if_pos (by omega), Nat.add_sub_cancel' hlower, Char.ofNat_toNat]
  split at h
  · next hc =>
    obtain ⟨hlower, hupper⟩ : 65 ≤ c.toNat ∧ c.toNat ≤ 70 := hc
    cases h
    refine ⟨by omega, ?_⟩
    rw [hexDigit, if_neg (by omega), Nat.add_sub_cancel' (by omega), Char.ofNat_toNat]
  · cases h

/-- The digits have their values. -/
theorem hexValue?_eq_some_iff : hexValue? c = some n ↔ hexDigits[n]? = some c := by
  have hdigits : ∀ n < 16, hexDigits[n]? = some (hexDigit n) := by decide
  constructor
  · intro h
    obtain ⟨hn, rfl⟩ := hexDigit_of_hexValue? h
    exact hdigits n hn
  · intro h
    have hn : n < 16 := (List.getElem?_eq_some_iff.mp h).1
    obtain rfl := Option.some.inj (h.symm.trans (hdigits n hn))
    exact hexValue?_hexDigit n hn

theorem spells_of_decode? (h : decode? cs = some bytes) : Spells cs bytes := by
  fun_induction decode? cs generalizing bytes with
  | case1 =>
    cases h
    exact .nil
  | case2 a b rest ih =>
    obtain ⟨high, ha, h⟩ := Option.bind_eq_some_iff.mp h
    obtain ⟨low, hb, h⟩ := Option.bind_eq_some_iff.mp h
    obtain ⟨bytes, hrest, h⟩ := Option.bind_eq_some_iff.mp h
    cases h
    exact .escaped (hexValue?_eq_some_iff.mp ha) (hexValue?_eq_some_iff.mp hb) (ih hrest)
  | case3 c rest hescape hc ih =>
    obtain ⟨bytes, hrest, h⟩ := Option.bind_eq_some_iff.mp h
    cases h
    exact .unreserved ((isUnreserved_iff hc.1).mp hc.2) (ih hrest)
  | case4 c rest hescape hc => cases h

theorem decode?_of_spells (h : Spells cs bytes) : decode? cs = some bytes := by
  induction h with
  | nil => rfl
  | unreserved hc h ih =>
    have hlt := hc.lt
    rw [decode?.eq_3]
    · rw [if_pos ⟨hlt, (isUnreserved_iff hlt).mpr hc⟩, ih]
      rfl
    · rintro a b rest rfl
      exact absurd hc (by decide)
  | escaped ha hb h ih =>
    rw [decode?, hexValue?_eq_some_iff.mpr ha, hexValue?_eq_some_iff.mpr hb, ih]
    rfl

/-- Characters are decoded exactly if they are a percent-encoding. -/
theorem decode?_eq_some_iff : decode? cs = some bytes ↔ Spells cs bytes :=
  ⟨spells_of_decode?, decode?_of_spells⟩

/-! ### Texts -/

theorem toList_loop (data : ByteArray) (i : Nat) (read : List UInt8) :
    ByteArray.toList.loop data i read = read.reverse ++ data.data.toList.drop i := by
  fun_induction ByteArray.toList.loop data i read with
  | case1 i read hi ih =>
    have hnext : data.data.toList.drop i = data.get! i :: data.data.toList.drop (i + 1) := by
      rw [List.drop_eq_getElem_cons (Array.length_toList ▸ hi), Array.getElem_toList]
      exact congrArg (· :: _) (getElem!_pos data.data i hi).symm
    rw [ih, hnext, List.reverse_cons, List.append_assoc, List.singleton_append]
  | case2 i read hi =>
    have hlength : data.data.toList.length ≤ i := by
      rw [Array.length_toList]
      exact Nat.le_of_not_lt hi
    rw [List.drop_eq_nil_of_le hlength, List.append_nil]

/-- The UTF-8 form of a text goes character by character. -/
theorem toUTF8_ofList (text : List Char) :
    (String.ofList text).toUTF8.toList = text.flatMap String.utf8EncodeChar := by
  show ByteArray.toList.loop (String.ofList text).toByteArray 0 [] = _
  rw [toList_loop, String.toByteArray_ofList, List.utf8Encode, List.data_toByteArray]
  rfl

theorem toUTF8_toList_injective {s t : String} (h : s.toUTF8.toList = t.toUTF8.toList) : s = t := by
  rw [← String.ofList_toList (s := s), ← String.ofList_toList (s := t), toUTF8_ofList, toUTF8_ofList] at h
  rw [← String.toByteArray_inj, ← String.utf8Encode_toList, ← String.utf8Encode_toList, List.utf8Encode,
    List.utf8Encode, h]

/-- Nothing is lost. -/
theorem encode_injective {s t : String} (h : encode s = encode t) : s = t := by
  have hbytes := String.ofList_injective h
  have hdecoded := decode?_encodeBytes s.toUTF8.toList
  rw [hbytes, decode?_encodeBytes, Option.some.injEq] at hdecoded
  exact toUTF8_toList_injective hdecoded.symm

/-- A text is encoded character by character. -/
theorem toList_encode_ofList (text : List Char) :
    (encode (String.ofList text)).toList = text.flatMap fun c => encodeBytes (String.utf8EncodeChar c) := by
  rw [encode, String.toList_ofList, toUTF8_ofList, encodeBytes, List.flatMap_assoc]
  rfl

end Percent

/-! ### Expressions -/

namespace StringLiteral

/-- The percent-encoding of a string, which has no language. -/
def encodeForUri (s : StringLiteral) : StringLiteral := ⟨(Percent.encode (String.ofList s.text)).toList, none⟩

/-- Strings without language have no language together. -/
theorem commonLanguage_of_forall {languages : List (Option String)} (h : ∀ l ∈ languages, l = none) :
    commonLanguage languages = none := by
  refine Option.eq_none_iff_forall_not_mem.mpr fun language hlanguage => ?_
  obtain ⟨hne, hall⟩ := commonLanguage_eq_some_iff.mp hlanguage
  obtain ⟨l, hl⟩ := List.exists_mem_of_ne_nil _ hne
  exact nomatch (h l hl).symm.trans (hall l hl)

/-- Strings may be put together before or after they are encoded. -/
theorem encodeForUri_concat (strings : List StringLiteral) :
    (concat strings).encodeForUri = concat (strings.map encodeForUri) := by
  have hlanguage : commonLanguage ((strings.map encodeForUri).map (·.language)) = none := by
    refine commonLanguage_of_forall fun l hl => ?_
    obtain ⟨_, hs, rfl⟩ := List.mem_map.mp hl
    obtain ⟨s, -, rfl⟩ := List.mem_map.mp hs
    rfl
  rw [concat, concat, hlanguage, encodeForUri]
  simp only [encodeForUri, Percent.toList_encode_ofList, List.flatMap_assoc, List.flatMap_map]

end StringLiteral

namespace Expression

variable {c : EvalContext} {σ : Solution} {e : Expression} {s : StringLiteral} {before after : Scopes}

/-- The percent-encoding of a string. -/
def encodeForUri (e : Expression) : Expression := call (.builtin .encodeForUri) [e]

theorem eval_encodeForUri (c : EvalContext) (σ : Solution) (e : Expression) : e.encodeForUri.eval c σ =
    (do return (← Eval.string (e.eval c σ)).encodeForUri.toTerm) := by
  show (do return Term.ofText (Percent.encode (String.ofList (← Eval.string (e.eval c σ)).text))) = _
  simp only [StringLiteral.encodeForUri, StringLiteral.toTerm, String.ofList_toList]

theorem string_eval_encodeForUri (c : EvalContext) (σ : Solution) (e : Expression) :
    Eval.string (e.encodeForUri.eval c σ) = (do return (← Eval.string (e.eval c σ)).encodeForUri) := by
  rw [eval_encodeForUri, Eval.string_bind]
  simp only [Eval.string_toTerm]

theorem each_string_encodeForUri (c : EvalContext) (σ : Solution) (es : List Expression) :
    Eval.each Eval.string (evalEach c σ (es.map encodeForUri)) =
      (do return (← Eval.each Eval.string (evalEach c σ es)).map StringLiteral.encodeForUri) := by
  induction es with
  | nil => rfl
  | cons e es ih =>
    rw [List.map_cons, evalEach, Eval.each, string_eval_encodeForUri, ih, evalEach, Eval.each]
    simp only [bind_assoc, pure_bind, List.map_cons]

theorem eval_encodeForUri_concat (c : EvalContext) (σ : Solution) (es : List Expression) :
    (concat es).encodeForUri.eval c σ = (concat (es.map encodeForUri)).eval c σ := by
  rw [eval_encodeForUri, string_eval_concat, eval_concat_eq, each_string_encodeForUri]
  simp only [bind_assoc, pure_bind, StringLiteral.encodeForUri_concat]

theorem run_encodeForUri (h : e.GivesString c σ before s after) : (e.encodeForUri.eval c σ).run before =
    (some (.ofText (Percent.encode (String.ofList s.text))), after) :=
  Eval.run_bind_of_run (givesString_iff.mp h) _

/-- **`ENCODE_FOR_URI` is a percent-encoding that loses nothing.**  Of an expression that gives a string,
`ENCODE_FOR_URI` is a simple literal that spells the bytes of the UTF-8 form of the string, and no other
bytes, in unreserved characters and percent signs with two hexadecimal digits in capital letters; decoding it
gives these bytes back.  If it is the same for two strings, they have the same text.  And it does not matter
whether strings are put together before or after they are encoded. -/
theorem encodes_for_uri (c : EvalContext) (σ : Solution) :
    (∀ {e : Expression} {s : StringLiteral} {before after : Scopes}, e.GivesString c σ before s after →
      ∃ w : String, (e.encodeForUri.eval c σ).run before = (some (.ofText w), after) ∧
        (∀ bytes, Percent.Spells w.toList bytes ↔ bytes = (String.ofList s.text).toUTF8.toList) ∧
        Percent.decode? w.toList = some (String.ofList s.text).toUTF8.toList) ∧
    (∀ {e e' : Expression} {s s' : StringLiteral} {before before' after after' : Scopes},
      e.GivesString c σ before s after → e'.GivesString c σ before' s' after' →
      ((e.encodeForUri.eval c σ).run before).1 = ((e'.encodeForUri.eval c σ).run before').1 →
      s.text = s'.text) ∧
    ∀ es : List Expression, (concat es).encodeForUri.eval c σ = (concat (es.map encodeForUri)).eval c σ := by
  refine ⟨fun {e s _ _} he => ?_, fun {e e' s s' _ _ _ _} he he' h => ?_, eval_encodeForUri_concat c σ⟩
  · have hdecoded : Percent.decode? (Percent.encode (String.ofList s.text)).toList =
        some (String.ofList s.text).toUTF8.toList := by
      rw [Percent.encode, String.toList_ofList, Percent.decode?_encodeBytes]
    refine ⟨_, run_encodeForUri he, fun bytes => ?_, hdecoded⟩
    rw [← Percent.decode?_eq_some_iff, hdecoded, Option.some.injEq, eq_comm]
  · rw [run_encodeForUri he, run_encodeForUri he', Option.some.injEq, Term.ofText, Term.ofText,
      Term.literal.injEq, Literal.simple.injEq] at h
    exact String.ofList_injective (Percent.encode_injective h)

/-- A string with characters of one to four bytes and a percent sign. -/
def manyWidths : Expression := .literal (.tagged "a%ß€𝄞" "de")

/-- Its encoding spells the bytes of its UTF-8 form, and that of a shorter string is another one. -/
theorem manyWidths_encodes_for_uri :
    (∃ w : String, (manyWidths.encodeForUri.eval ⟨.empty, none, 0⟩ .empty).run .empty = (some (.ofText w), .empty) ∧
      Percent.Spells w.toList [0x61, 0x25, 0xC3, 0x9F, 0xE2, 0x82, 0xAC, 0xF0, 0x9D, 0x84, 0x9E]) ∧
    ((manyWidths.encodeForUri.eval ⟨.empty, none, 0⟩ .empty).run .empty).1 ≠
      (((literal (.simple "a%ß€")).encodeForUri.eval ⟨.empty, none, 0⟩ .empty).run .empty).1 := by
  obtain ⟨hencodes, hinjective, -⟩ := encodes_for_uri ⟨.empty, none, 0⟩ .empty
  have hlong : manyWidths.GivesString ⟨.empty, none, 0⟩ .empty .empty ⟨"a%ß€𝄞".toList, some "de"⟩ .empty :=
    ⟨_, rfl, .tagged _ _⟩
  have hshort : (literal (.simple "a%ß€")).GivesString ⟨.empty, none, 0⟩ .empty .empty ⟨"a%ß€".toList, none⟩
      .empty :=
    ⟨_, rfl, .plain rfl⟩
  constructor
  · obtain ⟨w, hrun, hspells, -⟩ := hencodes hlong
    refine ⟨w, hrun, (hspells _).mpr ?_⟩
    rw [Percent.toUTF8_ofList]
    decide
  · exact fun h => absurd (hinjective hlong hshort h) (by decide)

end Expression

end TripleLoom
