import TripleLoom.Term.NTriples
import Mathlib.Data.List.Basic
import Mathlib.Logic.Function.Basic

/-!
# TripleLoom.Proofs.Term.Display — terms are told apart by their texts

What stands between the quotes of a literal is read back from the front, one character at a time
(`NTriples.unescapeChar?_escapeChar_append`), and the closing quote is read as no character.  So a text
between quotes is known with everything behind it (`NTriples.quote_append_inj`), and terms with the same text
are the same, whatever their parts hold (`Term.display_inj`).
-/

namespace TripleLoom

namespace NTriples

/-! ### Reading an escaped character -/

/-- The number of a hexadecimal digit in capital letters. -/
def hexValue (c : Char) : Nat := if c.toNat < 'A'.toNat then c.toNat - '0'.toNat else c.toNat - 'A'.toNat + 10

/-- The character that a letter behind a backslash stands for. -/
def namedEscape? : Char → Option Char
  | 'b' => some '\x08'
  | 't' => some '\t'
  | 'n' => some '\n'
  | 'f' => some '\x0c'
  | 'r' => some '\r'
  | '"' => some '"'
  | '\\' => some '\\'
  | _ => none

/-- The first character that an escaped text stands for, and the rest.  A quote begins none. -/
def unescapeChar? : List Char → Option (Char × List Char)
  | '\\' :: 'u' :: a :: b :: c :: d :: rest =>
    some (.ofNat (((hexValue a * 16 + hexValue b) * 16 + hexValue c) * 16 + hexValue d), rest)
  | '\\' :: c :: rest => (namedEscape? c).map (·, rest)
  | '"' :: _ => none
  | c :: rest => some (c, rest)
  | [] => none

theorem hexValue_hexDigit : ∀ n < 16, hexValue (hexDigit n) = n := by decide

/-- An escaped character is read back, whatever is behind it. -/
theorem unescapeChar?_escapeChar_append (c : Char) (rest : List Char) :
    unescapeChar? (escapeChar c ++ rest) = some (c, rest) := by
  fun_cases escapeChar c with
  | case1 | case2 | case3 | case4 | case5 | case6 | case7 =>
    subst_vars
    rfl
  | case8 _ _ _ _ _ _ _ hcontrol =>
    -- the digits before the last two are zeros
    have hvalue : hexValue (hexDigit (c.toNat / 16)) * 16 + hexValue (hexDigit (c.toNat % 16)) = c.toNat := by
      rw [hexValue_hexDigit _ (by omega), hexValue_hexDigit _ (by omega)]
      omega
    have hzero : hexValue '0' = 0 := by decide
    simp [unescapeChar?, hzero, hvalue, Char.ofNat_toNat]
  | case9 =>
    rw [List.singleton_append, unescapeChar?.eq_def]
    split <;> simp_all

theorem unescapeChar?_escape_cons_append (c : Char) (s rest : List Char) :
    unescapeChar? (escape (c :: s) ++ rest) = some (c, escape s ++ rest) := by
  rw [escape, List.flatMap_cons, List.append_assoc, unescapeChar?_escapeChar_append]
  rfl

/-! ### Texts between quotes -/

variable {s t x y : List Char} {v w : String}

/-- An escaped text is known with everything behind its closing quote. -/
theorem escape_append_quote_inj (h : escape s ++ '"' :: x = escape t ++ '"' :: y) : s = t ∧ x = y := by
  have hread := congrArg unescapeChar? h
  induction s generalizing t with
  | nil =>
    cases t with
    | nil => exact ⟨rfl, List.tail_eq_of_cons_eq h⟩
    | cons d t =>
      rw [unescapeChar?_escape_cons_append] at hread
      cases hread
  | cons c s ih =>
    rw [unescapeChar?_escape_cons_append] at hread
    cases t with
    | nil => cases hread
    | cons d t =>
      rw [unescapeChar?_escape_cons_append] at hread
      obtain ⟨rfl, hrest⟩ := Prod.mk.inj (Option.some.inj hread)
      obtain ⟨rfl, rfl⟩ := ih hrest (congrArg unescapeChar? hrest)
      exact ⟨rfl, rfl⟩

theorem toList_quote (v : String) : (quote v).toList = '"' :: escape v.toList ++ ['"'] := String.toList_ofList

/-- A text between quotes is known with everything behind it. -/
theorem quote_append_inj {a b : String} (h : quote v ++ a = quote w ++ b) : v = w ∧ a = b := by
  have hlists := congrArg String.toList h
  simp only [String.toList_append, toList_quote, List.cons_append, List.append_assoc, List.nil_append,
    List.cons.injEq, true_and] at hlists
  obtain ⟨hv, ha⟩ := escape_append_quote_inj hlists
  exact ⟨String.toList_inj.mp hv, String.toList_inj.mp ha⟩

theorem le_hexDigit : ∀ n < 16, 32 ≤ (hexDigit n).toNat := by decide

theorem le_of_mem_escapeChar (c : Char) : ∀ d ∈ escapeChar c, 32 ≤ d.toNat := by
  fun_cases escapeChar c with
  | case1 | case2 | case3 | case4 | case5 | case6 | case7 =>
    rw [List.forall_mem_cons, List.forall_mem_singleton]
    decide
  | case8 _ _ _ _ _ _ _ hcontrol =>
    simp only [List.forall_mem_cons, List.not_mem_nil, false_implies, implies_true, and_true]
    exact ⟨by decide, by decide, by decide, by decide, le_hexDigit _ (by omega), le_hexDigit _ (by omega)⟩
  | case9 _ _ _ _ _ _ _ hcontrol =>
    rw [List.forall_mem_singleton]
    omega

/-- No control character below the space is left in a text between quotes. -/
theorem le_of_mem_quote {c : Char} (h : c ∈ (quote v).toList) : 32 ≤ c.toNat := by
  simp only [toList_quote, List.cons_append, List.mem_cons, List.mem_append, List.not_mem_nil, or_false] at h
  rcases h with rfl | h | rfl
  · decide
  · obtain ⟨d, -, hc⟩ := List.mem_flatMap.mp h
    exact le_of_mem_escapeChar d c hc
  · decide

end NTriples

/-! ### Terms -/

/-- What stands behind the quotes of a literal. -/
def Literal.suffix : Literal → String
  | .simple _ => ""
  | .tagged _ l => "@" ++ l
  | .typed _ d => "^^" ++ d.display

theorem Literal.display_eq (l : Literal) : l.display = NTriples.quote l.value ++ l.suffix := by
  cases l with
  | simple v => exact String.append_empty.symm
  | tagged v l | typed v d => exact String.append_assoc

theorem Iri.display_inj {i j : Iri} : i.display = j.display ↔ i = j := by
  rw [display, display, String.append_left_inj, String.append_right_inj, Iri.mk.injEq]

theorem BlankNode.display_inj {b c : BlankNode} : b.display = c.display ↔ b = c := by
  rw [display, display, String.append_right_inj, BlankNode.mk.injEq]

theorem Literal.eq_of_suffix {l m : Literal} (hvalue : l.value = m.value) (hsuffix : l.suffix = m.suffix) :
    l = m := by
  -- no tag begins as a datatype does
  have hmarks : ∀ tag iri : String, "@" ++ tag ≠ "^^" ++ iri := by
    intro tag iri h
    have hhead := congrArg (fun s => s.toList.head?) h
    simp at hhead
  cases l <;> cases m <;> simp_all [value, suffix, Iri.display_inj, Ne.symm (hmarks _ _)]

theorem Literal.display_inj {l m : Literal} : l.display = m.display ↔ l = m := by
  refine ⟨fun h => ?_, congrArg display⟩
  rw [display_eq, display_eq] at h
  obtain ⟨hvalue, hsuffix⟩ := NTriples.quote_append_inj h
  exact eq_of_suffix hvalue hsuffix

/-- The character with which the text of a term begins. -/
def Term.mark : Term → Char
  | .iri _ => '<'
  | .blank _ => '_'
  | .literal _ => '"'

theorem Term.head?_display (t : Term) : t.display.toList.head? = some t.mark := by
  cases t with
  | iri i => simp [display, Iri.display, mark]
  | blank b => simp [display, BlankNode.display, mark]
  | literal l => simp [display, Literal.display_eq, NTriples.toList_quote, mark]

/-- Terms with the same text are the same. -/
theorem Term.display_inj {t u : Term} : t.display = u.display ↔ t = u := by
  refine ⟨fun h => ?_, congrArg display⟩
  have hmark : t.mark = u.mark := by
    have hhead := congrArg (fun s => s.toList.head?) h
    simpa [head?_display] using hhead
  cases t with
  | iri i =>
    cases u with
    | iri j => exact congrArg iri (Iri.display_inj.mp h)
    | blank | literal => cases hmark
  | blank b =>
    cases u with
    | blank c => exact congrArg blank (BlankNode.display_inj.mp h)
    | iri | literal => cases hmark
  | literal l =>
    cases u with
    | literal m => exact congrArg literal (Literal.display_inj.mp h)
    | iri | blank => cases hmark

theorem Term.display_ne_empty (t : Term) : t.display ≠ "" := by
  intro h
  have hhead := t.head?_display
  rw [h] at hhead
  cases hhead

end TripleLoom
