import TripleLoom.Iri.Syntax
import TripleLoom.Proofs.Function.Splitting

/-!
# TripleLoom.Proofs.Iri.Characters — the characters of a valid IRI reference

Whatever part of a reference a character stands in, it is beyond the space in the order of characters: so a
valid reference has neither spaces nor control characters below the space.  Each part is taken by itself, and
the characters that set the parts off are visible too (`Reference.visible_of_isValid`).
-/

namespace TripleLoom

/-- A text of visible characters: all are beyond the space. -/
def Text.Visible (s : List Char) : Prop := ∀ c ∈ s, 32 < c.toNat

namespace Text

variable {c : Char} {s t : List Char} {p : Char → Bool}

theorem Visible.nil : Visible [] := by simp [Visible]

theorem visible_cons : Visible (c :: s) ↔ 32 < c.toNat ∧ Visible s := List.forall_mem_cons

theorem visible_append : Visible (s ++ t) ↔ Visible s ∧ Visible t := List.forall_mem_append

theorem visible_of_all (hp : ∀ c, p c → 32 < c.toNat) (h : s.all p) : Visible s := by
  intro c hc
  exact hp c (List.all_eq_true.mp h c hc)

theorem mem_of_mem_intercalate {α : Type} {x : α} {separator : List α} {parts : List (List α)}
    (h : x ∈ separator.intercalate parts) : x ∈ separator ∨ ∃ part ∈ parts, x ∈ part := by
  induction parts with
  | nil => simp at h
  | cons part parts ih =>
    cases parts with
    | nil => exact .inr ⟨part, List.mem_cons_self, by simpa using h⟩
    | cons part' parts =>
      rw [List.intercalate_cons_cons, List.mem_append, List.mem_append] at h
      rcases h with (h | h) | h
      · exact .inr ⟨part, List.mem_cons_self, h⟩
      · exact .inl h
      · exact (ih h).imp_right fun ⟨found, hfound, hx⟩ => ⟨found, List.mem_cons_of_mem _ hfound, hx⟩

/-- A text is visible if its pieces and what separates them are. -/
theorem visible_of_pieces (separator : List Char) (hseparator : Visible separator)
    (h : ∀ piece ∈ pieces separator s, Visible piece) : Visible s := by
  intro c hc
  rw [← intercalate_pieces separator s] at hc
  rcases mem_of_mem_intercalate hc with hc | ⟨piece, hpiece, hc⟩
  · exact hseparator c hc
  · exact h piece hpiece c hc

theorem lt_of_isDigit (h : c.isDigit) : 32 < c.toNat := by
  simp only [Char.isDigit, Bool.and_eq_true, decide_eq_true_eq, UInt32.le_iff_toNat_le] at h
  change 48 ≤ c.toNat ∧ c.toNat ≤ 57 at h
  omega

theorem lt_of_isAlpha (h : c.isAlpha) : 32 < c.toNat := by
  simp only [Char.isAlpha, Char.isUpper, Char.isLower, Bool.or_eq_true, Bool.and_eq_true, decide_eq_true_eq,
    UInt32.le_iff_toNat_le] at h
  change (65 ≤ c.toNat ∧ c.toNat ≤ 90) ∨ (97 ≤ c.toNat ∧ c.toNat ≤ 122) at h
  omega

theorem lt_of_isAlphanum (h : c.isAlphanum) : 32 < c.toNat := by
  rw [Char.isAlphanum, Bool.or_eq_true] at h
  exact h.elim lt_of_isAlpha lt_of_isDigit

end Text

open Text

/-! ### Addresses -/

namespace Address

variable {c : Char} {s : List Char} {allowed : Char → Bool}

theorem lt_of_isHex (h : isHex c) : 32 < c.toNat := by
  simp only [isHex, Bool.or_eq_true, Bool.and_eq_true, decide_eq_true_eq, Char.le_def, UInt32.le_iff_toNat_le] at h
  rcases h with (h | h) | h
  · exact lt_of_isDigit h
  · change 97 ≤ c.toNat ∧ c.toNat ≤ 102 at h
    omega
  · change 65 ≤ c.toNat ∧ c.toNat ≤ 70 at h
    omega

theorem visible_of_isIPv4 (h : isIPv4 s) : Visible s := by
  simp only [isIPv4, Bool.and_eq_true, List.all_eq_true] at h
  refine visible_of_pieces ['.'] (by simp [Visible]) fun octet hoctet => ?_
  have hdigits := h.2 octet hoctet
  simp only [isOctet, Bool.and_eq_true] at hdigits
  exact visible_of_all (fun _ => lt_of_isDigit) hdigits.1.1.2

theorem visible_of_isGroup (h : isGroup s) : Visible s := by
  simp only [isGroup, Bool.and_eq_true] at h
  exact visible_of_all (fun _ => lt_of_isHex) h.2

theorem visible_of_countGroups? {allowIPv4 : Bool} {groups : List (List Char)} {n : Nat}
    (h : countGroups? allowIPv4 groups = some n) : ∀ group ∈ groups, Visible group := by
  fun_induction countGroups? allowIPv4 groups generalizing n with
  | case1 => simp
  | case2 last hgroup => simpa using visible_of_isGroup hgroup
  | case3 last _ haddress =>
    rw [Bool.and_eq_true] at haddress
    simpa using visible_of_isIPv4 haddress.2
  | case4 => simp at h
  | case5 group rest _ hgroup ih =>
    obtain ⟨m, hm, -⟩ := Option.map_eq_some_iff.mp h
    exact List.forall_mem_cons.mpr ⟨visible_of_isGroup hgroup, ih hm⟩
  | case6 => simp at h

theorem visible_of_countSide? {allowIPv4 : Bool} {n : Nat} (h : countSide? allowIPv4 s = some n) : Visible s := by
  unfold countSide? at h
  split at h
  · next hempty =>
    rw [List.isEmpty_iff.mp hempty]
    exact .nil
  · exact visible_of_pieces [':'] (by simp [Visible]) (visible_of_countGroups? h)

theorem visible_of_isIPv6 (h : isIPv6 s) : Visible s := by
  refine visible_of_pieces [':', ':'] (by simp [Visible]) ?_
  unfold isIPv6 at h
  split at h
  · next all hpieces =>
    rw [hpieces]
    simpa using visible_of_countSide? (beq_iff_eq.mp h)
  · next left right hpieces =>
    rw [hpieces]
    split at h
    · next hleft hright => simpa using ⟨visible_of_countSide? hleft, visible_of_countSide? hright⟩
    · cases h
  · cases h

theorem visible_of_isFuture (hallowed : ∀ c, allowed c → 32 < c.toNat) (h : isFuture allowed s) : Visible s := by
  cases s with
  | nil => exact .nil
  | cons v s =>
    simp only [isFuture, Bool.and_eq_true, Bool.or_eq_true, beq_iff_eq] at h
    obtain ⟨⟨⟨⟨hv, -⟩, hpoint⟩, -⟩, haddress⟩ := h
    have hletter : 32 < v.toNat := by rcases hv with rfl | rfl <;> decide
    have hversion : Visible (s.takeWhile isHex) := visible_of_all (fun _ => lt_of_isHex) List.all_takeWhile
    have hbehind : Visible (s.dropWhile isHex) := by
      cases hdrop : s.dropWhile isHex with
      | nil => exact .nil
      | cons c rest =>
        rw [hdrop] at hpoint haddress
        obtain rfl : c = '.' := Option.some.inj hpoint
        exact visible_cons.mpr ⟨by decide, visible_of_all hallowed haddress⟩
    rw [visible_cons, ← List.takeWhile_append_dropWhile (l := s) (p := isHex), visible_append]
    exact ⟨hletter, hversion, hbehind⟩

end Address

namespace Reference

variable {c mark : Char} {s : List Char} {allowed : Char → Bool}

/-! ### Parts and their text -/

theorem append_cutScheme (s : List Char) :
    ((cutScheme s).1.map (· ++ [':'])).getD [] ++ (cutScheme s).2 = s := by
  unfold cutScheme
  split
  · next rest hdrop =>
    split
    · show (s.takeWhile isSchemeChar ++ [':']) ++ rest = s
      rw [List.append_assoc, List.singleton_append, ← hdrop, List.takeWhile_append_dropWhile]
    · rfl
  · rfl

/-- A text in which a mark is found is what stands before the mark, the mark, and the rest. -/
theorem eq_append_of_dropWhile {rest : List Char} (h : s.dropWhile (· != mark) = c :: rest) :
    s = s.takeWhile (· != mark) ++ mark :: rest := by
  obtain rfl : c = mark := by simpa [h] using List.head?_dropWhile_not (· != mark) s
  rw [← h, List.takeWhile_append_dropWhile]

theorem append_cutBehind (mark : Char) (s : List Char) :
    (cutBehind mark s).1 ++ ((cutBehind mark s).2.map (mark :: ·)).getD [] = s := by
  unfold cutBehind
  split
  · next c rest hdrop => exact (eq_append_of_dropWhile hdrop).symm
  · simp

/-- The parts of a text make it up again. -/
theorem toText_ofText (s : List Char) : (ofText s).toText = s := by
  have hscheme := append_cutScheme s
  have hfragment := append_cutBehind '#' (cutScheme s).2
  have hquery := append_cutBehind '?' (cutBehind '#' (cutScheme s).2).1
  simp only [ofText]
  split
  · next rest hrest =>
    rw [hrest] at hquery
    rw [← hquery] at hfragment
    rw [← hfragment] at hscheme
    rw [toText]
    conv_rhs => rw [← hscheme, ← List.takeWhile_append_dropWhile (l := rest) (p := (· != '/'))]
    simp
  · next path _ =>
    rw [← hquery] at hfragment
    rw [← hfragment] at hscheme
    rw [toText]
    conv_rhs => rw [← hscheme]
    simp

/-! ### Characters of the parts -/

theorem lt_of_isSchemeChar (h : isSchemeChar c) : 32 < c.toNat := by
  simp only [isSchemeChar, Bool.or_eq_true, beq_iff_eq] at h
  rcases h with ((h | rfl) | rfl) | rfl
  · exact lt_of_isAlphanum h
  all_goals decide

theorem lt_of_isPlainAscii (h : isPlainAscii c) : 32 < c.toNat := by
  simp only [isPlainAscii, Bool.or_eq_true, List.contains_iff_mem] at h
  rcases h with h | h
  · exact lt_of_isAlphanum h
  · have hall : ∀ c ∈ "-._~!$&'()*+,;=".toList, 32 < c.toNat := by simp
    exact hall c h

theorem lt_of_isUcsChar (h : isUcsChar c) : 32 < c.toNat := by
  simp only [isUcsChar, within, Bool.or_eq_true, Bool.and_eq_true, decide_eq_true_eq] at h
  omega

theorem lt_of_isPrivate (h : isPrivate c) : 32 < c.toNat := by
  simp only [isPrivate, within, Bool.or_eq_true, Bool.and_eq_true, decide_eq_true_eq] at h
  omega

theorem lt_of_isPlain (h : isPlain c) : 32 < c.toNat :=
  (Bool.or_eq_true _ _ ▸ h).elim lt_of_isPlainAscii lt_of_isUcsChar

theorem lt_of_isUserChar (h : isUserChar c) : 32 < c.toNat := by
  simp only [isUserChar, Bool.or_eq_true, beq_iff_eq] at h
  rcases h with h | rfl
  · exact lt_of_isPlain h
  · decide

theorem lt_of_isAddressChar (h : isAddressChar c) : 32 < c.toNat := by
  simp only [isAddressChar, Bool.or_eq_true, beq_iff_eq] at h
  rcases h with h | rfl
  · exact lt_of_isPlainAscii h
  · decide

theorem lt_of_isPathChar (h : isPathChar c) : 32 < c.toNat := by
  simp only [isPathChar, Bool.or_eq_true, beq_iff_eq] at h
  rcases h with ((h | rfl) | rfl) | rfl
  · exact lt_of_isPlain h
  all_goals decide

theorem lt_of_isFragmentChar (h : isFragmentChar c) : 32 < c.toNat := by
  simp only [isFragmentChar, Bool.or_eq_true, beq_iff_eq] at h
  rcases h with h | rfl
  · exact lt_of_isPathChar h
  · decide

theorem lt_of_isQueryChar (h : isQueryChar c) : 32 < c.toNat :=
  (Bool.or_eq_true _ _ ▸ h).elim lt_of_isFragmentChar lt_of_isPrivate

theorem visible_of_isEscaped (hallowed : ∀ c, allowed c → 32 < c.toNat) (h : isEscaped allowed s) : Visible s := by
  fun_induction isEscaped allowed s with
  | case1 => exact .nil
  | case2 a b rest ih =>
    simp only [Bool.and_eq_true] at h
    simp only [visible_cons]
    exact ⟨by decide, Address.lt_of_isHex h.1.1, Address.lt_of_isHex h.1.2, ih h.2⟩
  | case3 c rest _ ih =>
    rw [Bool.and_eq_true] at h
    exact visible_cons.mpr ⟨hallowed c h.1, ih h.2⟩

theorem visible_of_isPort (h : isPort s) : Visible s := by
  cases s with
  | nil => exact .nil
  | cons c digits =>
    simp only [isPort, Bool.and_eq_true, beq_iff_eq] at h
    obtain ⟨rfl, hdigits⟩ := h
    exact visible_cons.mpr ⟨by decide, visible_of_all (fun _ => lt_of_isDigit) hdigits⟩

theorem visible_of_isHost (h : isHost s) : Visible s := by
  unfold isHost at h
  split at h
  · next rest =>
    split at h
    · next c port hport =>
      rw [Bool.and_eq_true] at h
      have haddress : Visible (rest.takeWhile (· != ']')) := by
        have haddress := h.2
        split at haddress
        · exact Address.visible_of_isFuture (fun _ => lt_of_isAddressChar) haddress
        · exact Address.visible_of_isIPv6 haddress
      rw [eq_append_of_dropWhile hport]
      simp only [visible_cons, visible_append]
      exact ⟨by decide, haddress, by decide, visible_of_isPort h.1⟩
    · cases h
  · rw [Bool.and_eq_true] at h
    rw [← List.takeWhile_append_dropWhile (l := s) (p := (· != ':')), visible_append]
    exact ⟨visible_of_isEscaped (fun _ => lt_of_isPlain) h.1, visible_of_isPort h.2⟩

theorem visible_of_isAuthority (h : isAuthority s) : Visible s := by
  have hjoined := append_cutBehind '@' s
  unfold isAuthority at h
  split at h
  · next user host hcut =>
    split at h
    · exact visible_of_isHost h
    · rw [Bool.and_eq_true] at h
      rw [hcut] at hjoined
      rw [← hjoined]
      exact visible_append.mpr ⟨visible_of_isEscaped (fun _ => lt_of_isUserChar) h.1,
        visible_cons.mpr ⟨by decide, visible_of_isHost h.2⟩⟩
  · exact visible_of_isHost h

theorem all_isSchemeChar_ofText (s : List Char) : ∀ scheme ∈ (ofText s).scheme, scheme.all isSchemeChar := by
  have hcut : (ofText s).scheme = (cutScheme s).1 := by
    simp only [ofText]
    split <;> rfl
  rw [hcut, cutScheme]
  split
  · split
    · rintro _ ⟨⟩
      exact List.all_takeWhile
    · simp
  · simp

/-- A reference all of whose parts hold what they may hold has visible characters only. -/
theorem visible_of_isValid (h : (ofText s).isValid) : Visible s := by
  have hscheme := all_isSchemeChar_ofText s
  rw [← toText_ofText s]
  revert h hscheme
  generalize ofText s = r
  intro h hscheme
  obtain ⟨scheme, authority, path, query, fragment⟩ := r
  simp only [isValid, Bool.and_eq_true, Option.all_eq_true] at h
  obtain ⟨⟨⟨⟨hauthority, hpath⟩, hquery⟩, hfragment⟩, -⟩ := h
  have hpart : ∀ (part : Option (List Char)) (set : List Char → List Char),
      (∀ t ∈ part, Visible (set t)) → Visible ((part.map set).getD []) := by
    intro part set hset
    cases part with
    | none => exact .nil
    | some t => exact hset t rfl
  simp only [toText, visible_append]
  refine ⟨⟨⟨⟨hpart _ _ ?_, hpart _ _ ?_⟩, visible_of_isEscaped (fun _ => lt_of_isPathChar) hpath⟩, hpart _ _ ?_⟩,
    hpart _ _ ?_⟩
  · intro t ht
    exact visible_append.mpr ⟨visible_of_all (fun _ => lt_of_isSchemeChar) (hscheme t ht), by simp [Visible]⟩
  · intro t ht
    exact visible_append.mpr ⟨by simp [Visible], visible_of_isAuthority (hauthority t ht)⟩
  · intro t ht
    exact visible_cons.mpr ⟨by decide, visible_of_isEscaped (fun _ => lt_of_isQueryChar) (hquery t ht)⟩
  · intro t ht
    exact visible_cons.mpr ⟨by decide, visible_of_isEscaped (fun _ => lt_of_isFragmentChar) (hfragment t ht)⟩

end Reference

end TripleLoom
