import TripleLoom.LanguageTag
import TripleLoom.Proofs.Iri.Characters
import TripleLoom.Proofs.Term.Display

/-!
# TripleLoom.Proofs.Term.Validity — terms whose parts keep to their syntax

An IRI may be any reference, the label of a blank node has the form that N-Triples lays down, and a language
tag is well-formed; the text of a literal may be any.  In the text of a valid term there is no tab and no line
feed (`Term.le_of_mem_display`), and a space only between the quotes of a literal (`Resource.visible_display`).
-/

namespace TripleLoom

open Text

/-! ### Language tags -/

namespace LanguageTag

variable {s : Subtag} {subtags : List Subtag}

theorem visible_of_isAlpha (h : isAlpha s) : Visible s := visible_of_all (fun _ => lt_of_isAlpha) h

theorem visible_of_isAlphanumeric (h : isAlphanumeric s) : Visible s := visible_of_all (fun _ => lt_of_isAlphanum) h

theorem visible_of_isScript (h : isScript s) : Visible s := by
  rw [isScript, Bool.and_eq_true] at h
  exact visible_of_isAlpha h.2

theorem visible_of_isRegion (h : isRegion s) : Visible s := by
  simp only [isRegion, Bool.or_eq_true, Bool.and_eq_true] at h
  rcases h with h | h
  · exact visible_of_isAlpha h.2
  · exact visible_of_all (fun _ => lt_of_isDigit) h.2

theorem visible_of_isVariant (h : isVariant s) : Visible s := by
  rw [isVariant, Bool.and_eq_true] at h
  exact visible_of_isAlphanumeric h.1

theorem visible_of_arePrivate (h : arePrivate subtags) : ∀ s ∈ ['x'] :: subtags, Visible s := by
  rw [arePrivate, Bool.and_eq_true, List.all_eq_true] at h
  rw [List.forall_mem_cons]
  exact ⟨by simp [Visible], fun s hs => visible_of_isAlphanumeric (h.2 s hs)⟩

theorem visible_of_areExtensions {hasSubtag : Bool} (h : areExtensions hasSubtag subtags) :
    ∀ s ∈ subtags, Visible s := by
  fun_induction areExtensions hasSubtag subtags with
  | case1 => simp
  | case2 hasSubtag s rest _ ih =>
    rw [Bool.and_eq_true] at h
    have hrest := h.2
    split at hrest
    · next hx =>
      rw [hx]
      exact visible_of_arePrivate hrest
    · rw [Bool.and_eq_true] at hrest
      exact List.forall_mem_cons.mpr ⟨visible_of_isAlphanumeric hrest.1, ih hrest.2⟩
  | case3 hasSubtag s rest _ ih =>
    rw [Bool.and_eq_true] at h
    exact List.forall_mem_cons.mpr ⟨visible_of_isAlphanumeric h.1, ih h.2⟩

theorem visible_of_endsFrom {place : Place} (h : endsFrom place subtags) : ∀ s ∈ subtags, Visible s := by
  fun_induction endsFrom place subtags with
  | case1 => simp
  | case2 => exact visible_of_arePrivate h
  | case3 place s rest =>
    rw [Bool.and_eq_true] at h
    exact List.forall_mem_cons.mpr ⟨visible_of_isAlphanumeric h.1, visible_of_areExtensions h.2⟩
  | case4 s rest _ n hextension ih =>
    exact List.forall_mem_cons.mpr ⟨visible_of_isAlpha hextension.2.2, ih h⟩
  | case5 s rest _ n _ hscript ih => exact List.forall_mem_cons.mpr ⟨visible_of_isScript hscript, ih h⟩
  | case6 s rest _ n _ _ hregion ih | case8 s rest _ hregion ih =>
    exact List.forall_mem_cons.mpr ⟨visible_of_isRegion hregion, ih h⟩
  | case7 s rest _ n _ _ _ ih | case9 s rest _ _ ih | case10 s rest _ ih =>
    rw [Bool.and_eq_true] at h
    exact List.forall_mem_cons.mpr ⟨visible_of_isVariant h.1, ih h.2⟩

theorem visible_of_isOrdered (h : isOrdered subtags) : ∀ s ∈ subtags, Visible s := by
  unfold isOrdered at h
  split at h
  · cases h
  · next language rest =>
    split at h
    · next hx =>
      rw [hx]
      exact visible_of_arePrivate h
    · simp only [Bool.and_eq_true] at h
      exact List.forall_mem_cons.mpr ⟨visible_of_isAlpha h.1.2, visible_of_endsFrom h.2⟩

theorem visible_of_mem_registered {tag : String} (h : tag ∈ registered) : Visible tag.toList := by
  have hall : ∀ tag ∈ registered, Visible tag.toList := by simp [registered, Visible]
  exact hall tag h

/-- A small letter is written in place of a visible character only. -/
theorem lt_of_lt_toLower {c : Char} (h : 32 < c.toLower.toNat) : 32 < c.toNat := by
  unfold Char.toLower at h
  split at h
  · next hupper =>
    have hle := UInt32.le_iff_toNat_le.mp hupper.1
    change 65 ≤ c.toNat at hle
    omega
  · exact h

/-- A well-formed tag has visible characters only. -/
theorem visible_of_isWellFormed {tag : String} (h : isWellFormed tag) : Visible tag.toList := by
  have hlower : Visible (lowerAscii tag).toList := by
    simp only [isWellFormed, Bool.or_eq_true, List.contains_iff_mem] at h
    rcases h with h | h
    · exact visible_of_mem_registered h
    · rw [isLowerWellFormed, Bool.and_eq_true] at h
      exact visible_of_pieces ['-'] (by simp [Visible]) (visible_of_isOrdered h.2)
  rw [lowerAscii, String.toList_ofList] at hlower
  intro c hc
  exact lt_of_lt_toLower (hlower _ (List.mem_map_of_mem hc))

end LanguageTag

/-! ### Valid terms -/

/-- Whether an IRI is a reference whose parts hold what they may hold. -/
def Iri.isValid (i : Iri) : Bool := (Reference.ofText i.text.toList).isValid

namespace BlankNode

/-- Whether a character may begin a label, as a digit may. -/
def isLabelStart (c : Char) : Bool :=
  c.isAlphanum || c == '_' || c == ':' ||
    [(0xC0, 0xD6), (0xD8, 0xF6), (0xF8, 0x2FF), (0x370, 0x37D), (0x37F, 0x1FFF), (0x200C, 0x200D),
      (0x2070, 0x218F), (0x2C00, 0x2FEF), (0x3001, 0xD7FF), (0xF900, 0xFDCF), (0xFDF0, 0xFFFD),
      (0x10000, 0xEFFFF)].any fun range => Reference.within c range.1 range.2

/-- Whether a character may stand in a label behind its beginning, except at its end for the point. -/
def isLabelChar (c : Char) : Bool :=
  isLabelStart c || c == '-' || c == '.' || c.toNat == 0xB7 || Reference.within c 0x300 0x36F ||
    Reference.within c 0x203F 0x2040

/-- Whether the label of a blank node has the form of N-Triples. -/
def isValid (b : BlankNode) : Bool :=
  match b.label.toList with
  | [] => false
  | c :: rest => isLabelStart c && rest.all isLabelChar && rest.getLast? != some '.'

theorem lt_of_isLabelStart {c : Char} (h : isLabelStart c) : 32 < c.toNat := by
  simp only [isLabelStart, Reference.within, Bool.or_eq_true, beq_iff_eq, List.any_cons, List.any_nil,
    Bool.and_eq_true, decide_eq_true_eq, Bool.or_false] at h
  rcases h with ((h | rfl) | rfl) | h
  · exact lt_of_isAlphanum h
  · decide
  · decide
  · omega

theorem lt_of_isLabelChar {c : Char} (h : isLabelChar c) : 32 < c.toNat := by
  simp only [isLabelChar, Reference.within, Bool.or_eq_true, beq_iff_eq, Bool.and_eq_true, decide_eq_true_eq] at h
  rcases h with ((((h | rfl) | rfl) | h) | h) | h
  · exact lt_of_isLabelStart h
  · decide
  · decide
  all_goals omega

theorem visible_label {b : BlankNode} (h : b.isValid) : Visible b.label.toList := by
  unfold isValid at h
  split at h
  · cases h
  · next c rest hlabel =>
    simp only [Bool.and_eq_true] at h
    rw [hlabel]
    exact visible_cons.mpr ⟨lt_of_isLabelStart h.1.1, visible_of_all (fun _ => lt_of_isLabelChar) h.1.2⟩

end BlankNode

/-- Whether the tag or the datatype of a literal is valid. -/
def Literal.isValid : Literal → Bool
  | .simple _ => true
  | .tagged _ language => LanguageTag.isWellFormed language
  | .typed _ datatype => datatype.isValid

/-- Whether the IRIs, the label or the language tag in a term are valid. -/
def Term.isValid : Term → Bool
  | .iri i => i.isValid
  | .blank b => b.isValid
  | .literal l => l.isValid

/-- Whether all parts of a triple are valid. -/
def Triple.isValid (t : Triple) : Bool := t.subject.toTerm.isValid && t.predicate.isValid && t.object.isValid

/-! ### Their characters -/

theorem Iri.visible_display {i : Iri} (h : i.isValid) : Visible i.display.toList := by
  have htext := Reference.visible_of_isValid h
  simp [display, String.toList_append, visible_append, visible_cons, Visible.nil, htext]

theorem Resource.visible_display {r : Resource} (h : r.toTerm.isValid) : Visible r.toTerm.display.toList := by
  cases r with
  | iri i => exact Iri.visible_display h
  | blank b =>
    have hlabel := BlankNode.visible_label h
    simp [toTerm, Term.display, BlankNode.display, String.toList_append, visible_cons, hlabel]

theorem Literal.visible_suffix {l : Literal} (h : l.isValid) : Visible l.suffix.toList := by
  cases l with
  | simple v => simp [suffix, Visible]
  | tagged v language =>
    have htag := LanguageTag.visible_of_isWellFormed h
    simp [suffix, String.toList_append, visible_cons, htag]
  | typed v datatype =>
    have hdatatype := Iri.visible_display h
    simp [suffix, String.toList_append, visible_cons, hdatatype]

/-- No control character below the space is left in the text of a valid term. -/
theorem Term.le_of_mem_display {t : Term} (h : t.isValid) {c : Char} (hc : c ∈ t.display.toList) : 32 ≤ c.toNat := by
  cases t with
  | iri i => exact (Resource.visible_display (r := .iri i) h c hc).le
  | blank b => exact (Resource.visible_display (r := .blank b) h c hc).le
  | literal l =>
    rw [display, Literal.display_eq, String.toList_append, List.mem_append] at hc
    rcases hc with hc | hc
    · exact NTriples.le_of_mem_quote hc
    · exact (Literal.visible_suffix h c hc).le

end TripleLoom
