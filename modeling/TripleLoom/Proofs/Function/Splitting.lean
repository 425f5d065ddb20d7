import TripleLoom.Proofs.Expression.Searching
import TripleLoom.Proofs.Function.Counting

/-!
# TripleLoom.Proofs.Function.Splitting — the pieces of a text, all of them and one alone

A text is cut at the first occurrence of a separator, and what is behind it is cut again.  So the pieces joined
by the separator give the text, and no piece holds the separator, whether occurrences overlap, adjoin or stand
at an end.  The iterator gives all pieces and the function one of them.  They take the same strings, but the
iterator takes documents as well, and for these the function gives nothing (`Iri.iterSplit_agrees_iff`).
-/

namespace TripleLoom

/-! ### Pieces -/

namespace Text

section

variable {α : Type} {needle s front back : List α}

/-- Before its first occurrence a needle does not occur. -/
theorem IsFirstCut.absent_before (h : IsFirstCut needle s front back) (hne : needle ≠ []) :
    ¬needle <:+: front := by
  rintro ⟨front', back', rfl⟩
  have hle := h.first front' (back' ++ needle ++ back) (by rw [← h.joined]; simp only [List.append_assoc])
  have hpos := List.length_pos_iff.mpr hne
  simp only [List.length_append] at hle
  omega

end

variable {α : Type} [BEq α] {separator s piece : List α}

theorem pieces_ne_nil (separator s : List α) : pieces separator s ≠ [] := by
  rw [pieces]
  split
  · exact List.cons_ne_nil _ _
  · split <;> exact List.cons_ne_nil _ _

variable [LawfulBEq α]

/-- The pieces joined again give the text. -/
theorem intercalate_pieces (separator s : List α) : separator.intercalate (pieces separator s) = s := by
  fun_induction pieces separator s with
  | case1 s => exact List.intercalate_singleton
  | case2 s => exact List.intercalate_singleton
  | case3 s _ front back hcut ih =>
    rw [List.intercalate_cons_of_ne_nil (pieces_ne_nil _ _), ih]
    exact (cut?_eq_some_iff.mp hcut).joined

/-- No piece holds the separator. -/
theorem not_infix_of_mem_pieces (hne : separator ≠ []) (h : piece ∈ pieces separator s) :
    ¬separator <:+: piece := by
  fun_induction pieces separator s with
  | case1 s hnil => exact absurd hnil hne
  | case2 s _ hcut =>
    obtain rfl := List.mem_singleton.mp h
    rw [← contains_iff, contains, hcut]
    exact Bool.false_ne_true
  | case3 s _ front back hcut ih =>
    rcases List.mem_cons.mp h with rfl | hmem
    · exact (cut?_eq_some_iff.mp hcut).absent_before hne
    · exact ih hmem

end Text

theorem splitText_ne_nil (text separator : String) : splitText text separator ≠ [] :=
  mt List.map_eq_nil_iff.mp (Text.pieces_ne_nil _ _)

theorem intercalate_splitText (text separator : String) :
    separator.intercalate (splitText text separator) = text := by
  rw [← String.toList_inj, String.toList_intercalate, splitText, List.map_map]
  have hid : String.toList ∘ String.ofList = id := funext fun _ => String.toList_ofList
  rw [hid, List.map_id, Text.intercalate_pieces]

theorem not_infix_of_mem_splitText {text separator value : String} (hne : separator ≠ "")
    (h : value ∈ splitText text separator) : ¬separator.toList <:+: value.toList := by
  obtain ⟨piece, hpiece, rfl⟩ := List.mem_map.mp h
  rw [String.toList_ofList]
  exact Text.not_infix_of_mem_pieces (by simpa using hne) hpiece

/-! ### Arguments -/

/-- A document: a literal whose datatype names a media type. -/
def Term.IsDocument (t : Term) : Prop := ∃ l : Literal, t = .literal l ∧ l.isDocument

/-- The texts among the terms: strings, with or without a language, and documents. -/
inductive Term.IsText : Term → String → Prop where
  | string {t : Term} {s : StringLiteral} (h : t.IsString s) : IsText t (.ofList s.text)
  | document {l : Literal} (h : l.isDocument) : IsText (.literal l) l.value

/-- No media type is a datatype of XML Schema or in the RDF vocabulary. -/
theorem Literal.datatype_ne_of_isDocument {l : Literal} (h : l.isDocument) (name : String) :
    l.datatype ≠ .xsd name ∧ l.datatype ≠ .rdf name := by
  have hxsd : (Iri.xsd name).text.toList = xsdNamespace.toList ++ name.toList := String.toList_append
  have hrdf : (Iri.rdf name).text.toList =
      "http://www.w3.org/1999/02/22-rdf-syntax-ns#".toList ++ name.toList := String.toList_append
  rw [isDocument] at h
  constructor
  · intro heq
    rw [heq, hxsd] at h
    exact nomatch h
  · intro heq
    rw [heq, hrdf] at h
    exact nomatch h

/-- A document is read as no string, truth value or number. -/
theorem Literal.ofLiteral_of_isDocument {l : Literal} (h : l.isDocument) : Value.ofLiteral l = .other l := by
  cases l with
  | simple v => exact absurd rfl (datatype_ne_of_isDocument h "string").1
  | tagged v language => exact absurd rfl (datatype_ne_of_isDocument h "langString").2
  | typed v d =>
    have hne := fun name => (datatype_ne_of_isDocument h name).1
    refine Value.ofLiteral_typed_eq_other (hne _) (hne _) fun n hn => ?_
    obtain ⟨_, _, ⟨⟩, hread⟩ := Value.ofLiteral_eq_numeric_iff_read?.mp hn
    obtain ⟨name, -, hname, -⟩ :=
      Numeric.exists_ofName?_of_isNumericDatatype (Numeric.isNumericDatatype_of_read? hread)
    exact hne name hname

/-- A value has a text exactly if it is that of a string. -/
theorem Term.text?_eq_some_iff {t : Term} {v : String} :
    (Value.ofTerm t).text? = some v ↔ ∃ s, t.IsString s ∧ .ofList s.text = v := by
  constructor
  · intro h
    exact ⟨_, Value.isString_iff.mpr ⟨v, h, rfl⟩, String.ofList_toList⟩
  · rintro ⟨s, hs, rfl⟩
    obtain ⟨v, hv, rfl⟩ := Value.isString_iff.mp hs
    rw [hv, String.ofList_toList]

theorem Term.IsDocument.text?_eq_none {t : Term} (h : t.IsDocument) : (Value.ofTerm t).text? = none := by
  obtain ⟨l, rfl, hl⟩ := h
  rw [Value.ofTerm, Literal.ofLiteral_of_isDocument hl]
  rfl

/-- A text is a string or a document. -/
theorem Term.isText_iff {t : Term} {v : String} : t.IsText v ↔
    (Value.ofTerm t).text? = some v ∨ ∃ l : Literal, t = .literal l ∧ l.isDocument ∧ l.value = v := by
  rw [text?_eq_some_iff]
  constructor
  · rintro (⟨h⟩ | ⟨h⟩)
    · exact .inl ⟨_, h, rfl⟩
    · exact .inr ⟨_, rfl, h, rfl⟩
  · rintro (⟨s, h, rfl⟩ | ⟨l, rfl, h, rfl⟩)
    · exact .string h
    · exact .document h

theorem Term.isText_of_text? {t : Term} {v : String} (h : (Value.ofTerm t).text? = some v) : t.IsText v :=
  isText_iff.mpr (.inl h)

theorem Term.IsText.text?_eq_some {t : Term} {v : String} (h : t.IsText v) (hplain : ¬t.IsDocument) :
    (Value.ofTerm t).text? = some v := by
  refine (isText_iff.mp h).resolve_right ?_
  rintro ⟨l, rfl, hl, -⟩
  exact hplain ⟨l, rfl, hl⟩

theorem Value.eq_literal_of_ofTerm {t : Term} {l : Literal} (h : ofTerm t = .other l) : t = .literal l := by
  obtain i | b | v | ⟨v, language⟩ | ⟨v, d⟩ := t
  · cases h
  · cases h
  · cases h
  · cases h
  · rw [ofTerm, ofLiteral_typed] at h
    split_ifs at h
    all_goals
      split at h
      all_goals cases h
    all_goals rfl

/-- The argument at an index is taken for the text that it is. -/
theorem stringArgument_eq_ok_iff {arguments : List Term} {index : Nat} {v : String} :
    stringArgument arguments index = .ok v ↔ ∃ t, arguments[index]? = some t ∧ t.IsText v := by
  unfold stringArgument
  cases arguments[index]? with
  | none => exact iff_of_false nofun fun ⟨t, h, _⟩ => nomatch h
  | some t =>
    simp only [Option.some.injEq, exists_eq_left', Term.isText_iff]
    split
    · next l hl =>
      obtain rfl := Value.eq_literal_of_ofTerm hl
      rw [hl]
      by_cases hdoc : l.isDocument
      · rw [if_pos hdoc]
        constructor
        · rintro ⟨⟩
          exact .inr ⟨l, rfl, hdoc, rfl⟩
        · rintro (h | ⟨_, ⟨⟩, -, rfl⟩)
          · cases h
          · rfl
      · rw [if_neg hdoc]
        refine iff_of_false nofun ?_
        rintro (h | ⟨_, ⟨⟩, h, -⟩)
        · cases h
        · exact hdoc h
    · next hne =>
      rw [or_iff_left]
      · cases (Value.ofTerm t).text? with
        | none => exact iff_of_false nofun nofun
        | some v' => exact Except.ok.injEq v' v ▸ Option.some.injEq v' v ▸ Iff.rfl
      · rintro ⟨l, rfl, h, -⟩
        exact hne l (Literal.ofLiteral_of_isDocument h)

/-- The iterator takes two texts of which the second is not empty, and gives all pieces. -/
theorem splitIntoPieces_eq_ok_iff {arguments : List Term} {stream : TupleStream} :
    splitIntoPieces arguments = .ok stream ↔
      ∃ t s, (∃ a, arguments[0]? = some a ∧ a.IsText t) ∧ (∃ a, arguments[1]? = some a ∧ a.IsText s) ∧ s ≠ "" ∧
        .given [(splitText t s).map fun value => [some (Term.ofText value)]] .finished = stream := by
  simp only [← stringArgument_eq_ok_iff]
  unfold splitIntoPieces
  cases stringArgument arguments 0 with
  | error e => exact iff_of_false nofun fun ⟨_, _, h, _⟩ => nomatch h
  | ok t =>
    cases stringArgument arguments 1 with
    | error e => exact iff_of_false nofun fun ⟨_, _, _, h, _⟩ => nomatch h
    | ok s =>
      by_cases hs : s = ""
      · subst hs
        exact iff_of_false nofun fun ⟨_, _, _, h, hne, _⟩ => hne (Except.ok.inj h).symm
      · have hempty : ¬s.isEmpty := mt String.isEmpty_iff.mp hs
        simp only [bind, Except.bind, if_neg hempty]
        constructor
        · rintro ⟨⟩
          exact ⟨t, s, rfl, rfl, hs, rfl⟩
        · rintro ⟨_, _, ⟨⟩, ⟨⟩, -, rfl⟩
          rfl

/-- The value at a position that counts from zero, as a term. -/
def Term.valueAt (values : List String) (position : Int) : Option Term :=
  if position < 0 then none else (values[position.toNat]?).map .ofText

/-- What the function gives for two strings, of which the second is not empty, and an integer. -/
theorem pickPiece_eq {text separator position : Term} {t s : String} {k : Integer}
    (ht : (Value.ofTerm text).text? = some t) (hs : (Value.ofTerm separator).text? = some s) (hne : s ≠ "")
    (hk : position.IsInteger k) : pickPiece [text, separator, position] = Term.valueAt (splitText t s) k.val := by
  have hvalue : Value.ofTerm position = .numeric (.integer k) := hk
  have hempty : ¬s.isEmpty := mt String.isEmpty_iff.mp hne
  simp only [pickPiece, hvalue, ht, hs, Option.bind_eq_bind, Option.bind_some, Term.valueAt]
  by_cases hneg : k.val < 0
  · rw [if_pos (.inr hneg), if_pos hneg]
    rfl
  · rw [if_neg (not_or.mpr ⟨hempty, hneg⟩), if_neg hneg]
    cases (splitText t s)[k.val.toNat]? <;> rfl

/-- The function gives nothing for anything else. -/
theorem pickPiece_eq_none {text separator position : Term}
    (h : ∀ t s k, (Value.ofTerm text).text? = some t → (Value.ofTerm separator).text? = some s →
      position.IsInteger k → s = "") : pickPiece [text, separator, position] = none := by
  rw [pickPiece]
  split
  · next k hk =>
    cases ht : (Value.ofTerm text).text? with
    | none => rfl
    | some t =>
      cases hs : (Value.ofTerm separator).text? with
      | none => rfl
      | some s =>
        obtain rfl := h t s k ht hs hk
        rfl
  · rfl

/-- In particular it gives nothing for documents. -/
theorem pickPiece_eq_none_of_isDocument {text separator : Term} (h : text.IsDocument ∨ separator.IsDocument)
    (position : Term) : pickPiece [text, separator, position] = none := by
  refine pickPiece_eq_none fun t s k ht hs _ => ?_
  rcases h with h | h
  · exact nomatch h.text?_eq_none.symm.trans ht
  · exact nomatch h.text?_eq_none.symm.trans hs

/-! ### The two functions -/

/-- The tuple of a text. -/
def textTuple (value : String) : Tuple := [some (Term.ofText value)]

theorem IteratorFunction.ofPure_eq_ok_iff {name : Iri} {f : List Term → Except ArgumentFault TupleStream}
    {earlier : Nat} {arguments : List Term} {stream : TupleStream} :
    IteratorFunction.ofPure name f earlier arguments = .ok stream ↔ f arguments = .ok stream := by
  unfold IteratorFunction.ofPure
  cases f arguments with
  | error e => exact iff_of_false nofun nofun
  | ok stream' => rw [Except.mapError, Except.ok.injEq, Except.ok.injEq]

/-- The iterator refuses whatever is not a text and a text that is not empty. -/
theorem splitIntoPieces_refuses_iff {text separator : Term} {more : List Term} :
    (∀ stream, splitIntoPieces (text :: separator :: more) ≠ .ok stream) ↔
      ∀ t s, text.IsText t → separator.IsText s → s = "" := by
  constructor
  · intro h t s ht hs
    by_contra hne
    exact h _ (splitIntoPieces_eq_ok_iff.mpr ⟨t, s, ⟨_, rfl, ht⟩, ⟨_, rfl, hs⟩, hne, rfl⟩)
  · rintro h stream hok
    obtain ⟨t, s, ⟨_, ⟨⟩, ht⟩, ⟨_, ⟨⟩, hs⟩, hne, -⟩ := splitIntoPieces_eq_ok_iff.mp hok
    exact hne (h t s ht hs)

/-- **The iterator over pieces and the function that picks one agree on strings.**  Both are registered.  The
iterator takes two texts of which the second is not empty, whatever comes behind them, and refuses anything
else; whatever it refuses, the function fails at.  For two such texts its stream ends behind the tuples of some
values, which joined by the second text give the first, and none of which holds the second.  The function gives
the value at each position, counted from zero, and fails where there is none, exactly if neither text is a
document; if one is, it fails at every position.  It fails at whatever is no integer of 64 bits. -/
theorem Iri.iterSplit_agrees_iff (earlier : Nat) (text separator : Term) (more : List Term) :
    ∃ f g, FunctionRegistry.builtin.iterator? .iterSplit = some f ∧
      FunctionRegistry.builtin.scalar? .splitAtPosition = some g ∧
      ((∀ stream, f earlier (text :: separator :: more) ≠ .ok stream) ↔
        ∀ t s, text.IsText t → separator.IsText s → s = "") ∧
      ((∀ stream, f earlier (text :: separator :: more) ≠ .ok stream) →
        ∀ position, g [text, separator, position] = none) ∧
      (∀ t s, text.IsText t → separator.IsText s → s ≠ "" →
        ∃ stream values batches rest, f earlier (text :: separator :: more) = .ok stream ∧
          stream.Yields batches rest ∧ rest.next = .finished ∧ batches.flatten = values.map textTuple ∧
          s.intercalate values = t ∧ (∀ value ∈ values, ¬s.toList <:+: value.toList) ∧
          ((∀ position k, position.IsInteger k →
              g [text, separator, position] = Term.valueAt values k.val) ↔
            ¬text.IsDocument ∧ ¬separator.IsDocument)) ∧
      (text.IsDocument ∨ separator.IsDocument → ∀ position, g [text, separator, position] = none) ∧
      ∀ position, (∀ k, ¬position.IsInteger k) → g [text, separator, position] = none := by
  refine ⟨_, pickPiece, rfl, rfl, ?_⟩
  simp only [Ne, IteratorFunction.ofPure_eq_ok_iff]
  refine ⟨splitIntoPieces_refuses_iff, fun hrefused position => ?_, fun t s ht hs hne => ?_,
    pickPiece_eq_none_of_isDocument,
    fun position hposition => pickPiece_eq_none fun _ _ k _ _ hk => absurd hk (hposition k)⟩
  · have hempty := splitIntoPieces_refuses_iff.mp hrefused
    exact pickPiece_eq_none fun t s _ ht hs _ => hempty t s (Term.isText_of_text? ht) (Term.isText_of_text? hs)
  · refine ⟨_, splitText t s, _, _, splitIntoPieces_eq_ok_iff.mpr ⟨t, s, ⟨_, rfl, ht⟩, ⟨_, rfl, hs⟩, hne, rfl⟩,
      .batch rfl (.nil _), rfl, List.append_nil _, intercalate_splitText t s,
      fun value => not_infix_of_mem_splitText hne, fun hagree => ?_, fun hplain position k hk => ?_⟩
    · -- a document has a value at position zero, where the function fails
      rw [← not_or]
      intro hdoc
      have hzero := hagree (.ofInt 0) ⟨0, by decide, by decide⟩ (by exact rfl)
      rw [pickPiece_eq_none_of_isDocument hdoc] at hzero
      cases hvalues : splitText t s with
      | nil => exact splitText_ne_nil t s hvalues
      | cons value values =>
        rw [hvalues] at hzero
        cases hzero
    · exact pickPiece_eq (ht.text?_eq_some hplain.1) (hs.text?_eq_some hplain.2) hne hk

/-- Occurrences of "ßß" in a text in English that overlap, adjoin and stand at both ends. -/
def doubled : Term := .literal (.tagged "ßßßaßßßß" "en")

/-- What separates its pieces. -/
def doubledSeparator : Term := .ofText "ßß"

/-- The function gives the pieces of such a text one by one, none of them holding the separator. -/
theorem Iri.doubled_agrees : doubled.IsText "ßßßaßßßß" ∧ doubledSeparator.IsText "ßß" ∧
    ∃ f stream values batches rest, FunctionRegistry.builtin.iterator? .iterSplit = some f ∧
      f 0 [doubled, doubledSeparator] = .ok stream ∧ stream.Yields batches rest ∧ rest.next = .finished ∧
      batches.flatten = values.map textTuple ∧ "ßß".intercalate values = "ßßßaßßßß" ∧
      (∀ value ∈ values, ¬"ßß".toList <:+: value.toList) ∧
      ∀ position k, position.IsInteger k →
        pickPiece [doubled, doubledSeparator, position] = Term.valueAt values k.val := by
  have hplain : (Value.ofTerm doubled).text? = some "ßßßaßßßß" := rfl
  have hplain' : (Value.ofTerm doubledSeparator).text? = some "ßß" := rfl
  have htext := Term.isText_of_text? hplain
  have hseparator := Term.isText_of_text? hplain'
  refine ⟨htext, hseparator, ?_⟩
  obtain ⟨f, g, hf, hg, -, -, hsplit, -⟩ := iterSplit_agrees_iff 0 doubled doubledSeparator []
  cases hg
  obtain ⟨stream, values, batches, rest, hstream, hyields, hrest, hbatches, hjoin, hnone, hpick⟩ :=
    hsplit _ _ htext hseparator (by decide)
  refine ⟨f, stream, values, batches, rest, hf, hstream, hyields, hrest, hbatches, hjoin, hnone, hpick.mpr ?_⟩
  constructor
  · exact fun hdoc => nomatch hdoc.text?_eq_none.symm.trans hplain
  · exact fun hdoc => nomatch hdoc.text?_eq_none.symm.trans hplain'

/-- A document with two pieces. -/
def commaDocument : Term := .literal (.typed "a,b" ⟨"http://www.iana.org/assignments/media-types/text/csv"⟩)

/-- The iterator gives two values for a document, and the function fails at the position of the first. -/
theorem Iri.document_split_not_picked :
    splitIntoPieces [commaDocument, .ofText ","] = .ok (.given [[textTuple "a", textTuple "b"]] .finished) ∧
      Term.valueAt ["a", "b"] 0 = some (.ofText "a") ∧
      pickPiece [commaDocument, .ofText ",", .ofInt 0] = none := by
  have hdoc : commaDocument.IsDocument := ⟨_, rfl, by decide⟩
  have htext : commaDocument.IsText "a,b" := .document (by decide)
  have hcomma : (Term.ofText ",").IsText "," := Term.isText_of_text? rfl
  have hpieces : splitText "a,b" "," = ["a", "b"] := by decide +kernel
  refine ⟨splitIntoPieces_eq_ok_iff.mpr ⟨_, _, ⟨_, rfl, htext⟩, ⟨_, rfl, hcomma⟩, by decide, ?_⟩, rfl, ?_⟩
  · rw [hpieces]
    rfl
  · exact pickPiece_eq_none_of_isDocument (.inl hdoc) _

end TripleLoom
