import Mathlib.Data.List.Infix
import TripleLoom.Proofs.Expression.Strings

/-!
# TripleLoom.Proofs.Expression.Searching — looking for one string in another

`CONTAINS`, `STRSTARTS`, `STRENDS`, `STRBEFORE` and `STRAFTER` take two strings of which the second has no
language or that of the first.  `STRBEFORE` and `STRAFTER` cut the first string at the first place where the
second occurs (`Text.IsFirstCut`), and the other three tell whether it occurs, occurs in front or occurs at the
end.  So the five agree (`Expression.searches_agree`).
-/

namespace TripleLoom

/-! ### The first occurrence -/

namespace Text

variable {α : Type} {needle s front back : List α}

/-- A text is cut around a needle, and the needle occurs nowhere before. -/
structure IsFirstCut (needle s front back : List α) : Prop where
  joined : front ++ needle ++ back = s
  first : ∀ front' back' : List α, front' ++ needle ++ back' = s → front.length ≤ front'.length

theorem IsFirstCut.unique {front' back' : List α} (h : IsFirstCut needle s front back)
    (h' : IsFirstCut needle s front' back') : front = front' ∧ back = back' := by
  have hlength : front.length = front'.length := Nat.le_antisymm (h.first _ _ h'.joined) (h'.first _ _ h.joined)
  have heq := h.joined.trans h'.joined.symm
  rw [List.append_assoc, List.append_assoc] at heq
  obtain ⟨rfl, hrest⟩ := List.append_inj heq hlength
  exact ⟨rfl, List.append_cancel_left hrest⟩

/-- A needle that a text starts with is found there. -/
theorem isFirstCut_nil_iff : IsFirstCut needle s [] back ↔ needle ++ back = s :=
  ⟨fun h => h.joined, fun h => ⟨h, fun _ _ _ => Nat.zero_le _⟩⟩

/-- A needle that a text does not start with is found in the rest. -/
theorem isFirstCut_cons_iff {c : α} (h : ¬needle <+: c :: s) :
    IsFirstCut needle (c :: s) (c :: front) back ↔ IsFirstCut needle s front back := by
  constructor
  · rintro ⟨hjoined, hfirst⟩
    refine ⟨(List.cons.inj hjoined).2, fun front' back' h' => ?_⟩
    exact Nat.le_of_succ_le_succ (hfirst (c :: front') back' (congrArg (c :: ·) h'))
  · rintro ⟨hjoined, hfirst⟩
    refine ⟨congrArg (c :: ·) hjoined, fun front' back' h' => ?_⟩
    cases front' with
    | nil => exact absurd ⟨back', h'⟩ h
    | cons c' front' =>
      exact Nat.succ_le_succ (hfirst front' back' (List.cons.inj h').2)

/-- A text starts with a needle exactly if it is found with nothing before it. -/
theorem IsFirstCut.prefix_iff (h : IsFirstCut needle s front back) : needle <+: s ↔ front = [] := by
  constructor
  · rintro ⟨rest, hrest⟩
    exact List.length_eq_zero_iff.mp (Nat.le_zero.mp (h.first [] rest hrest))
  · rintro rfl
    exact ⟨back, h.joined⟩

variable [BEq α] [LawfulBEq α]

theorem not_prefix_of_isPrefixOf? (h : needle.isPrefixOf? s = none) : ¬needle <+: s := by
  rintro ⟨after, hafter⟩
  exact nomatch h.symm.trans (List.isPrefixOf?_eq_some_iff_append_eq.mpr hafter)

/-- A text is cut at the first occurrence. -/
theorem cut?_eq_some_iff : cut? needle s = some (front, back) ↔ IsFirstCut needle s front back := by
  induction s generalizing front with
  | nil =>
    rw [cut?]
    constructor
    · intro h
      split at h
      · next hneedle =>
        cases h
        exact isFirstCut_nil_iff.mpr ((List.append_nil needle).trans (List.isEmpty_iff.mp hneedle))
      · cases h
    · intro h
      obtain ⟨hfront, rfl⟩ := List.append_eq_nil_iff.mp h.joined
      obtain ⟨rfl, rfl⟩ := List.append_eq_nil_iff.mp hfront
      rfl
  | cons c s ih =>
    rw [cut?]
    split
    · next after hprefix =>
      -- the needle is in front, and no other cut comes first
      have hcut := isFirstCut_nil_iff.mpr (List.isPrefixOf?_eq_some_iff_append_eq.mp hprefix)
      constructor
      · rintro ⟨⟩
        exact hcut
      · intro h
        obtain ⟨rfl, rfl⟩ := hcut.unique h
        rfl
    · next hprefix =>
      -- any cut is behind the first character, so it is one of the rest
      have hnot := not_prefix_of_isPrefixOf? hprefix
      rw [Option.map_eq_some_iff]
      constructor
      · rintro ⟨⟨front, back⟩, hrest, ⟨⟩⟩
        exact (isFirstCut_cons_iff hnot).mpr (ih.mp hrest)
      · intro h
        cases front with
        | nil => exact absurd ⟨back, h.joined⟩ hnot
        | cons c' front =>
          obtain ⟨rfl, -⟩ := List.cons.inj h.joined
          exact ⟨(front, back), ih.mpr ((isFirstCut_cons_iff hnot).mp h), rfl⟩

/-- A needle is found exactly if it occurs. -/
theorem contains_iff : contains needle s ↔ needle <:+: s := by
  induction s with
  | nil => cases needle <;> simp [contains, cut?]
  | cons c s ih =>
    rw [List.infix_cons_iff, ← ih, contains, cut?, contains]
    split
    · next after hprefix =>
      exact iff_of_true rfl (.inl ⟨after, List.isPrefixOf?_eq_some_iff_append_eq.mp hprefix⟩)
    · next hprefix =>
      have hnot := not_prefix_of_isPrefixOf? hprefix
      rw [Option.isSome_map, or_iff_right hnot]

theorem exists_isFirstCut (h : needle <:+: s) : ∃ front back, IsFirstCut needle s front back := by
  obtain ⟨⟨front, back⟩, hcut⟩ := Option.isSome_iff_exists.mp (contains_iff.mpr h)
  exact ⟨front, back, cut?_eq_some_iff.mp hcut⟩

end Text

/-! ### Searching strings -/

namespace StringLiteral

/-- What the five functions tell of a string and a needle: whether the needle occurs, whether it occurs in
front and at the end, and the parts of the string before and behind it. -/
structure Searched (s needle : StringLiteral) (found begins ends : Bool) (before after : StringLiteral) :
    Prop where
  found_iff : found ↔ needle.text <:+: s.text
  begins_iff : begins ↔ needle.text <+: s.text
  ends_iff : ends ↔ needle.text <:+ s.text
  joined : found → before.text ++ needle.text ++ after.text = s.text
  languages : found → before.language = s.language ∧ after.language = s.language
  first : found → ∀ front back, front ++ needle.text ++ back = s.text → before.text.length ≤ front.length
  missing : ¬found → before = ⟨[], none⟩ ∧ after = ⟨[], none⟩
  begins_iff_before : begins ↔ found ∧ before.text = []
  found_of_ends : ends → found

variable {s : StringLiteral} {needle front back : List Char}

/-- A needle that occurs cuts the string in two. -/
theorem exists_cut (h : Text.contains needle s.text) : ∃ front back, Text.IsFirstCut needle s.text front back ∧
    s.before needle = s.withText front ∧ s.after needle = s.withText back := by
  obtain ⟨front, back, hcut⟩ := Text.exists_isFirstCut (Text.contains_iff.mp h)
  refine ⟨front, back, hcut, ?_, ?_⟩
  · rw [before, Text.cut?_eq_some_iff.mpr hcut]
  · rw [after, Text.cut?_eq_some_iff.mpr hcut]

theorem before_after_of_not_contains (h : ¬Text.contains needle s.text) :
    s.before needle = ⟨[], none⟩ ∧ s.after needle = ⟨[], none⟩ := by
  have hnone : Text.cut? needle s.text = none := Option.not_isSome_iff_eq_none.mp h
  rw [before, after, hnone]
  exact ⟨rfl, rfl⟩

/-- A string is searched as the functions say. -/
theorem searched (s needle : StringLiteral) :
    s.Searched needle (Text.contains needle.text s.text) (needle.text.isPrefixOf s.text)
      (needle.text.isSuffixOf s.text) (s.before needle.text) (s.after needle.text) where
  found_iff := Text.contains_iff
  begins_iff := List.isPrefixOf_iff_prefix
  ends_iff := List.isSuffixOf_iff_suffix
  joined hfound := by
    obtain ⟨front, back, hcut, hbefore, hafter⟩ := exists_cut hfound
    rw [hbefore, hafter]
    exact hcut.joined
  languages hfound := by
    obtain ⟨front, back, -, hbefore, hafter⟩ := exists_cut hfound
    rw [hbefore, hafter]
    exact ⟨rfl, rfl⟩
  first hfound := by
    obtain ⟨front, back, hcut, hbefore, -⟩ := exists_cut hfound
    rw [hbefore]
    exact hcut.first
  missing hmissing := before_after_of_not_contains hmissing
  begins_iff_before := by
    rw [List.isPrefixOf_iff_prefix]
    constructor
    · intro hprefix
      have hfound := Text.contains_iff.mpr hprefix.isInfix
      obtain ⟨front, back, hcut, hbefore, -⟩ := exists_cut hfound
      rw [hbefore]
      exact ⟨hfound, hcut.prefix_iff.mp hprefix⟩
    · rintro ⟨hfound, hnil⟩
      obtain ⟨front, back, hcut, hbefore, -⟩ := exists_cut hfound
      rw [hbefore] at hnil
      exact hcut.prefix_iff.mpr hnil
  found_of_ends hends := Text.contains_iff.mpr (List.isSuffixOf_iff_suffix.mp hends).isInfix

/-- The needles that a string may be searched for. -/
theorem isCompatible_iff {s needle : StringLiteral} :
    s.isCompatible needle ↔ needle.language = none ∨ needle.language = s.language := by
  rw [isCompatible, Bool.or_eq_true, Option.isNone_iff_eq_none, beq_iff_eq, eq_comm (a := s.language)]

end StringLiteral

/-! ### Expressions -/

/-- A function of two compatible strings gives something exactly if its operands are such strings. -/
theorem Eval.run_searching_eq_some_iff {a b : Eval Term} {f : StringLiteral → List Char → Term} {t : Term}
    {before after : Scopes} : (searching a b f).run before = (some t, after) ↔
      ∃ s needle between, (string a).run before = (some s, between) ∧
        (string b).run between = (some needle, after) ∧ s.isCompatible needle ∧ f s needle.text = t := by
  rw [searching, run_bind_eq_some_iff]
  refine exists_congr fun s => ?_
  simp only [run_bind_eq_some_iff]
  constructor
  · rintro ⟨between, hs, needle, later, hneedle, h⟩
    split at h
    · next hcompatible =>
      cases h
      exact ⟨needle, between, hs, hneedle, hcompatible, rfl⟩
    · cases h
  · rintro ⟨needle, between, hs, hneedle, hcompatible, rfl⟩
    refine ⟨between, hs, needle, after, hneedle, ?_⟩
    rw [if_pos hcompatible]
    rfl

namespace Expression

/-- The functions that look for one string in another. -/
def searchFunctions : List Builtin := [.contains, .strStarts, .strEnds, .strBefore, .strAfter]

/-- The call of a function of two strings. -/
def search (f : Builtin) (e e' : Expression) : Expression := call (.builtin f) [e, e']

variable {c : EvalContext} {σ : Solution} {e e' : Expression} {s needle : StringLiteral}
  {before after : Scopes}

theorem eval_search (f : Builtin) : (search f e e').eval c σ =
    f.apply c.base c.scope [e.eval c σ, e'.eval c σ] := rfl

theorem giveStrings_pair_iff : GiveStrings c σ [e, e'] before [s, needle] after ↔
    ∃ between, (Eval.string (e.eval c σ)).run before = (some s, between) ∧
      (Eval.string (e'.eval c σ)).run between = (some needle, after) := by
  constructor
  · rintro (_ | ⟨he, _ | ⟨he', ⟨⟩⟩⟩)
    exact ⟨_, givesString_iff.mp he, givesString_iff.mp he'⟩
  · rintro ⟨between, he, he'⟩
    exact .cons (givesString_iff.mpr he) (.cons (givesString_iff.mpr he') (.nil after))

/-- What a function of two compatible strings gives. -/
theorem run_searching (h : GiveStrings c σ [e, e'] before [s, needle] after) (hn : s.isCompatible needle)
    (f : StringLiteral → List Char → Term) :
    (Eval.searching (e.eval c σ) (e'.eval c σ) f).run before = (some (f s needle.text), after) := by
  obtain ⟨between, hs, hneedle⟩ := giveStrings_pair_iff.mp h
  exact Eval.run_searching_eq_some_iff.mpr ⟨s, needle, between, hs, hneedle, hn, rfl⟩

/-- Without compatible strings there is nothing. -/
theorem run_search_eq_none {f : Builtin} (hf : f ∈ searchFunctions)
    (h : ∀ s needle after, GiveStrings c σ [e, e'] before [s, needle] after → ¬s.isCompatible needle) :
    (((search f e e').eval c σ).run before).1 = none := by
  obtain ⟨g, hg⟩ : ∃ g, (search f e e').eval c σ = Eval.searching (e.eval c σ) (e'.eval c σ) g := by
    simp only [searchFunctions, List.mem_cons, List.not_mem_nil, or_false] at hf
    rcases hf with rfl | rfl | rfl | rfl | rfl <;> exact ⟨_, by rw [eval_search, Builtin.apply]⟩
  rw [hg]
  rcases hrun : (Eval.searching (e.eval c σ) (e'.eval c σ) g).run before with ⟨_ | t, after⟩
  · rfl
  · obtain ⟨s, needle, between, hs, hneedle, hcompatible, -⟩ := Eval.run_searching_eq_some_iff.mp hrun
    exact absurd hcompatible (h s needle after (giveStrings_pair_iff.mpr ⟨between, hs, hneedle⟩))

/-- **The string search functions agree.**  Take two expressions that give strings of which the second has no
language or that of the first.  `CONTAINS` tells whether the second occurs in the first.  If so, `STRBEFORE`,
the second and `STRAFTER` make up the first, `STRBEFORE` and `STRAFTER` have its language, and the second
occurs nowhere before the end of `STRBEFORE`; if not, both are the empty string without language.
`STRSTARTS` is true exactly if `CONTAINS` is and nothing is before, and `STRENDS` only if `CONTAINS` is.  Of
any other two expressions all five functions fail. -/
theorem searches_agree (c : EvalContext) (σ : Solution) (e e' : Expression) (before : Scopes) :
    (∀ {s needle : StringLiteral} {after : Scopes}, GiveStrings c σ [e, e'] before [s, needle] after →
      needle.language = none ∨ needle.language = s.language →
      ∃ found begins ends front back, s.Searched needle found begins ends front back ∧
        ((search .contains e e').eval c σ).run before = (some (.ofBool found), after) ∧
        ((search .strStarts e e').eval c σ).run before = (some (.ofBool begins), after) ∧
        ((search .strEnds e e').eval c σ).run before = (some (.ofBool ends), after) ∧
        ((search .strBefore e e').eval c σ).run before = (some front.toTerm, after) ∧
        ((search .strAfter e e').eval c σ).run before = (some back.toTerm, after)) ∧
    ((∀ s needle after, GiveStrings c σ [e, e'] before [s, needle] after →
        ¬(needle.language = none ∨ needle.language = s.language)) →
      ∀ f ∈ searchFunctions, (((search f e e').eval c σ).run before).1 = none) := by
  constructor
  · intro s needle after h hcompatible
    have hrun := run_searching h (StringLiteral.isCompatible_iff.mpr hcompatible)
    simp only [eval_search, Builtin.apply, hrun]
    exact ⟨_, _, _, _, _, s.searched needle, rfl, rfl, rfl, rfl, rfl⟩
  · intro h f hf
    exact run_search_eq_none hf fun s needle after hs =>
      mt StringLiteral.isCompatible_iff.mp (h s needle after hs)

/-- A string with two occurrences of "€ß€" that overlap. -/
def overlapping : Expression := .literal (.tagged "a€ß€ß€" "de")

/-- What occurs in it twice. -/
def repeated : Expression := .literal (.tagged "€ß€" "de")

/-- It is cut in two around an occurrence.  A needle with a language is not looked for in a string without. -/
theorem overlapping_searches_agree :
    (∃ front back : StringLiteral, front.text ++ "€ß€".toList ++ back.text = "a€ß€ß€".toList ∧
      front.text.length ≤ 1 ∧ front.language = some "de" ∧ back.language = some "de" ∧
      ((search .strBefore overlapping repeated).eval ⟨.empty, none, 0⟩ .empty).run .empty =
        (some front.toTerm, .empty) ∧
      ((search .strAfter overlapping repeated).eval ⟨.empty, none, 0⟩ .empty).run .empty =
        (some back.toTerm, .empty)) ∧
    ∀ f ∈ searchFunctions, (((search f (.literal (.simple "a€ß€ß€")) repeated).eval
      ⟨.empty, none, 0⟩ .empty).run .empty).1 = none := by
  have hrepeated : GiveStrings ⟨.empty, none, 0⟩ .empty [repeated] .empty [⟨"€ß€".toList, some "de"⟩] .empty :=
    .cons ⟨_, rfl, .tagged _ _⟩ (.nil _)
  constructor
  · obtain ⟨found, begins, ends, front, back, hsearched, -, -, -, hbefore, hafter⟩ :=
      (searches_agree ⟨.empty, none, 0⟩ .empty overlapping repeated .empty).1
        (.cons ⟨_, rfl, .tagged _ _⟩ hrepeated) (.inr rfl)
    have hfound := hsearched.found_iff.mpr ⟨['a'], ['ß', '€'], by decide⟩
    obtain ⟨hfront, hback⟩ := hsearched.languages hfound
    have hfirst := hsearched.first hfound ['a'] ['ß', '€'] (by decide)
    exact ⟨front, back, hsearched.joined hfound, hfirst, hfront, hback, hbefore, hafter⟩
  · refine (searches_agree ⟨.empty, none, 0⟩ .empty _ repeated .empty).2 ?_
    rintro s needle after (_ | ⟨⟨_, ⟨⟩, ⟨⟩⟩, _ | ⟨⟨_, ⟨⟩, hneedle⟩, -⟩⟩)
    cases hneedle with
    | plain h => exact absurd h (by decide)
    | tagged => decide

end Expression

end TripleLoom
