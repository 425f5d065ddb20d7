import TripleLoom.Function.Library
import TripleLoom.Proofs.Value.Canonical

/-!
# TripleLoom.Proofs.Expression.Substrings — the characters that `SUBSTR` keeps

Positions count the characters of a string from one.  `SUBSTR` adds its two numbers in the 64-bit range and
stops at the bounds of it, but no character stands that far behind, so it keeps the characters at the
positions between the start and the unbounded sum, whatever the numbers are.  A string that is cut in two is
put together again by `CONCAT`, and `STRLEN` of it is the sum of those of the parts
(`Expression.substr_keeps_positions`).
-/

namespace TripleLoom

/-! ### Saturating sums -/

namespace Bounded

variable {bits : Nat} {a b : Bounded bits}

theorem clamp_val {n : Int} (h : Fits bits n) : (clamp n : Bounded bits).val = n := by
  obtain ⟨hlower, hupper⟩ := h
  show max _ (min n _) = n
  omega

theorem saturatingAdd_val (h : Fits bits (a.val + b.val)) : (a.saturatingAdd b).val = a.val + b.val :=
  clamp_val h

/-- What has a successor in the range is below the saturating sum exactly if it is below the sum. -/
theorem lt_saturatingAdd_iff {p : Int} (h : Fits bits p) (h' : Fits bits (p + 1)) :
    p < (a.saturatingAdd b).val ↔ p < a.val + b.val := by
  obtain ⟨hlower, -⟩ := h
  obtain ⟨-, hupper⟩ := h'
  show p < max _ (min (a.val + b.val) _) ↔ _
  omega

end Bounded

/-! ### Characters by their positions -/

namespace Text

/-- The characters of a text at the positions that a condition picks.  The first one has the given
position. -/
def pick (picks : Int → Prop) [DecidablePred picks] (first : Nat) (text : List Char) : List Char :=
  ((text.zipIdx first).filter fun entry => picks entry.2).map Prod.fst

variable {picks picks' : Int → Prop} [DecidablePred picks] [DecidablePred picks'] {first : Nat}
  {text : List Char}

theorem pick_cons (c : Char) : pick picks first (c :: text) =
    if picks first then c :: pick picks (first + 1) text else pick picks (first + 1) text := by
  rw [pick, List.zipIdx_cons, List.filter_cons]
  simp only [decide_eq_true_eq]
  split <;> rfl

/-- Only the positions of the text matter. -/
theorem pick_congr (h : ∀ p : Nat, first ≤ p → p < first + text.length → (picks p ↔ picks' p)) :
    pick picks first text = pick picks' first text := by
  refine congrArg _ (List.filter_congr fun entry hentry => decide_eq_decide.mpr ?_)
  obtain ⟨hfirst, hlast, -⟩ := List.mem_zipIdx hentry
  exact h entry.2 hfirst hlast

theorem pick_eq_self (h : ∀ p : Nat, first ≤ p → picks p) : pick picks first text = text := by
  induction text generalizing first with
  | nil => rfl
  | cons c text ih => rw [pick_cons, if_pos (h first le_rfl), ih fun p hp => h p (Nat.le_of_succ_le hp)]

theorem pick_eq_nil (h : ∀ p : Nat, first ≤ p → ¬picks p) : pick picks first text = [] := by
  induction text generalizing first with
  | nil => rfl
  | cons c text ih => rw [pick_cons, if_neg (h first le_rfl), ih fun p hp => h p (Nat.le_of_succ_le hp)]

/-- The characters before a position and those from it on make up the text. -/
theorem pick_before_append_pick_from (stop : Int) (first : Nat) (text : List Char) :
    pick (· < stop) first text ++ pick (stop ≤ ·) first text = text := by
  induction text generalizing first with
  | nil => rfl
  | cons c text ih =>
    by_cases hfirst : (first : Int) < stop
    · rw [pick_cons, if_pos hfirst, pick_cons, if_neg (not_le.mpr hfirst), List.cons_append, ih]
    · -- the cut is in front of the text
      have hlate : ∀ p : Nat, first ≤ p → stop ≤ (p : Int) := by omega
      have hnone : pick (· < stop) first (c :: text) = [] := pick_eq_nil fun p hp => not_lt.mpr (hlate p hp)
      rw [hnone, pick_eq_self hlate, List.nil_append]

end Text

namespace StringLiteral

/-- The slices of a text by its positions. -/
theorem slice_eq_pick (start : Int) (stop : Option Int) (first : Nat) (text : List Char) :
    slice start stop first text = Text.pick (fun p => start ≤ p ∧ stop.all (p < ·)) first text := by
  induction text generalizing first with
  | nil => rfl
  | cons c text ih =>
    rw [slice, Text.pick_cons, ← ih]
    push_cast
    rfl

variable {s : StringLiteral} {start length : Integer}

/-- A condition that picks the positions of a string between the bounds of a substring picks that. -/
theorem substring_eq_withText_pick {length : Option Integer} {picks : Int → Prop} [DecidablePred picks]
    (h : ∀ p : Nat, 1 ≤ p → p < 1 + s.text.length →
      (start.val ≤ p ∧ (length.map fun length => (start.saturatingAdd length).val).all ((p : Int) < ·) ↔
        picks p)) :
    s.substring start length = s.withText (Text.pick picks 1 s.text) :=
  congrArg s.withText ((slice_eq_pick _ _ 1 _).trans (Text.pick_congr h))

theorem substring_from (s : StringLiteral) (start : Integer) :
    s.substring start none = s.withText (Text.pick (start.val ≤ ·) 1 s.text) :=
  substring_eq_withText_pick fun p _ _ => by simp

theorem substring_between (h : Bounded.Fits 64 (s.text.length + 1)) : s.substring start (some length) =
    s.withText (Text.pick (fun p => start.val ≤ p ∧ p < start.val + length.val) 1 s.text) := by
  refine substring_eq_withText_pick fun p hfirst hlast => ?_
  have hp : Bounded.Fits 64 p ∧ Bounded.Fits 64 (p + 1) := by
    obtain ⟨hlower, hupper⟩ := h
    refine ⟨⟨?_, ?_⟩, ?_, ?_⟩ <;> omega
  simp only [Option.map_some, Option.all_some, decide_eq_true_eq, Bounded.lt_saturatingAdd_iff hp.1 hp.2]

/-- The part of some length in front of the next position, however long the string is. -/
theorem substring_first {next : Integer} (hnext : next.val = length.val + 1) :
    s.substring .one (some length) = s.withText (Text.pick (· < next.val) 1 s.text) := by
  refine substring_eq_withText_pick fun p hfirst _ => ?_
  have hone : Integer.one.val = 1 := rfl
  have hsum : Integer.one.val + length.val = next.val := by omega
  have hfits : Bounded.Fits 64 (Integer.one.val + length.val) := hsum ▸ ⟨next.lower, next.upper⟩
  simp only [Option.map_some, Option.all_some, decide_eq_true_eq, Bounded.saturatingAdd_val hfits, hsum]
  omega

/-- Parts of one string are put together in its language. -/
theorem concat_withText (s : StringLiteral) (a b : List Char) :
    concat [s.withText a, s.withText b] = s.withText (a ++ b) := by
  simp [concat, commonLanguage, withText]

end StringLiteral

/-! ### Expressions -/

/-- The canonical literal of a natural number. -/
theorem Numeric.toLiteral_of_val {n : Integer} {m : Nat} (h : n.val = m) :
    .literal (integer n).toLiteral = Term.ofInt m := by
  have htext : n.display = toString (m : Int) := by
    rw [Integer.display, h, showInteger, if_neg (by omega), Int.natAbs_natCast]
    exact Nat.toString_eq_ofList_toDigits.symm
  rw [Term.ofInt, ← htext]
  rfl

/-- Whether an expression gives a term that is read as an integer. -/
def Expression.IsInteger (c : EvalContext) (σ : Solution) (e : Expression) (n : Integer) : Prop :=
  ∃ t, e.eval c σ = pure t ∧ Value.ofTerm t = .numeric (.integer n)

namespace Eval

theorem string_toTerm (s : StringLiteral) : string (pure s.toTerm) = pure s := by
  obtain ⟨text, _ | language⟩ := s
  · show (pure ⟨(String.ofList text).toList, none⟩ : Eval StringLiteral) = _
    rw [String.toList_ofList]
  · show (pure ⟨(String.ofList text).toList, some language⟩ : Eval StringLiteral) = _
    rw [String.toList_ofList]

theorem numeric_of_ofTerm {t : Term} {n : Numeric} (h : Value.ofTerm t = .numeric n) :
    numeric (pure t) = pure n := by
  rw [numeric, value, pure_bind, pure_bind, h]

end Eval

namespace Expression

variable {c : EvalContext} {σ : Solution} {e e' : Expression} {s : StringLiteral} {i j n : Integer}

theorem IsInteger.numeric_eval (h : e.IsInteger c σ n) : Eval.numeric (e.eval c σ) = pure (.integer n) := by
  obtain ⟨t, ht, hvalue⟩ := h
  rw [ht, Eval.numeric_of_ofTerm hvalue]

theorem IsInteger.integer_eval (h : e.IsInteger c σ n) : Eval.integer (e.eval c σ) = pure n := by
  rw [Eval.integer, h.numeric_eval, pure_bind]

/-- The canonical literal of an integer gives it. -/
theorem isInteger_of_eval (h : e.eval c σ = pure (.literal (Numeric.integer n).toLiteral)) :
    e.IsInteger c σ n :=
  ⟨_, h, (Numeric.HasValue.integer n).ofTerm_toLiteral⟩

/-- The sum of two integers that is in the range. -/
theorem eval_add (he : e.IsInteger c σ i) (he' : e'.IsInteger c σ j) (hn : n.val = i.val + j.val) :
    (binary .add e e').eval c σ = pure (.literal (Numeric.integer n).toLiteral) := by
  have hadd : (Numeric.integer i).add? (.integer j) = some (.integer n) :=
    congrArg (Option.map Numeric.integer) (Bounded.ofInt?_eq_some_iff.mpr hn)
  show Eval.arithmetic (e.eval c σ) (e'.eval c σ) Numeric.add? = _
  rw [Eval.arithmetic, he.numeric_eval, he'.numeric_eval, pure_bind, pure_bind, hadd]
  rfl

/-- The part of a string. -/
def substr (e : Expression) (positions : List Expression) : Expression :=
  call (.builtin .substr) (e :: positions)

/-- Strings put together. -/
def concat (es : List Expression) : Expression := call (.builtin .concat) es

/-- The length of a string. -/
def strLen (e : Expression) : Expression := call (.builtin .strLen) [e]

theorem eval_substr_from (he : e.eval c σ = pure s.toTerm) (hstart : e'.IsInteger c σ i) :
    (e.substr [e']).eval c σ = pure (s.substring i none).toTerm := by
  show (do
    let source ← Eval.string (e.eval c σ)
    return (source.substring (← Eval.integer (e'.eval c σ)) none).toTerm) = _
  rw [he, Eval.string_toTerm, hstart.integer_eval, pure_bind, pure_bind]

theorem eval_substr {start length : Expression} (he : e.eval c σ = pure s.toTerm)
    (hstart : start.IsInteger c σ i) (hlength : length.IsInteger c σ j) :
    (e.substr [start, length]).eval c σ = pure (s.substring i (some j)).toTerm := by
  show (do
    let source ← Eval.string (e.eval c σ)
    let start ← Eval.integer (start.eval c σ)
    return (source.substring start (some (← Eval.integer (length.eval c σ)))).toTerm) = _
  rw [he, Eval.string_toTerm, hstart.integer_eval, hlength.integer_eval, pure_bind, pure_bind, pure_bind]

theorem eval_concat {s' : StringLiteral} (he : e.eval c σ = pure s.toTerm)
    (he' : e'.eval c σ = pure s'.toTerm) :
    (concat [e, e']).eval c σ = pure (StringLiteral.concat [s, s']).toTerm := by
  show (do
    return (StringLiteral.concat (← Eval.each Eval.string [e.eval c σ, e'.eval c σ])).toTerm) = _
  rw [he, he', Eval.each, Eval.each, Eval.each, Eval.string_toTerm, Eval.string_toTerm]
  rfl

theorem eval_strLen (he : e.eval c σ = pure s.toTerm) :
    e.strLen.eval c σ = pure (.ofInt s.text.length) := by
  show (do return Term.ofInt (← Eval.string (e.eval c σ)).text.length) = _
  rw [he, Eval.string_toTerm, pure_bind]

/-- A length in the range is given as its canonical literal. -/
theorem eval_strLen_of_val (he : e.eval c σ = pure s.toTerm) (hn : n.val = s.text.length) :
    e.strLen.eval c σ = pure (.literal (Numeric.integer n).toLiteral) := by
  rw [eval_strLen he, Numeric.toLiteral_of_val hn]

/-- Where the length of a string is in the range, it is the sum of the lengths of two parts that make up the
string. -/
theorem eval_add_strLen {a b : StringLiteral} (hs : e.eval c σ = pure s.toTerm)
    {first second : Expression} (ha : first.eval c σ = pure a.toTerm) (hb : second.eval c σ = pure b.toTerm)
    (hparts : a.text ++ b.text = s.text) (hfits : Bounded.Fits 64 s.text.length) :
    (binary .add first.strLen second.strLen).eval c σ = e.strLen.eval c σ := by
  obtain ⟨hlower, hupper⟩ := hfits
  have hlength : s.text.length = a.text.length + b.text.length := by rw [← hparts, List.length_append]
  let i : Integer := ⟨a.text.length, by omega, by omega⟩
  let j : Integer := ⟨b.text.length, by omega, by omega⟩
  let n : Integer := ⟨s.text.length, hlower, hupper⟩
  have hn : n.val = i.val + j.val := by
    show (s.text.length : Int) = a.text.length + b.text.length
    exact_mod_cast hlength
  have hi := isInteger_of_eval (eval_strLen_of_val (n := i) ha rfl)
  have hj := isInteger_of_eval (eval_strLen_of_val (n := j) hb rfl)
  rw [eval_add hi hj hn, eval_strLen_of_val (n := n) hs rfl]

/-- **`SUBSTR` keeps the characters at the positions that it is given.**  Take an expression that gives a
string, with a language or without.  From a start on, `SUBSTR` keeps the characters whose position, counted
from one, is not before it; with a length it keeps of these the ones before the sum of start and length, as
unbounded integers.  The language stays.  The end saturates, so the latter is said of strings whose positions,
with the one behind the last, are in the 64-bit range, as they are for any string that fits into memory.  And
for every length that has a successor in the range, `CONCAT` of the part of that length and of the part from
the successor on is the string again, and the `STRLEN` of the two add up to its own. -/
theorem substr_keeps_positions (he : e.eval c σ = pure s.toTerm) :
    (∀ {start : Expression} {i : Integer}, start.IsInteger c σ i →
      (e.substr [start]).eval c σ = pure (s.withText (Text.pick (i.val ≤ ·) 1 s.text)).toTerm) ∧
    (Bounded.Fits 64 (s.text.length + 1) → ∀ {start length : Expression} {i n : Integer},
      start.IsInteger c σ i → length.IsInteger c σ n →
      (e.substr [start, length]).eval c σ =
        pure (s.withText (Text.pick (fun p => i.val ≤ p ∧ p < i.val + n.val) 1 s.text)).toTerm) ∧
    ∀ {one length next : Expression} {k k' : Integer}, one.IsInteger c σ .one → length.IsInteger c σ k →
      next.IsInteger c σ k' → k'.val = k.val + 1 →
      (concat [e.substr [one, length], e.substr [next]]).eval c σ = pure s.toTerm ∧
      (Bounded.Fits 64 s.text.length →
        (binary .add (e.substr [one, length]).strLen (e.substr [next]).strLen).eval c σ =
          e.strLen.eval c σ) := by
  refine ⟨fun hstart => ?_, fun hfits _ _ _ _ hstart hlength => ?_, fun {_ _ _ _ k'} hone hlength hnext hk => ?_⟩
  · rw [eval_substr_from he hstart, StringLiteral.substring_from]
  · rw [eval_substr he hstart hlength, StringLiteral.substring_between hfits]
  · have hfirst := eval_substr he hone hlength
    have hrest := eval_substr_from he hnext
    rw [StringLiteral.substring_first hk] at hfirst
    rw [StringLiteral.substring_from] at hrest
    have hparts := Text.pick_before_append_pick_from k'.val 1 s.text
    refine ⟨?_, eval_add_strLen he hfirst hrest hparts⟩
    rw [eval_concat hfirst hrest, StringLiteral.concat_withText, hparts]
    rfl

/-- An integer by its canonical literal. -/
def ofInteger (n : Integer) : Expression := .literal (Numeric.integer n).toLiteral

theorem isInteger_ofInteger (c : EvalContext) (σ : Solution) (n : Integer) :
    (ofInteger n).IsInteger c σ n :=
  isInteger_of_eval rfl

/-- Characters of one to four bytes, with a language. -/
def fourWidths : Expression := .literal (.tagged "zß€𝄞" "de")

/-- The greatest integer of the range. -/
def greatest : Integer := ⟨9223372036854775807, by decide, by decide⟩

/-- The greatest one that has a successor in it. -/
def nextToGreatest : Integer := ⟨9223372036854775806, by decide, by decide⟩

/-- The string up to this position. -/
def wholeFront : Expression := fourWidths.substr [ofInteger .one, ofInteger nextToGreatest]

/-- The string from the position behind it on. -/
def emptyBack : Expression :=
  fourWidths.substr [.binary .add (ofInteger nextToGreatest) (ofInteger .one)]

/-- A length that goes beyond the range keeps all that is behind the start, and a start in front of the string
takes off of the length.  The string is put together again when it is cut far behind its end. -/
theorem fourWidths_substr_keeps_positions :
    (fourWidths.substr [ofInteger ⟨2, by decide, by decide⟩, ofInteger greatest]).eval
      ⟨.empty, none, 0⟩ .empty = pure (.literal (.tagged "ß€𝄞" "de")) ∧
    (fourWidths.substr [ofInteger ⟨-1, by decide, by decide⟩, ofInteger ⟨4, by decide, by decide⟩]).eval
      ⟨.empty, none, 0⟩ .empty = pure (.literal (.tagged "zß" "de")) ∧
    (fourWidths.substr [ofInteger ⟨4, by decide, by decide⟩]).eval ⟨.empty, none, 0⟩ .empty =
      pure (.literal (.tagged "𝄞" "de")) ∧
    (concat [wholeFront, emptyBack]).eval ⟨.empty, none, 0⟩ .empty =
      pure (.literal (.tagged "zß€𝄞" "de")) ∧
    (binary .add wholeFront.strLen emptyBack.strLen).eval ⟨.empty, none, 0⟩ .empty =
      fourWidths.strLen.eval ⟨.empty, none, 0⟩ .empty := by
  have hstring : fourWidths.eval ⟨.empty, none, 0⟩ .empty =
      pure (StringLiteral.toTerm ⟨['z', 'ß', '€', '𝄞'], some "de"⟩) := rfl
  have hinteger := isInteger_ofInteger ⟨.empty, none, 0⟩ .empty
  have hnext : (binary .add (ofInteger nextToGreatest) (ofInteger .one)).IsInteger
      ⟨.empty, none, 0⟩ .empty greatest :=
    isInteger_of_eval (eval_add (hinteger _) (hinteger _) rfl)
  obtain ⟨hfrom, hbetween, hcut⟩ := substr_keeps_positions hstring
  have hbetween := @hbetween (by decide)
  obtain ⟨hconcat, hlength⟩ := hcut (hinteger .one) (hinteger nextToGreatest) hnext rfl
  exact ⟨hbetween (hinteger _) (hinteger _), hbetween (hinteger _) (hinteger _), hfrom (hinteger _),
    hconcat, hlength (by decide)⟩

end Expression

end TripleLoom
