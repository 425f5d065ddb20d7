import TripleLoom.Proofs.Expression.Membership
import TripleLoom.Proofs.Expression.Substrings

/-!
# TripleLoom.Proofs.Expression.Strings — strings as arguments, and `CONCAT` of them

A string is a literal of `xsd:string` or one with a language tag (`Term.IsString`).  The string functions
evaluate their arguments from the left, and each of these has to give a string in the scopes that the ones
before it have left.  `CONCAT` gives the texts one after the other, in the language that all of them have, and
fails at the first argument that gives no string (`Expression.concat_gives`).  So it does not matter in which
blocks strings are put together.
-/

namespace TripleLoom

/-! ### Strings among the terms -/

/-- The strings among the terms, with their texts and languages. -/
inductive Term.IsString : Term → StringLiteral → Prop where
  | plain {l : Literal} (h : l.datatype = .xsd "string") : IsString (.literal l) ⟨l.value.toList, none⟩
  | tagged (v language : String) : IsString (.literal (.tagged v language)) ⟨v.toList, some language⟩

namespace Value

variable {t : Term} {s : StringLiteral} {v : String}

theorem ofLiteral_of_datatype_eq {l : Literal} (h : l.datatype = .xsd "string") :
    ofLiteral l = .simple l.value := by
  cases l with
  | simple v => rfl
  | tagged v language => cases h
  | typed v d => exact if_pos h

theorem text?_ofLiteral_typed {d : Iri} (h : d ≠ .xsd "string") :
    (ofLiteral (.typed v d)).text? = none := by
  rw [ofLiteral_typed, if_neg h]
  split_ifs <;> split <;> rfl

/-- A term is a string exactly if its value has a text. -/
theorem isString_iff : t.IsString s ↔ ∃ v, (ofTerm t).text? = some v ∧ ⟨v.toList, (ofTerm t).language?⟩ = s := by
  constructor
  · rintro (⟨h⟩ | ⟨v, language⟩)
    · rw [ofTerm, ofLiteral_of_datatype_eq h]
      exact ⟨_, rfl, rfl⟩
    · exact ⟨v, rfl, rfl⟩
  · rintro ⟨v, htext, rfl⟩
    obtain i | b | v' | ⟨v', language⟩ | ⟨v', d⟩ := t
    · cases htext
    · cases htext
    · cases htext
      exact .plain rfl
    · cases htext
      exact .tagged v language
    · by_cases hd : d = .xsd "string"
      · rw [ofTerm, ofLiteral_of_datatype_eq (l := .typed v' d) hd] at htext ⊢
        cases htext
        exact .plain hd
      · rw [ofTerm, text?_ofLiteral_typed hd] at htext
        cases htext

end Value

/-! ### Arguments -/

/-- Whether an expression gives a string, and in which scopes it starts and stops. -/
def Expression.GivesString (c : EvalContext) (σ : Solution) (e : Expression) (before : Scopes)
    (s : StringLiteral) (after : Scopes) : Prop :=
  ∃ t, (e.eval c σ).run before = (some t, after) ∧ t.IsString s

/-- The strings that some expressions give, evaluated from the left. -/
inductive Expression.GiveStrings (c : EvalContext) (σ : Solution) :
    List Expression → Scopes → List StringLiteral → Scopes → Prop where
  | nil (scopes : Scopes) : GiveStrings c σ [] scopes [] scopes
  | cons {e : Expression} {es : List Expression} {s : StringLiteral} {strings : List StringLiteral}
    {before between after : Scopes} (he : e.GivesString c σ before s between)
    (hes : GiveStrings c σ es between strings after) : GiveStrings c σ (e :: es) before (s :: strings) after

namespace Eval

section Run

variable {α β : Type} {m : Eval α} {f : α → Eval β} {b : β} {before between after : Scopes}

theorem run_bind_eq_some_iff : (m >>= f).run before = (some b, after) ↔
    ∃ a between, m.run before = (some a, between) ∧ (f a).run between = (some b, after) := by
  rw [run_bind]
  rcases m.run before with ⟨_ | a, between⟩
  · exact ⟨nofun, fun ⟨_, _, h, _⟩ => nomatch h⟩
  · exact ⟨fun h => ⟨a, between, rfl, h⟩, fun ⟨_, _, hm, h⟩ => by cases hm; exact h⟩

theorem run_bind_eq_none_iff : ((m >>= f).run before).1 = none ↔
    (m.run before).1 = none ∨ ∃ a between, m.run before = (some a, between) ∧ ((f a).run between).1 = none := by
  rw [run_bind]
  rcases m.run before with ⟨_ | a, between⟩
  · exact iff_of_true rfl (.inl rfl)
  · refine ⟨fun h => .inr ⟨a, between, rfl, h⟩, ?_⟩
    rintro (h | ⟨_, _, hm, h⟩)
    · cases h
    · cases hm
      exact h

theorem run_bind_pure_eq_none_iff (g : α → β) :
    ((m >>= fun a => pure (g a)).run before).1 = none ↔ (m.run before).1 = none := by
  rw [run_bind_eq_none_iff, or_iff_left]
  rintro ⟨a, between, -, h⟩
  cases h

/-- Computations one after the other, cut in two. -/
theorem each_append (f : α → Eval β) (as bs : List α) :
    each f (as ++ bs) = do return (← each f as) ++ (← each f bs) := by
  induction as with
  | nil => simp [each]
  | cons a as ih => simp [each, ih]

end Run

variable {m : Eval Term} {t : Term} {s : StringLiteral} {before after : Scopes}

theorem run_string_of_run (h : m.run before = (some t, after)) :
    (string m).run before =
      ((Value.ofTerm t).text?.map fun v => ⟨v.toList, (Value.ofTerm t).language?⟩, after) := by
  rw [string, run_bind_of_run (run_value_of_run h)]
  cases (Value.ofTerm t).text? <;> rfl

/-- An operand is a string exactly if its term is one. -/
theorem run_string_eq_some_iff :
    (string m).run before = (some s, after) ↔ ∃ t, m.run before = (some t, after) ∧ t.IsString s := by
  constructor
  · intro h
    rcases hm : m.run before with ⟨_ | t, later⟩
    · rw [string, value, run_bind, run_bind, hm] at h
      cases h
    · rw [run_string_of_run hm, Prod.mk.injEq, Option.map_eq_some_iff] at h
      obtain ⟨hstring, rfl⟩ := h
      exact ⟨t, rfl, Value.isString_iff.mpr hstring⟩
  · rintro ⟨t, hm, hstring⟩
    rw [run_string_of_run hm, Option.map_eq_some_iff.mpr (Value.isString_iff.mp hstring)]

end Eval

namespace Expression

variable {c : EvalContext} {σ : Solution} {e : Expression} {es : List Expression} {s : StringLiteral}
  {strings : List StringLiteral} {before between after : Scopes}

theorem givesString_iff : e.GivesString c σ before s after ↔
    (Eval.string (e.eval c σ)).run before = (some s, after) :=
  Eval.run_string_eq_some_iff.symm

theorem not_givesString_iff : (∀ s after, ¬e.GivesString c σ before s after) ↔
    ((Eval.string (e.eval c σ)).run before).1 = none := by
  simp only [givesString_iff]
  rcases (Eval.string (e.eval c σ)).run before with ⟨_ | s, after⟩
  · exact iff_of_true nofun rfl
  · exact iff_of_false (fun h => h s after rfl) nofun

/-- The arguments of a function are strings exactly if the expressions give them. -/
theorem giveStrings_iff : GiveStrings c σ es before strings after ↔
    (Eval.each Eval.string (evalEach c σ es)).run before = (some strings, after) := by
  induction es generalizing before strings with
  | nil =>
    constructor
    · rintro ⟨⟩
      rfl
    · rintro ⟨⟩
      exact .nil _
  | cons e es ih =>
    rw [evalEach, Eval.each, Eval.run_bind_eq_some_iff]
    constructor
    · rintro (_ | ⟨he, hes⟩)
      refine ⟨_, _, givesString_iff.mp he, ?_⟩
      rw [Eval.run_bind_of_run (ih.mp hes)]
      rfl
    · rintro ⟨s, between, he, hrest⟩
      obtain ⟨rest, _, hes, ⟨⟩⟩ := Eval.run_bind_eq_some_iff.mp hrest
      exact .cons (givesString_iff.mpr he) (ih.mpr hes)

theorem evalEach_append (c : EvalContext) (σ : Solution) (es fs : List Expression) :
    evalEach c σ (es ++ fs) = evalEach c σ es ++ evalEach c σ fs := by
  rw [evalEach_eq_map, evalEach_eq_map, evalEach_eq_map, List.map_append]

/-- Whether some expression gives no string, evaluated from the left behind others that give strings. -/
def MissString (c : EvalContext) (σ : Solution) (es : List Expression) (before : Scopes) : Prop :=
  ∃ front e back strings between, es = front ++ e :: back ∧ GiveStrings c σ front before strings between ∧
    ∀ s after, ¬e.GivesString c σ between s after

theorem missString_cons (es : List Expression) : MissString c σ (e :: es) before ↔
    (∀ s after, ¬e.GivesString c σ before s after) ∨
      ∃ s between, e.GivesString c σ before s between ∧ MissString c σ es between := by
  constructor
  · rintro ⟨front, e', back, strings, between, heq, hfront, hnone⟩
    cases hfront with
    | nil =>
      cases heq
      exact .inl hnone
    | cons he hfront =>
      cases heq
      exact .inr ⟨_, _, he, _, e', back, _, between, rfl, hfront, hnone⟩
  · rintro (hnone | ⟨s, between, he, front, e', back, strings, later, rfl, hfront, hnone⟩)
    · exact ⟨[], e, es, [], before, rfl, .nil before, hnone⟩
    · exact ⟨e :: front, e', back, s :: strings, later, rfl, .cons he hfront, hnone⟩

/-- The evaluation of strings fails exactly if an argument gives none. -/
theorem missString_iff : MissString c σ es before ↔
    ((Eval.each Eval.string (evalEach c σ es)).run before).1 = none := by
  induction es generalizing before with
  | nil =>
    refine iff_of_false ?_ nofun
    rintro ⟨front, e, back, -, -, heq, -⟩
    exact List.append_ne_nil_of_right_ne_nil front (List.cons_ne_nil e back) heq.symm
  | cons e es ih =>
    rw [missString_cons, evalEach, Eval.each, Eval.run_bind_eq_none_iff, not_givesString_iff]
    refine or_congr_right (exists_congr fun s => exists_congr fun between => ?_)
    rw [givesString_iff, ih, Eval.run_bind_pure_eq_none_iff]

end Expression

/-! ### Putting strings together -/

namespace StringLiteral

/-- The language of a text made of parts: the parts have it, and there is one. -/
theorem commonLanguage_eq_some_iff {languages : List (Option String)} {language : String} :
    commonLanguage languages = some language ↔ languages ≠ [] ∧ ∀ l ∈ languages, l = some language := by
  cases languages with
  | nil =>
    refine iff_of_false (fun h => ?_) fun h => h.1 rfl
    cases h
  | cons first rest =>
    rw [commonLanguage, List.forall_mem_cons, and_iff_right (List.cons_ne_nil _ _)]
    split
    · next h =>
      rw [List.all_eq_true] at h
      refine ⟨fun hfirst => ⟨hfirst, fun l hl => ?_⟩, And.left⟩
      rw [← hfirst]
      exact eq_of_beq (h l hl)
    · next h =>
      refine iff_of_false (fun hnone => ?_) fun hall => h (List.all_eq_true.mpr fun l hl => ?_)
      · cases hnone
      · rw [hall.1, hall.2 l hl, beq_self_eq_true]

/-- Parts of a text may be put together before the others. -/
theorem commonLanguage_nest {block : List (Option String)} (h : block ≠ []) (front back : List (Option String)) :
    commonLanguage (front ++ commonLanguage block :: back) = commonLanguage (front ++ block ++ back) := by
  refine Option.ext fun language => ?_
  rw [commonLanguage_eq_some_iff, commonLanguage_eq_some_iff]
  simp [commonLanguage_eq_some_iff, h, or_imp, forall_and]

theorem concat_nest {block : List StringLiteral} (h : block ≠ []) (front back : List StringLiteral) :
    concat (front ++ concat block :: back) = concat (front ++ block ++ back) := by
  have hlanguages : block.map (·.language) ≠ [] := mt List.map_eq_nil_iff.mp h
  simp only [concat, List.flatMap_append, List.flatMap_cons, List.map_append, List.map_cons,
    commonLanguage_nest hlanguages, List.append_assoc]

end StringLiteral

theorem Eval.string_bind {α : Type} (m : Eval α) (f : α → Eval Term) :
    string (m >>= f) = m >>= fun a => string (f a) := by
  simp only [string, value, bind_assoc]

namespace Expression

variable {c : EvalContext} {σ : Solution} {es : List Expression} {strings : List StringLiteral}
  {before after : Scopes}

theorem eval_concat_eq (c : EvalContext) (σ : Solution) (es : List Expression) : (concat es).eval c σ =
    (do return (StringLiteral.concat (← Eval.each Eval.string (evalEach c σ es))).toTerm) := rfl

/-- Strings put together are a string. -/
theorem string_eval_concat (c : EvalContext) (σ : Solution) (es : List Expression) :
    Eval.string ((concat es).eval c σ) =
      (do return StringLiteral.concat (← Eval.each Eval.string (evalEach c σ es))) := by
  rw [eval_concat_eq, Eval.string_bind]
  simp only [Eval.string_toTerm]

/-- Some arguments may be put together before the others. -/
theorem eval_concat_nest {block : List Expression} (h : block ≠ []) (front back : List Expression) :
    (concat (front ++ concat block :: back)).eval c σ = (concat (front ++ block ++ back)).eval c σ := by
  -- as the block has a first expression, its strings have a first one too
  obtain ⟨e, es, rfl⟩ := List.exists_cons_of_ne_nil h
  rw [eval_concat_eq, eval_concat_eq, evalEach_append, evalEach_append, evalEach_append, evalEach,
    Eval.each_append, Eval.each_append, Eval.each_append, Eval.each, string_eval_concat, evalEach, Eval.each]
  simp only [bind_assoc, pure_bind, StringLiteral.concat_nest (List.cons_ne_nil _ _)]

/-- The strings that the arguments give are put together. -/
theorem run_concat (h : GiveStrings c σ es before strings after) :
    ((concat es).eval c σ).run before = (some (StringLiteral.concat strings).toTerm, after) := by
  rw [eval_concat_eq, Eval.run_bind_of_run (giveStrings_iff.mp h)]
  rfl

/-- **`CONCAT` puts strings together in the language that they share.**  For every list of expressions and
every solution, whatever the scopes are, `CONCAT` fails exactly if, from the left, some expression gives no
string.  Otherwise all of them give strings, and it gives the literal of the texts one after the other, which
has a language exactly if there is a string and every one has this language.  And some of the expressions,
one at least, may be put together first: nothing changes. -/
theorem concat_gives (c : EvalContext) (σ : Solution) (es : List Expression) (before : Scopes) :
    ((((concat es).eval c σ).run before).1 = none ↔ MissString c σ es before) ∧
    (¬MissString c σ es before → ∃ strings language after, GiveStrings c σ es before strings after ∧
      ((concat es).eval c σ).run before =
        (some (StringLiteral.toTerm ⟨strings.flatMap (·.text), language⟩), after) ∧
      ∀ l, language = some l ↔ strings ≠ [] ∧ ∀ s ∈ strings, s.language = some l) ∧
    ∀ front block back, es = front ++ block ++ back → block ≠ [] →
      (concat (front ++ concat block :: back)).eval c σ = (concat es).eval c σ := by
  have hfails : (((concat es).eval c σ).run before).1 = none ↔ MissString c σ es before := by
    rw [missString_iff, eval_concat_eq, Eval.run_bind_pure_eq_none_iff]
  refine ⟨hfails, fun h => ?_, fun front block back heq hblock => heq ▸ eval_concat_nest hblock front back⟩
  rw [missString_iff] at h
  rcases hrun : (Eval.each Eval.string (evalEach c σ es)).run before with ⟨_ | strings, after⟩
  · exact absurd (congrArg Prod.fst hrun) h
  · have hstrings := giveStrings_iff.mpr hrun
    refine ⟨strings, _, after, hstrings, run_concat hstrings, fun l => ?_⟩
    rw [StringLiteral.commonLanguage_eq_some_iff, Ne, List.map_eq_nil_iff, List.forall_mem_map]

/-- Two strings in one language around a string in another. -/
def mixed : List Expression :=
  [.literal (.tagged "a" "en"), .literal (.tagged "ß" "de"), .literal (.tagged "c" "en")]

/-- They have no language together, also if the first two are put together first.  With an unbound variable
among the arguments there is nothing. -/
theorem mixed_concat_gives :
    ¬MissString ⟨.empty, none, 0⟩ .empty mixed .empty ∧
      ((concat mixed).eval ⟨.empty, none, 0⟩ .empty).run .empty = (some (.ofText "aßc"), .empty) ∧
      (concat [concat (mixed.take 2), .literal (.tagged "c" "en")]).eval ⟨.empty, none, 0⟩ .empty =
        (concat mixed).eval ⟨.empty, none, 0⟩ .empty ∧
      (((concat (mixed ++ [.var ⟨"x"⟩])).eval ⟨.empty, none, 0⟩ .empty).run .empty).1 = none := by
  obtain ⟨hfails, hgives, hnest⟩ := concat_gives ⟨.empty, none, 0⟩ .empty mixed .empty
  have hstrings : ¬MissString ⟨.empty, none, 0⟩ .empty mixed .empty := mt hfails.mpr nofun
  have hvar : MissString ⟨.empty, none, 0⟩ .empty (mixed ++ [.var ⟨"x"⟩]) .empty := by
    obtain ⟨strings, -, after, hgiven, -⟩ := hgives hstrings
    exact ⟨mixed, .var ⟨"x"⟩, [], strings, after, rfl, hgiven, fun _ _ ⟨_, h, _⟩ => nomatch h⟩
  exact ⟨hstrings, rfl, hnest [] (mixed.take 2) [_] rfl (List.cons_ne_nil _ _),
    (concat_gives ⟨.empty, none, 0⟩ .empty _ .empty).1.mpr hvar⟩

end Expression

end TripleLoom
