import Mathlib.Data.List.Forall2
import TripleLoom.Proofs.Iterator.Chronicle
import TripleLoom.Proofs.Run.Binding
import TripleLoom.Proofs.Run.Sinks

/-!
# TripleLoom.Proofs.Text.Recital — the text of a template for some solutions

A `TEMPLATE` form goes through its solutions and writes a word for each: what comes before the first
one or separates it from the one before, then its parts, and behind the last one what comes after
(`TemplatePlan.Word`).  A part that is a query says what the query's own task writes into the sink
that it was given (`Task.Writes`), whatever else goes on in the run meanwhile.  A recital is a
sequence with the words for its first solutions; a form at work is always somewhere in one, and what
it does next brings it on, or to its end (`Recital.advances`).
-/

namespace TripleLoom

open RunM

variable (setting : Setting)

/-! ### What a query writes -/

/-- What a task writes into a sink by its own moves, from where it starts to another task.  Between
its moves the rest of the run makes of the state what it likes, except that it does not reopen a run
and takes no sink back. -/
inductive Task.Writes (sink : SinkId) (t : Task) : List SinkCall → Task → RunState → Prop where
  | start {s : RunState} (hs : sink < s.nextSink) : Writes sink t [] t s
  | own {calls more : List SinkCall} {u v : Task} {s s' : RunState} {move : Move}
    (h : Writes sink t calls u s) (hm : u.step setting move s = some (v, s'))
    (hw : s'.output sink = s.output sink ++ more) : Writes sink t (calls ++ more) v s'
  | others {calls : List SinkCall} {u : Task} {s s' : RunState} (h : Writes sink t calls u s)
    (hclosed : s.isClosed = true → s'.isClosed = true) (hsinks : s.nextSink ≤ s'.nextSink) :
    Writes sink t calls u s'

variable {setting} in
/-- The sink is there all the time. -/
theorem Task.Writes.sink_lt {sink : SinkId} {t u : Task} {calls : List SinkCall} {s : RunState}
    (h : t.Writes setting sink calls u s) : sink < s.nextSink := by
  induction h with
  | start hs => exact hs
  | own _ hm _ ih => exact Nat.lt_of_lt_of_le ih (nextSink_le_of_step hm)
  | others _ _ hsinks ih => exact Nat.lt_of_lt_of_le ih hsinks

/-! ### Words -/

/-- The text that an optional expression comes to in a solution, in some state. -/
def Context.Says (c : Context) (e : Option Expression) (u : Solution) (text : String) : Prop :=
  ∃ s, (c.textOf setting.functions e u s).1 = text

variable {setting} in
/-- An expression that does not call `BNODE` says the same in every state. -/
theorem Context.Says.unique {c : Context} {e : Option Expression} {u : Solution}
    {text text' : String} (he : ∀ x ∈ e, x.callsBnode = false) (h : c.Says setting e u text)
    (h' : c.Says setting e u text') : text = text' := by
  obtain ⟨s, rfl⟩ := h
  obtain ⟨s', rfl⟩ := h'
  cases e with
  | none => rfl
  | some e =>
    rw [textOf, c.eval?_eq setting.functions (he e rfl), pure_bind]
    rcases e.value? (c.evalContext setting.functions) u with _ | t
    · rfl
    · cases t <;> rfl

/-- The task of a part that is a query or a call with a name, and writes into a sink. -/
def TemplatePart.task? (c : Context) (input : Sequence) (u : Solution) (sink : SinkId) :
    TemplatePart → Option Task
  | .expression _ => none
  | .plan q => some (.ofPlan { c with sink } q (input.withSolutions [u]))
  | .call q => (q.name? u).map fun name =>
    .entering name (.call { c with sink } q.arguments u false)

/-- What a part of a template says for a solution. -/
inductive TemplatePart.Says (c : Context) (input : Sequence) (u : Solution) :
    TemplatePart → String → Prop where
  | expression {e : Expression} {text : String} (h : c.Says setting (some e) u text) :
    Says c input u (.expression e) text
  | gathered {part : TemplatePart} {sink : SinkId} {t : Task} {calls : List SinkCall}
    {s : RunState} (ht : part.task? c input u sink = some t)
    (h : t.Writes setting sink calls (.finished none) s) :
    Says c input u part (Collected.ofCalls calls).text
  | nameless {call : CallPlan} (h : call.name? u = none) : Says c input u (.call call) ""

/-- A part that is an expression and does not call `BNODE`. -/
def TemplatePart.IsPure : TemplatePart → Prop
  | .expression e => e.callsBnode = false
  | _ => False

variable {setting} in
theorem TemplatePart.Says.unique {c : Context} {input : Sequence} {u : Solution}
    {part : TemplatePart} {text text' : String} (hpart : part.IsPure)
    (h : part.Says setting c input u text) (h' : part.Says setting c input u text') :
    text = text' := by
  cases part with
  | expression e =>
    cases h with
    | gathered ht => cases ht
    | expression h =>
      cases h' with
      | gathered ht => cases ht
      | expression h' => exact h.unique (fun x hx => Option.some.inj hx ▸ hpart) h'
  | _ => exact hpart.elim

namespace TemplatePlan

/-- What comes before the word of a solution. -/
def opening (p : TemplatePlan) (isFirst : Bool) : Option Expression :=
  if isFirst then p.before else p.separator

/-- What comes after the word of a solution. -/
def closing (p : TemplatePlan) (isLast : Bool) : Option Expression :=
  if isLast then p.after else none

/-- The word of a solution. -/
def Word (c : Context) (p : TemplatePlan) (input : Sequence) (isFirst isLast : Bool) (u : Solution)
    (word : String) : Prop :=
  ∃ opening texts closing, c.Says setting (p.opening isFirst) u opening ∧
    List.Forall₂ (TemplatePart.Says setting c input u) p.parts texts ∧
    c.Says setting (p.closing isLast) u closing ∧ word = opening ++ String.join texts ++ closing

/-- A template of expressions that do not call `BNODE`. -/
structure IsPure (p : TemplatePlan) : Prop where
  before : ∀ e ∈ p.before, e.callsBnode = false
  separator : ∀ e ∈ p.separator, e.callsBnode = false
  after : ∀ e ∈ p.after, e.callsBnode = false
  parts : ∀ part ∈ p.parts, part.IsPure

variable {setting} in
theorem Word.unique {c : Context} {p : TemplatePlan} {input : Sequence} {isFirst isLast : Bool}
    {u : Solution} {word word' : String} (hp : p.IsPure)
    (h : p.Word setting c input isFirst isLast u word)
    (h' : p.Word setting c input isFirst isLast u word') : word = word' := by
  obtain ⟨opening, texts, closing, hopening, htexts, hclosing, rfl⟩ := h
  obtain ⟨opening', texts', closing', hopening', htexts', hclosing', rfl⟩ := h'
  have hbegin : ∀ e ∈ p.opening isFirst, e.callsBnode = false := by
    cases isFirst with
    | true => exact hp.before
    | false => exact hp.separator
  have hend : ∀ e ∈ p.closing isLast, e.callsBnode = false := by
    cases isLast with
    | true => exact hp.after
    | false => exact fun e he => by cases he
  have hparts : texts = texts' :=
    List.right_unique_forall₂' (fun _ _ _ h h' => h.2.unique h.1 h'.2)
      ((List.forall₂_and_left _ _).mpr ⟨hp.parts, htexts⟩)
      ((List.forall₂_and_left _ _).mpr ⟨hp.parts, htexts'⟩)
  rw [hopening.unique hbegin hopening', hclosing.unique hend hclosing', hparts]

end TemplatePlan

/-! ### Recitals -/

/-- A sequence, and the words that were written for its first solutions. -/
structure Recital where
  input : Sequence
  words : List String

namespace Recital

variable (c : Context) (p : TemplatePlan)

/-- A recital with one more word. -/
def concat (r : Recital) (word : String) : Recital := { r with words := r.words ++ [word] }

/-- Each word is that of its solution: what comes before is written before the first, what separates
is written between two, and what comes after is written after the last. -/
structure Follows (r : Recital) : Prop where
  length_le : r.words.length ≤ r.input.size
  word : ∀ (i : Nat) (u : Solution) (word : String), r.input.solutions[i]? = some u →
    r.words[i]? = some word →
    p.Word setting c r.input (i = 0) (i + 1 = r.input.size) u word

/-- All solutions have got their words. -/
structure IsWhole (r : Recital) : Prop extends r.Follows setting c p where
  length_eq : r.words.length = r.input.size

/-- The form at work that goes on with a recital. -/
def writing (r : Recital) (current : Option (String × List TemplatePart)) : Writing :=
  ⟨c, p, r.input, r.words.isEmpty, r.input.solutions.drop r.words.length, current⟩

/-- Some parts of the next word have come to a text. -/
structure Speaks (r : Recital) (u : Solution) (done : List TemplatePart) (text : String) :
    Prop where
  solution : r.input.solutions[r.words.length]? = some u
  text : ∃ opening texts, c.Says setting (p.opening r.words.isEmpty) u opening ∧
    List.Forall₂ (TemplatePart.Says setting c r.input u) done texts ∧
    text = opening ++ String.join texts

variable {setting c p} {r : Recital} {u : Solution} {done : List TemplatePart} {text : String}

theorem follows_nil (input : Sequence) : Follows setting c p ⟨input, []⟩ :=
  ⟨Nat.zero_le _, fun _ _ _ _ hword => by cases hword⟩

theorem Follows.concat {word : String} (h : r.Follows setting c p)
    (hu : r.input.solutions[r.words.length]? = some u)
    (hword : p.Word setting c r.input r.words.isEmpty (r.words.length + 1 = r.input.size) u word) :
    (r.concat word).Follows setting c p := by
  obtain ⟨hlt, -⟩ := List.getElem?_eq_some_iff.mp hu
  refine ⟨?_, fun i v next hv hnext => ?_⟩
  · rw [Recital.concat, List.length_append]
    exact hlt
  · rw [Recital.concat, List.getElem?_append] at hnext
    split at hnext
    · exact h.word i v next hv hnext
    · next hle =>
      -- the new word is that of the next solution
      rw [List.getElem?_singleton, Option.ite_none_right_eq_some] at hnext
      obtain ⟨hi, hword'⟩ := hnext
      obtain rfl := Option.some.inj hword'
      obtain rfl : i = r.words.length := Nat.le_antisymm (Nat.sub_eq_zero_iff_le.mp hi)
        (Nat.not_lt.mp hle)
      obtain rfl := Option.some.inj (hu.symm.trans hv)
      have hfirst : r.words.isEmpty = decide (r.words.length = 0) := by
        cases r.words <;> rfl
      rwa [hfirst] at hword

/-- A template of expressions that do not call `BNODE` leaves no choice: the words for a sequence are
determined. -/
theorem IsWhole.unique {input : Sequence} {words words' : List String} (hp : p.IsPure)
    (h : IsWhole setting c p ⟨input, words⟩) (h' : IsWhole setting c p ⟨input, words'⟩) :
    words = words' := by
  refine List.ext_getElem (h.length_eq.trans h'.length_eq.symm) fun i hi hi' => ?_
  have hlt : i < input.solutions.length := Nat.lt_of_lt_of_eq hi h.length_eq
  exact (h.word i _ _ (List.getElem?_eq_getElem hlt) (List.getElem?_eq_getElem hi)).unique hp
    (h'.word i _ _ (List.getElem?_eq_getElem hlt) (List.getElem?_eq_getElem hi'))

theorem Speaks.concat {part : TemplatePart} {more : String} (h : r.Speaks setting c p u done text)
    (hmore : part.Says setting c r.input u more) :
    r.Speaks setting c p u (done ++ [part]) (text ++ more) := by
  obtain ⟨hu, opening, texts, hopening, htexts, rfl⟩ := h
  refine ⟨hu, opening, texts ++ [more], hopening, List.rel_append htexts (.cons hmore .nil), ?_⟩
  rw [String.join_append, String.join_cons, String.join_nil, String.append_empty,
    String.append_assoc]

/-- All parts of a word are done. -/
theorem Speaks.word (h : r.Speaks setting c p u p.parts text) (isLast : Bool) {more : String}
    (hmore : c.Says setting (p.closing isLast) u more) :
    p.Word setting c r.input r.words.isEmpty isLast u (text ++ more) := by
  obtain ⟨-, opening, texts, hopening, htexts, rfl⟩ := h
  exact ⟨opening, texts, more, hopening, htexts, hmore, rfl⟩

/-! ### Forms at work -/

variable (setting c p r) in
/-- How far a form has come with the next word: it has not begun with it, or some parts are done. -/
inductive Pauses : Option (String × List TemplatePart) → Prop where
  | between : Pauses none
  | within {u : Solution} {done rest : List TemplatePart} {text : String}
    (h : r.Speaks setting c p u done text) (hparts : p.parts = done ++ rest) :
    Pauses (some (text, rest))

variable (setting c p r) in
/-- What a form makes of a recital when it goes on: the recital is whole, the next word comes on or
is written, or a query begins whose text is to become part of the word. -/
inductive Advances (s : RunState) : Task → RunState → Prop where
  | ended (h : r.words.length = r.input.size) : Advances s (.finished none) s
  | pause {current : Option (String × List TemplatePart)} (scopes : Scopes)
    (h : r.Pauses setting c p current) :
    Advances s (.writing (r.writing c p current)) { s with scopes }
  | word {word : String} (s' : RunState) (h : (r.concat word).Follows setting c p)
    (hw : s'.output c.sink = s.output c.sink ++ [.text word]) :
    Advances s (.writing ((r.concat word).writing c p none)) s'
  | gather {u : Solution} {done rest : List TemplatePart} {part : TemplatePart} {text : String}
    {t : Task} (h : r.Speaks setting c p u done text) (hparts : p.parts = done ++ part :: rest)
    (ht : part.task? c r.input u s.nextSink = some t) :
    Advances s (.nesting (r.writing c p (some (text, rest))) s.nextSink t)
      { s with nextSink := s.nextSink + 1 }

theorem writing_concat (r : Recital) (word : String) : (r.concat word).writing c p none =
    ⟨c, p, r.input, false, r.input.solutions.drop (r.words.length + 1), none⟩ := by
  simp [writing, Recital.concat]

/-- When all its parts are done, the word is written. -/
theorem advances_word (h : r.Follows setting c p) (hspeaks : r.Speaks setting c p u p.parts text)
    {rest : List Solution} (hrest : r.input.solutions.drop r.words.length = u :: rest)
    (s : RunState) :
    r.Advances setting c p s ((r.writing c p (some (text, []))).advance setting s).1
      ((r.writing c p (some (text, []))).advance setting s).2 := by
  obtain ⟨hlt, -⟩ := List.getElem?_eq_some_iff.mp hspeaks.solution
  have hdrop : r.input.solutions.drop (r.words.length + 1) = rest := by
    rw [← List.tail_drop, hrest, List.tail_cons]
  have hlast : rest.isEmpty = decide (r.words.length + 1 = r.input.size) := by
    have hlength := congrArg List.length hdrop
    rw [List.length_drop] at hlength
    rw [Bool.eq_iff_iff, List.isEmpty_iff_length_eq_zero, decide_eq_true_iff, Sequence.size]
    omega
  obtain ⟨scopes, hs⟩ := c.isScoped_textOf setting.functions u (p.closing rest.isEmpty) s
  have hword := hspeaks.word rest.isEmpty ⟨s, rfl⟩
  have hnext : (r.concat _).Follows setting c p :=
    h.concat hspeaks.solution (by rw [← hlast]; exact hword)
  have hwritten := c.output_write (.text (text ++
    (c.textOf setting.functions (p.closing rest.isEmpty) u s).1)) { s with scopes }
  have hadvances := Advances.word (s := s) _ hnext hwritten
  rw [writing_concat, hdrop, ← hs] at hadvances
  rw [writing, hrest]
  cases rest with
  | nil => exact hadvances
  | cons => exact hadvances

/-- The next part is evaluated, or a query begins for it. -/
theorem advances_part {part : TemplatePart} {parts : List TemplatePart}
    (hspeaks : r.Speaks setting c p u done text) (hparts : p.parts = done ++ part :: parts)
    {rest : List Solution} (hrest : r.input.solutions.drop r.words.length = u :: rest)
    (s : RunState) :
    r.Advances setting c p s ((r.writing c p (some (text, part :: parts))).advance setting s).1
      ((r.writing c p (some (text, part :: parts))).advance setting s).2 := by
  have hspoken : p.parts = (done ++ [part]) ++ parts :=
    hparts.trans (List.append_cons done part parts)
  rw [writing, hrest]
  cases part with
  | expression e =>
    obtain ⟨scopes, hs⟩ := c.isScoped_textOf setting.functions u (some e) s
    have hpause := Advances.pause (s := s) scopes
      (.within (hspeaks.concat (.expression ⟨s, rfl⟩)) hspoken)
    rw [writing, hrest, ← hs] at hpause
    exact hpause
  | plan q =>
    have hgather := Advances.gather (s := s) hspeaks hparts rfl
    rw [writing, hrest] at hgather
    exact hgather
  | call q =>
    unfold Writing.advance
    dsimp only
    cases hname : q.name? u with
    | none =>
      have hpause := Advances.pause (s := s) s.scopes
        (.within (hspeaks.concat (.nameless hname)) hspoken)
      rw [writing, hrest, String.append_empty] at hpause
      exact hpause
    | some name =>
      have htask : TemplatePart.task? c r.input u s.nextSink (.call q) = some _ :=
        congrArg (Option.map _) hname
      have hgather := Advances.gather hspeaks hparts htask
      rw [writing, hrest] at hgather
      exact hgather

/-- **A form brings its recital on, or to its end.** -/
theorem advances (h : r.Follows setting c p) {current : Option (String × List TemplatePart)}
    (hcurrent : r.Pauses setting c p current) (s : RunState) :
    r.Advances setting c p s ((r.writing c p current).advance setting s).1
      ((r.writing c p current).advance setting s).2 := by
  cases hrest : r.input.solutions.drop r.words.length with
  | nil =>
    have hle : r.input.size ≤ r.words.length := List.drop_eq_nil_iff.mp hrest
    rw [writing, hrest]
    exact .ended (Nat.le_antisymm h.length_le hle)
  | cons u rest =>
    have hu : r.input.solutions[r.words.length]? = some u := by
      rw [← List.head?_drop, hrest, List.head?_cons]
    cases hcurrent with
    | between =>
      obtain ⟨scopes, hs⟩ :=
        c.isScoped_textOf setting.functions u (p.opening r.words.isEmpty) s
      have hbegun : r.Speaks setting c p u []
          (c.textOf setting.functions (p.opening r.words.isEmpty) u s).1 :=
        ⟨hu, _, [], ⟨s, rfl⟩, .nil, by rw [String.join_nil, String.append_empty]⟩
      have hpause := Advances.pause (s := s) scopes (.within hbegun rfl)
      rw [writing, hrest, ← hs] at hpause
      rw [writing, hrest]
      exact hpause
    | @within v done parts text hspeaks hparts =>
      obtain rfl : u = v := Option.some.inj (hu.symm.trans hspeaks.solution)
      cases parts with
      | nil =>
        rw [List.append_nil] at hparts
        obtain rfl := hparts
        exact advances_word h hspeaks hrest s
      | cons part parts => exact advances_part hspeaks hparts hrest s

end Recital

end TripleLoom
