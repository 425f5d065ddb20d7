import TripleLoom.Proofs.Sink.Collecting

/-!
# TripleLoom.Proofs.Sink.Writing — a writer stops at its first error

What a sink is given is written call by call, each call in pieces, and a writer of limited room refuses the
first piece that does not fit.  Whatever comes behind that piece is not written, be it a smaller piece of the
same call or a later call: several actions come to the same as one with all their pieces
(`Writer.writeAll_eq`).  So it does not matter how the texts of the calls are cut into pieces, and the text as
a whole is written exactly if it fits (`Writer.stops_at_first_error`).
-/

namespace TripleLoom

/-! ### The text of a call -/

/-- The field of a variable in the line of a solution: its term, or nothing. -/
def Solution.field (s : Solution) (v : Variable) : String := ((s.get? v).map Term.display).getD ""

/-- The row of a solution: the fields of some variables with tabs between them. -/
def Solution.row (s : Solution) (vars : List Variable) : String := "\t".intercalate (vars.map s.field)

/-- The line of a solution: its row, and a line feed. -/
def Solution.line (s : Solution) (vars : List Variable) : String := s.row vars ++ "\n"

/-- The text that is written for a call. -/
def SinkCall.written : SinkCall → String
  | .triple t => t.line
  | .text s => s
  | .solution vars s => s.line vars
  | .start | .prefixName .. | .base _ | .finish => ""

theorem join_intersperse (separator : String) (texts : List String) :
    String.join (texts.intersperse separator) = separator.intercalate texts := by
  induction texts with
  | nil => rfl
  | cons text texts ih => cases texts <;> simp_all [String.append_assoc]

theorem join_map_join (texts : List (List String)) :
    String.join (texts.map String.join) = String.join texts.flatten := by
  induction texts with
  | nil => rfl
  | cons text texts ih => simp [ih]

/-- The pieces of a call make up its text. -/
theorem SinkCall.join_pieces (call : SinkCall) : String.join call.pieces = call.written := by
  cases call with
  | triple t => simp [pieces, written, Triple.line, String.append_assoc]
  | text s => simp [pieces, written]
  | solution vars s =>
    rw [pieces, String.join_append, Solution.fields, join_intersperse]
    show "\t".intercalate (vars.map s.field) ++ String.join ["\n"] = s.line vars
    simp [Solution.line, Solution.row]
  | start | prefixName | base | finish => rfl

theorem SinkCall.map_join_pieces (calls : List SinkCall) :
    (calls.map pieces).map String.join = calls.map written := by
  rw [List.map_map]
  exact List.map_congr_left fun call _ => call.join_pieces

namespace Writer

/-! ### Writing in pieces -/

/-- Whether there is room for a text as a whole. -/
def HasRoom (limit : Option Nat) (text : String) : Prop := ∀ room ∈ limit, text.utf8ByteSize ≤ room

variable {w : Writer} {limit : Option Nat} {e : WriteError} {piece written : String}
  {pieces rest : List String} {actions : List (List String)}

theorem hasRoom_of_append {text more : String} (h : HasRoom limit (text ++ more)) : HasRoom limit text := by
  intro room hroom
  have hle := h room hroom
  rw [String.utf8ByteSize_append] at hle
  omega

/-- A piece is refused exactly if there is no room for it. -/
theorem refusal?_eq_none_iff : w.refusal? piece = none ↔ HasRoom w.limit (w.written ++ piece) := by
  unfold refusal? HasRoom
  cases w.limit with
  | none => simp
  | some room => simp

theorem write_of_error (h : w.error = some e) (pieces : List String) : w.write pieces = w := by
  rw [write, if_pos (by simp [h])]

/-- After an error nothing is written. -/
theorem writeAll_of_error (h : w.error = some e) (actions : List (List String)) : w.writeAll actions = w := by
  unfold writeAll
  induction actions with
  | nil => rfl
  | cons pieces actions ih => rw [List.foldl_cons, write_of_error h, ih]

theorem write_nil (w : Writer) : w.write [] = w := by
  unfold write
  split <;> rfl

/-- Pieces that are written in one action may be written in two. -/
theorem write_append (w : Writer) (pieces more : List String) :
    w.write (pieces ++ more) = (w.write pieces).write more := by
  cases herror : w.error with
  | some e => simp only [write_of_error herror]
  | none =>
    -- a refused piece leaves an error, which keeps both from going on
    have hput : ∀ (pieces : List String) (w : Writer), w.error = none →
        w.put (pieces ++ more) = (w.put pieces).write more := by
      intro pieces
      induction pieces with
      | nil =>
        intro w h
        simp [put, write, h]
      | cons piece rest ih =>
        intro w h
        rw [List.cons_append, put, put]
        cases hrefusal : w.refusal? piece with
        | some e => exact (write_of_error rfl more).symm
        | none => exact ih _ h
    have hwrite : ∀ l, w.write l = w.put l := fun l => if_neg (by simp [herror])
    rw [hwrite, hwrite, hput pieces w herror]

/-- Several actions come to the same as one with all their pieces. -/
theorem writeAll_eq (w : Writer) (actions : List (List String)) : w.writeAll actions = w.write actions.flatten := by
  unfold writeAll
  induction actions generalizing w with
  | nil => exact (write_nil w).symm
  | cons pieces actions ih => rw [List.foldl_cons, ih, List.flatten_cons, write_append]

/-! ### The first error -/

/-- Pieces for which there is room are all written. -/
theorem put_of_hasRoom (h : HasRoom limit (written ++ String.join pieces)) :
    put ⟨written, limit, none⟩ pieces = ⟨written ++ String.join pieces, limit, none⟩ := by
  induction pieces generalizing written with
  | nil => simp [put]
  | cons piece rest ih =>
    rw [String.join_cons, ← String.append_assoc] at h ⊢
    rw [put, refusal?_eq_none_iff.mpr (hasRoom_of_append h)]
    exact ih h

/-- If there is no room for all pieces, those before the first that does not fit are written. -/
theorem put_of_not_hasRoom (hwritten : HasRoom limit written)
    (h : ¬HasRoom limit (written ++ String.join pieces)) :
    ∃ taken piece rest e, pieces = taken ++ piece :: rest ∧ HasRoom limit (written ++ String.join taken) ∧
      refusal? ⟨written ++ String.join taken, limit, none⟩ piece = some e ∧
      put ⟨written, limit, none⟩ pieces = ⟨written ++ String.join taken, limit, some e⟩ := by
  induction pieces generalizing written with
  | nil => exact absurd (by simpa using hwritten) h
  | cons piece rest ih =>
    rw [put]
    cases hrefusal : refusal? ⟨written, limit, none⟩ piece with
    | some e => exact ⟨[], piece, rest, e, rfl, by simpa using hwritten, by simpa using hrefusal, by simp⟩
    | none =>
      rw [String.join_cons, ← String.append_assoc] at h
      obtain ⟨taken, refused, rest', e, rfl, hroom, hrefused, hput⟩ := ih (refusal?_eq_none_iff.mp hrefusal) h
      rw [String.append_assoc, ← String.join_cons] at hroom hrefused hput
      exact ⟨piece :: taken, refused, rest', e, rfl, hroom, hrefused, hput⟩

/-- What becomes of a text that some actions write piece by piece into a writer of limited room. -/
structure Stops (limit : Option Nat) (actions : List (List String)) (text : String) (w : Writer) : Prop where
  /-- A text for which there is room is written. -/
  whole : HasRoom limit text → w.outcome = .ok text
  /-- Otherwise the first piece that does not fit is refused.  What is before it is written, and the error is
  that with which the writer refuses this piece then.  Nothing that comes later changes anything. -/
  refused : ¬HasRoom limit text → ∃ taken piece rest e, actions.flatten = taken ++ piece :: rest ∧
    HasRoom limit (String.join taken) ∧ refusal? ⟨String.join taken, limit, none⟩ piece = some e ∧
    w.outcome = .error e ∧ w.written = String.join taken ∧ w.written ++ String.join (piece :: rest) = text ∧
    ∀ later : List (List String), w.writeAll later = w

theorem stops_writeAll (limit : Option Nat) (actions : List (List String)) :
    Stops limit actions (String.join actions.flatten) ((ofLimit limit).writeAll actions) := by
  have hwrite : (ofLimit limit).writeAll actions = put ⟨"", limit, none⟩ actions.flatten := by
    rw [writeAll_eq]
    rfl
  rw [hwrite]
  constructor
  · intro h
    rw [put_of_hasRoom (by simpa using h)]
    simp [outcome]
  · intro h
    have hempty : HasRoom limit "" := fun _ _ => Nat.zero_le _
    obtain ⟨taken, piece, rest, e, hpieces, hroom, hrefusal, hput⟩ :=
      put_of_not_hasRoom hempty (by simpa using h)
    rw [String.empty_append] at hroom hrefusal hput
    refine ⟨taken, piece, rest, e, hpieces, hroom, hrefusal, ?_, ?_, ?_, ?_⟩
    · rw [hput]
      rfl
    · rw [hput]
    · rw [hput, hpieces, String.join_append]
    · exact writeAll_of_error (by rw [hput])

/-- It does not matter how the texts are cut into pieces. -/
theorem stops_of_map_join {texts : List String} (limit : Option Nat) (h : actions.map String.join = texts) :
    Stops limit actions (String.join texts) ((ofLimit limit).writeAll actions) := by
  rw [← h, join_map_join]
  exact stops_writeAll limit actions

/-- **A sink that writes stops at its first error.**  Take any calls and a writer of any limit, and cut the texts
of the calls into pieces in any way: a triple is its line, a text itself, a solution the line of its fields.  If
there is room for all of it, the writer ends up with exactly this text.  Otherwise the outcome is the error
with which the writer refuses the first piece that does not fit; what is before this piece is written, and
neither the rest of its call nor any later one changes anything.  The pieces in which the sink writes are such
a way.  And the triples, the text and the solutions among the calls are those that a collecting sink keeps. -/
theorem stops_at_first_error (limit : Option Nat) (calls : List SinkCall) :
    (∀ actions : List (List String), actions.map String.join = calls.map SinkCall.written →
      Stops limit actions (String.join (calls.map SinkCall.written)) ((ofLimit limit).writeAll actions)) ∧
    Stops limit (calls.map SinkCall.pieces) (String.join (calls.map SinkCall.written))
      ((ofLimit limit).receiveAll calls) ∧
    (Collected.ofCalls calls).triples = calls.filterMap SinkCall.triple? ∧
    (Collected.ofCalls calls).text = String.join (calls.filterMap SinkCall.text?) ∧
    (Collected.ofCalls calls).solutions = calls.filterMap SinkCall.solution? := by
  refine ⟨fun actions h => stops_of_map_join limit h, ?_, ?_, ?_, ?_⟩
  · exact stops_of_map_join limit (SinkCall.map_join_pieces calls)
  · exact Collected.triples_ofCalls calls
  · exact Collected.text_ofCalls_eq_join calls
  · exact Collected.solutions_ofCalls calls

/-- A text, a solution with a character of two bytes, and a text that is one byte long. -/
def accentedCalls : List SinkCall :=
  [.start, .text "ab", .solution [⟨"x"⟩] (.ofBindings [(⟨"x"⟩, .ofText "é")]), .text "c", .finish]

/-- Their texts, character by character. -/
def accentedPieces : List (List String) := [[], ["a", "b"], ["\"", "é", "\"", "\n"], ["c"], []]

/-- With room for four bytes the accented character is refused.  The characters behind it would fit, one of
them each, but nothing is written any more. -/
theorem accented_stops : accentedPieces.map String.join = accentedCalls.map SinkCall.written ∧
    ¬HasRoom (some 4) (String.join (accentedCalls.map SinkCall.written)) ∧
    ((ofLimit (some 4)).writeAll accentedPieces).written = "ab\"" ∧
    ∃ e, ((ofLimit (some 4)).writeAll accentedPieces).outcome = .error e ∧
      ∀ later, ((ofLimit (some 4)).writeAll accentedPieces).writeAll later =
        (ofLimit (some 4)).writeAll accentedPieces := by
  have hpieces : accentedPieces.map String.join = accentedCalls.map SinkCall.written := by decide +kernel
  have hroom : ¬HasRoom (some 4) (String.join (accentedCalls.map SinkCall.written)) := by
    intro h
    exact absurd (h 4 rfl) (by decide +kernel)
  refine ⟨hpieces, hroom, by decide +kernel, ?_⟩
  obtain ⟨-, -, -, e, -, -, -, herror, -, -, hlater⟩ :=
    ((stops_at_first_error (some 4) accentedCalls).1 _ hpieces).refused hroom
  exact ⟨e, herror, hlater⟩

end Writer

end TripleLoom
