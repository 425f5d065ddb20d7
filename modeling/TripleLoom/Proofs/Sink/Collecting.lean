import TripleLoom.Sink

/-!
# TripleLoom.Proofs.Sink.Collecting — what a collecting sink keeps

A collecting sink keeps the triples, the texts and the solutions that it is given, each kind in the
order of the calls.
-/

namespace TripleLoom

namespace SinkCall

/-- The triple that a sink is given in a call. -/
def triple? : SinkCall → Option Triple
  | .triple t => some t
  | _ => none

/-- The text that a sink is given in a call. -/
def text? : SinkCall → Option String
  | .text s => some s
  | _ => none

/-- The solution that a sink is given in a call. -/
def solution? : SinkCall → Option Solution
  | .solution _ s => some s
  | _ => none

end SinkCall

namespace Collected

/-- What a sink appends to at each call grows by the parts of the calls. -/
theorem foldl_receive_eq_append {α : Type} {kept : Collected → List α} {part : SinkCall → Option α}
    (h : ∀ c call, kept (receive c call) = kept c ++ (part call).toList) (calls : List SinkCall)
    (c : Collected) : kept (calls.foldl receive c) = kept c ++ calls.filterMap part := by
  induction calls generalizing c with
  | nil => exact (List.append_nil _).symm
  | cons call calls ih =>
    rw [List.foldl_cons, ih, h, List.append_assoc, List.filterMap_cons]
    cases part call <;> rfl

theorem triples_ofCalls (calls : List SinkCall) :
    (ofCalls calls).triples = calls.filterMap SinkCall.triple? := by
  refine foldl_receive_eq_append (fun c call => ?_) calls empty
  cases call with
  | triple t => rfl
  | start | prefixName | base | text | solution | finish => exact (List.append_nil _).symm

theorem solutions_ofCalls (calls : List SinkCall) :
    (ofCalls calls).solutions = calls.filterMap SinkCall.solution? := by
  refine foldl_receive_eq_append (fun c call => ?_) calls empty
  cases call with
  | solution vars s => rfl
  | start | prefixName | base | triple | text | finish => exact (List.append_nil _).symm

theorem text_ofCalls_eq_join (calls : List SinkCall) :
    (ofCalls calls).text = String.join (calls.filterMap SinkCall.text?) := by
  have hfold : ∀ (calls : List SinkCall) (c : Collected),
      (calls.foldl receive c).text = c.text ++ String.join (calls.filterMap SinkCall.text?) := by
    intro calls
    induction calls with
    | nil => exact fun c => (String.append_empty).symm
    | cons call calls ih =>
      intro c
      rw [List.foldl_cons, ih]
      cases call with
      | text s =>
        have hjoin : String.join ((.text s :: calls).filterMap SinkCall.text?) =
            s ++ String.join (calls.filterMap SinkCall.text?) := String.join_cons
        rw [hjoin, ← String.append_assoc]
        rfl
      | _ => rfl
  exact (hfold calls empty).trans String.empty_append

end Collected

end TripleLoom
