import TripleLoom.Term.Basic

/-!
# TripleLoom.Term.Declared — variables in the order of their declaration

Declaring a variable puts it behind those declared before, unless it is one of them.  So a list
that grows by declarations alone holds each of its variables once, and never moves one.
-/

namespace TripleLoom.Variable

/-- A list of variables with one more declared. -/
def declare (declared : List Variable) (v : Variable) : List Variable :=
  if v ∈ declared then declared else declared ++ [v]

/-- A list of variables with more declared, one after the other. -/
def declareAll (declared : List Variable) (vars : List Variable) : List Variable :=
  vars.foldl declare declared

@[simp] theorem mem_declare {declared : List Variable} {v w : Variable} :
    w ∈ declare declared v ↔ w ∈ declared ∨ w = v := by
  unfold declare
  split
  · constructor
    · exact .inl
    · rintro (h | rfl) <;> assumption
  · simp

theorem nodup_declare {declared : List Variable} (h : declared.Nodup) (v : Variable) :
    (declare declared v).Nodup := by
  unfold declare
  split
  · exact h
  · rename_i hv
    rw [List.nodup_append]
    exact ⟨h, by simp, fun a ha b hb hab => hv (by simp_all)⟩

@[simp] theorem mem_declareAll {declared vars : List Variable} {w : Variable} :
    w ∈ declareAll declared vars ↔ w ∈ declared ∨ w ∈ vars := by
  unfold declareAll
  induction vars generalizing declared with
  | nil => simp
  | cons v vs ih => simp [ih, or_assoc]

theorem nodup_declareAll {declared : List Variable} (h : declared.Nodup)
    (vars : List Variable) : (declareAll declared vars).Nodup := by
  unfold declareAll
  induction vars generalizing declared with
  | nil => exact h
  | cons v vs ih => exact ih (nodup_declare h v)

end TripleLoom.Variable
