/-!
# TripleLoom.Text.Search — looking for one text in another

Texts are lists of characters.  `cut?` cuts a text at the first occurrence of another, and
`pieces` at every one, from the left and without overlap; the pieces joined again give the text.
-/

namespace TripleLoom.Text

variable {α : Type} [BEq α]

/-- The text before and behind the first occurrence of a needle. -/
def cut? (needle : List α) : List α → Option (List α × List α)
  | [] => if needle.isEmpty then some ([], []) else none
  | c :: rest =>
    match needle.isPrefixOf? (c :: rest) with
    | some after => some ([], after)
    | none => (cut? needle rest).map fun (before, after) => (c :: before, after)

/-- Whether a needle occurs in a text. -/
def contains (needle s : List α) : Bool := (cut? needle s).isSome

theorem length_of_isPrefixOf? {p s after : List α} (h : p.isPrefixOf? s = some after) :
    s.length = p.length + after.length := by
  induction p generalizing s with
  | nil =>
    cases h
    exact (Nat.zero_add _).symm
  | cons a p ih =>
    cases s with
    | nil => cases h
    | cons b s =>
      change (if a == b then p.isPrefixOf? s else none) = some after at h
      split at h
      · simp [ih h]; omega
      · cases h

theorem length_of_cut? {needle s before after : List α} (h : cut? needle s = some (before, after)) :
    s.length = before.length + needle.length + after.length := by
  induction s generalizing before with
  | nil =>
    simp only [cut?] at h
    split at h
    · simp only [Option.some.injEq, Prod.mk.injEq] at h
      simp_all
    · cases h
  | cons c rest ih =>
    simp only [cut?] at h
    split at h
    · rename_i heq
      simp only [Option.some.injEq, Prod.mk.injEq] at h
      obtain ⟨rfl, rfl⟩ := h
      rw [length_of_isPrefixOf? heq]
      simp
    · cases hc : cut? needle rest with
      | none => simp [hc] at h
      | some p =>
        obtain ⟨b, a⟩ := p
        simp only [hc, Option.map_some, Option.some.injEq, Prod.mk.injEq] at h
        obtain ⟨rfl, rfl⟩ := h
        simp [ih hc]
        omega

/-- A text cut at every occurrence of a separator; an empty separator occurs nowhere. -/
def pieces (separator s : List α) : List (List α) :=
  if _hs : separator = [] then [s]
  else
    match _h : cut? separator s with
    | none => [s]
    | some (before, after) => before :: pieces separator after
termination_by s.length
decreasing_by
  have := length_of_cut? _h
  have : 0 < separator.length := List.length_pos_iff.mpr _hs
  omega

end TripleLoom.Text
