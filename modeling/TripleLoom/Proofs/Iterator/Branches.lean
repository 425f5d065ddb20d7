import Mathlib.Data.List.Perm.Basic
import TripleLoom.Proofs.Iterator.Chronicle

/-!
# TripleLoom.Proofs.Iterator.Branches — the branches of an iterator

The branches of an iterator are numbered as they are started.  Those at work stand in the task in the
order of their numbers in the chronicle, each where its own moves have brought it; those that are
over have come to their outcome by their own moves (`Branches`).  A branch that is started, one that
moves, one that ends, and whatever happens elsewhere keep this.
-/

namespace TripleLoom

/-- The branches that are at work and those that are over are all that were started, and the error
is the first that came of one. -/
structure Branches (setting : Setting) (c : Chronicle) (branches : List Task) (error : Outcome)
    (s : RunState) : Prop where
  numbers : (c.running ++ c.ended.map (·.1)).Perm (List.range c.started.length)
  length : c.running.length = branches.length
  running : ∀ (j n : Nat) (u : Task), c.running[j]? = some n → branches[j]? = some u →
    ∃ t : Task, c.started[n]? = some t ∧ t.Reaches setting u s
  ended : ∀ e ∈ c.ended, ∃ (t : Task) (s' : RunState),
    c.started[e.1]? = some t ∧ t.Reaches setting (.finished e.2) s'
  error : error = c.ended.findSome? (·.2)

namespace Branches

variable {setting : Setting} {c : Chronicle} {branches : List Task} {error : Outcome}
variable {s s' : RunState}

theorem empty (setting : Setting) (s : RunState) : Branches setting .empty [] none s where
  numbers := List.Perm.refl _
  length := rfl
  running j n u hn := by cases hn
  ended e he := by cases he
  error := rfl

/-- Whatever happens elsewhere. -/
theorem others (h : Branches setting c branches error s)
    (hs : s.isClosed = true → s'.isClosed = true) : Branches setting c branches error s' where
  numbers := h.numbers
  length := h.length
  running j n u hn hu := by
    obtain ⟨t, ht, hreaches⟩ := h.running j n u hn hu
    exact ⟨t, ht, hreaches.others hs⟩
  ended := h.ended
  error := h.error

/-- Some branches are started. -/
theorem start (h : Branches setting c branches error s) (more : List Task) :
    Branches setting { c with
        started := c.started ++ more
        running := c.running ++ List.range' c.started.length more.length }
      (branches ++ more) error s where
  numbers := by
    have hrange : List.range (c.started ++ more).length =
        List.range c.started.length ++ List.range' c.started.length more.length := by
      rw [List.length_append, List.range_eq_range', List.range_eq_range', ← List.range'_append_1,
        Nat.zero_add]
    rw [hrange, List.append_assoc]
    refine (List.perm_append_comm.append_left _).trans ?_
    rw [← List.append_assoc]
    exact h.numbers.append_right _
  length := by simp [h.length]
  running j n u hn hu := by
    rw [List.getElem?_append] at hn hu
    rw [h.length] at hn
    by_cases hlt : j < branches.length
    · rw [if_pos hlt] at hn hu
      obtain ⟨t, ht, hreaches⟩ := h.running j n u hn hu
      refine ⟨t, ?_, hreaches⟩
      rw [List.getElem?_append_left (List.getElem?_eq_some_iff.mp ht).1, ht]
    · rw [if_neg hlt] at hn hu
      obtain ⟨hlt', rfl⟩ := List.getElem?_eq_some_iff.mp hn
      refine ⟨u, ?_, .refl u s⟩
      rw [List.getElem_range', Nat.one_mul, List.getElem?_append_right (Nat.le_add_right _ _),
        Nat.add_sub_cancel_left, hu]
  ended e he := by
    obtain ⟨t, s', ht, hreaches⟩ := h.ended e he
    refine ⟨t, s', ?_, hreaches⟩
    rw [List.getElem?_append_left (List.getElem?_eq_some_iff.mp ht).1, ht]
  error := h.error

/-- A branch goes on. -/
theorem goOn (h : Branches setting c branches error s) {index : Nat} {move : Move} {u v : Task}
    (hu : branches[index]? = some u) (hm : u.step setting move s = some (v, s')) :
    Branches setting c (branches.set index v) error s' where
  numbers := h.numbers
  length := by simp [h.length]
  running j n w hn hw := by
    rw [List.getElem?_set] at hw
    by_cases heq : index = j
    · subst heq
      obtain ⟨t, ht, hreaches⟩ := h.running index n u hn hu
      rw [if_pos rfl, if_pos (List.getElem?_eq_some_iff.mp hu).1] at hw
      obtain rfl := Option.some.inj hw
      exact ⟨t, ht, hreaches.step hm⟩
    · rw [if_neg heq] at hw
      obtain ⟨t, ht, hreaches⟩ := h.running j n w hn hw
      exact ⟨t, ht, hreaches.others fun hs => (Task.inner_step hm).isClosed.trans hs⟩
  ended := h.ended
  error := h.error

/-- A branch comes to its end. -/
theorem finish (h : Branches setting c branches error s) {index : Nat} {move : Move} {u v : Task}
    (hu : branches[index]? = some u) (hm : u.step setting move s = some (v, s'))
    (hover : v.isFinished = true) :
    Branches setting { c with
        running := c.running.eraseIdx index
        ended := c.ended ++ (c.running[index]?).toList.map (·, v.outcome) }
      (branches.eraseIdx index) (error.or v.outcome) s' := by
  have hlt : index < c.running.length := by
    rw [h.length]
    exact (List.getElem?_eq_some_iff.mp hu).1
  have hn : c.running[index]? = some c.running[index] := List.getElem?_eq_getElem hlt
  rw [hn]
  refine ⟨?_, ?_, fun j n w hj hw => ?_, fun e he => ?_, ?_⟩
  · show (c.running.eraseIdx index ++ (c.ended ++ [(c.running[index], v.outcome)]).map (·.1)).Perm _
    have hperm := (List.getElem_cons_eraseIdx_perm hlt).append_right (c.ended.map (·.1))
    rw [List.map_append, ← List.append_assoc]
    exact (List.perm_append_singleton _ _).trans (hperm.trans h.numbers)
  · show (c.running.eraseIdx index).length = _
    rw [List.length_eraseIdx, List.length_eraseIdx, h.length]
  · rw [List.getElem?_eraseIdx] at hj hw
    have hkeep : ∃ k : Nat, c.running[k]? = some n ∧ branches[k]? = some w := by
      by_cases hlt : j < index
      · rw [if_pos hlt] at hj hw
        exact ⟨j, hj, hw⟩
      · rw [if_neg hlt] at hj hw
        exact ⟨j + 1, hj, hw⟩
    obtain ⟨k, hj, hw⟩ := hkeep
    obtain ⟨t, ht, hreaches⟩ := h.running k n w hj hw
    exact ⟨t, ht, hreaches.others fun hs => (Task.inner_step hm).isClosed.trans hs⟩
  · rcases List.mem_append.mp he with he | he
    · exact h.ended e he
    · obtain rfl := List.mem_singleton.mp he
      obtain ⟨t, ht, hreaches⟩ := h.running index _ u hn hu
      have hv : v = .finished v.outcome := by
        cases v with
        | finished o => rfl
        | _ => cases hover
      exact ⟨t, s', ht, hv ▸ hreaches.step hm⟩
  · show _ = List.findSome? _ (c.ended ++ _)
    rw [List.findSome?_append, ← h.error]
    cases v.outcome <;> rfl

end Branches

end TripleLoom
