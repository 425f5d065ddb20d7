import TripleLoom.Proofs.Run.Step

/-!
# TripleLoom.Proofs.Run.Within — the tasks in a tree of tasks

A move changes the task that it makes act, and those above that one only in what stands below them.
So every task in the tree after a move was there before, or is such a one above, or is within what
the acting task has become (`Task.within_of_step`).
-/

namespace TripleLoom

namespace Task

/-- A task in a tree of tasks: the whole, or one within a task below it. -/
inductive Within (u : Task) : Task → Prop where
  | self : Within u u
  | inside {t inner : Task} {index : Nat} (h : t.inside? index = some inner)
      (hw : Within u inner) : Within u t

variable {setting : Setting} {move : Move} {t t' u v inner : Task} {s s' : RunState} {index : Nat}

theorem Within.trans (hu : u.Within v) (hv : v.Within t) : u.Within t := by
  induction hv with
  | self => exact hu
  | inside h _ ih => exact .inside h ih

theorem within_at? : ∀ {move : Move} {t : Task}, t.at? move = some u → u.Within t
  | .here, t, h | .item _, t, h => Option.some.inj h ▸ .self
  | .inside index move, t, h => by
    rw [at?, Option.bind_eq_some_iff] at h
    obtain ⟨inner, hi, hu⟩ := h
    exact .inside hi (within_at? hu)

/-- Below a task with another one below it there is that one, or what was there before. -/
theorem inside?_replaceInside {k : Nat} (h : (replaceInside index inner t).inside? k = some v) :
    v = inner ∨ ∃ j, t.inside? j = some v := by
  have hset : ∀ {l : List Task}, (l.set index inner)[k]? = some v →
      v = inner ∨ ∃ j : Nat, l[j]? = some v := by
    intro l hl
    rw [List.getElem?_set] at hl
    split at hl
    · split at hl
      · exact .inl (Option.some.inj hl).symm
      · cases hl
    · exact .inr ⟨k, hl⟩
  cases t with
  | iterating f nodes i branches error =>
    rw [replaceInside] at h
    split at h
    · exact .inr (List.getElem?_of_mem (List.mem_of_mem_eraseIdx (List.mem_of_getElem? h)))
    · exact hset h
  | generating g nodes stage running error => exact hset h
  | nesting w sink old =>
    rw [replaceInside, inside?] at h
    split at h
    · exact .inl (Option.some.inj h).symm
    · cases h
  | _ => cases h

/-- Where the tasks of a tree come from when a move is made. -/
theorem within_of_step : ∀ {move : Move} {t t' : Task} {s s' : RunState},
    t.step setting move s = some (t', s') →
    ∃ u u' : Task, t.at? move = some u ∧ u.actOn? setting move.item? s = some (u', s') ∧
      ∀ v : Task, v.Within t' → v.Within t ∨ v.Within u' ∨
        ∃ (w : Task) (index : Nat) (inner : Task), w.Within t ∧ v = replaceInside index inner w
  | .here, t, t', _, _, h | .item _, t, t', _, _, h =>
    ⟨t, t', rfl, h, fun _ hv => .inr (.inl hv)⟩
  | .inside index move, t, t', s, s', h => by
    simp only [step, Option.bind_eq_bind, Option.bind_eq_some_iff] at h
    obtain ⟨inner, hi, ⟨inner', t₁⟩, hstep, heq⟩ := h
    obtain ⟨rfl, rfl⟩ := Prod.mk.inj (Option.some.inj heq)
    obtain ⟨u, u', hu, hact, hfrom⟩ := within_of_step hstep
    refine ⟨u, u', by rw [at?, hi]; exact hu, hact, fun v hv => ?_⟩
    cases hv with
    | self => exact .inr (.inr ⟨t, index, inner', .self, rfl⟩)
    | inside hk hv =>
      rcases inside?_replaceInside hk with rfl | ⟨j, hj⟩
      · rcases hfrom v hv with hold | hnew | ⟨w, index, below, hw, rfl⟩
        · exact .inl (.inside hi hold)
        · exact .inr (.inl hnew)
        · exact .inr (.inr ⟨w, index, below, .inside hi hw, rfl⟩)
      · exact .inl (.inside hj hv)

end Task

end TripleLoom
