import TripleLoom.Proofs.Generation.Sheltering
import TripleLoom.Proofs.Text.Parts

/-!
# TripleLoom.Proofs.Run.Sealing — every sink has its own writers

A task writes into one sink: into that of the run, or into the sink in which the text of the query
that it belongs to is gathered (`Task.WritesTo`).  The sinks in which a tree of tasks gathers text
(`Task.gathered`) are all different.  So what one query inside a text writes, nothing else in the tree
touches, and every move keeps it so (`Task.IsSealed.step`).
-/

namespace TripleLoom

open RunM

namespace Task

mutual

/-- The sinks in which a tree of tasks gathers text. -/
def gathered : Task → List SinkId
  | .iterating _ _ _ branches _ => gatheredAll branches
  | .generating _ _ _ running _ => gatheredAll running
  | .nesting _ sink inner => sink :: inner.gathered
  | .finished _ | .clauses .. | .fetching .. | .selecting .. | .evaluating .. | .assembling ..
  | .writing _ | .entering .. | .asking .. => []

/-- The sinks in which some trees gather text. -/
def gatheredAll : List Task → List SinkId
  | [] => []
  | t :: rest => t.gathered ++ gatheredAll rest

end

/-- A task writes into a sink, and what is below it too, unless text is gathered from it. -/
inductive WritesTo : SinkId → Task → Prop where
  | nesting {σ sink : SinkId} {w : Writing} {inner : Task} (hw : w.context.sink = σ)
    (h : WritesTo sink inner) : WritesTo σ (.nesting w sink inner)
  | node {σ : SinkId} {t : Task} (hg : t.gathers? = none) (hown : ∀ c ∈ t.contexts, c.sink = σ)
    (h : ∀ inner ∈ t.insides, WritesTo σ inner) : WritesTo σ t

/-- A tree that writes into a sink gathers text in others that are all different. -/
structure IsSealed (σ : SinkId) (s : RunState) (t : Task) : Prop where
  writesTo : t.WritesTo σ
  nodup : (σ :: t.gathered).Nodup
  lt : ∀ sink ∈ σ :: t.gathered, sink < s.nextSink

variable {setting : Setting} {t t' u v inner : Task} {s s' : RunState} {index : Nat}
  {σ sink : SinkId} {move : Move}

theorem gatheredAll_eq (ts : List Task) : gatheredAll ts = ts.flatMap gathered := by
  induction ts with
  | nil => rfl
  | cons t ts ih => rw [gatheredAll, ih, List.flatMap_cons]

theorem gathered_eq (t : Task) : t.gathered = t.gathers?.toList ++ t.insides.flatMap gathered := by
  cases t with
  | iterating | generating => exact gatheredAll_eq _
  | nesting => exact congrArg (_ :: ·) (List.append_nil _).symm
  | _ => rfl

theorem gathered_of_isFinished (h : t.isFinished = true) : t.gathered = [] := by
  cases t with
  | finished => rfl
  | _ => cases h

/-- The task that takes the place of another one stands between the same tasks, or is taken away. -/
theorem insides_replaceInside (h : t.inside? index = some inner) :
    ∃ before after, t.insides = before ++ inner :: after ∧ ∀ inner' : Task,
      (replaceInside index inner' t).insides = before ++ inner' :: after ∨
        inner'.isFinished = true ∧ (replaceInside index inner' t).insides = before ++ after := by
  have hcut {ts : List Task} (hts : ts[index]? = some inner) : index < ts.length ∧
      ts = ts.take index ++ inner :: ts.drop (index + 1) := by
    obtain ⟨hlt, rfl⟩ := List.getElem?_eq_some_iff.mp hts
    rw [List.getElem_cons_drop hlt, List.take_append_drop]
    exact ⟨hlt, rfl⟩
  have hset {ts : List Task} (hlt : index < ts.length) (inner' : Task) :
      ts.set index inner' = ts.take index ++ inner' :: ts.drop (index + 1) := by
    rw [List.set_eq_take_append_cons_drop, if_pos hlt]
  cases t with
  | iterating f nodes i branches error =>
    obtain ⟨hlt, hbranches⟩ := hcut h
    refine ⟨_, _, hbranches, fun inner' => ?_⟩
    rw [replaceInside]
    split
    · next hf => exact .inr ⟨hf, List.eraseIdx_eq_take_drop_succ ..⟩
    · exact .inl (hset hlt inner')
  | generating g nodes stage running error =>
    obtain ⟨hlt, hrunning⟩ := hcut h
    exact ⟨_, _, hrunning, fun inner' => .inl (hset hlt inner')⟩
  | nesting w sink old =>
    rw [inside?] at h
    split at h
    · obtain rfl := Option.some.inj h
      exact ⟨[], [], rfl, fun inner' => .inl rfl⟩
    · cases h
  | _ => cases h

theorem gathers?_replaceInside (index : Nat) (inner t : Task) :
    (replaceInside index inner t).gathers? = t.gathers? := by
  cases t with
  | iterating => rw [replaceInside]; split <;> rfl
  | _ => rfl

/-- The sinks of a tree below a task stand beside others, and those of what takes its place too. -/
theorem perm_gathered (h : t.inside? index = some inner) :
    ∃ rest, t.gathered.Perm (inner.gathered ++ rest) ∧
      ∀ inner' : Task, (replaceInside index inner' t).gathered.Perm (inner'.gathered ++ rest) := by
  obtain ⟨before, after, hinsides, hreplaced⟩ := insides_replaceInside h
  have hperm (sinks : List SinkId) :
      (t.gathers?.toList ++ (before.flatMap gathered ++ (sinks ++ after.flatMap gathered))).Perm
        (sinks ++ (t.gathers?.toList ++ (before.flatMap gathered ++ after.flatMap gathered))) :=
    ((List.perm_append_comm_assoc _ _ _).append_left _).trans (List.perm_append_comm_assoc _ _ _)
  refine ⟨t.gathers?.toList ++ (before.flatMap gathered ++ after.flatMap gathered), ?_,
    fun inner' => ?_⟩
  · rw [gathered_eq t, hinsides, List.flatMap_append, List.flatMap_cons]
    exact hperm inner.gathered
  · rw [gathered_eq, gathers?_replaceInside]
    rcases hreplaced inner' with heq | ⟨hf, heq⟩ <;> rw [heq, List.flatMap_append]
    · rw [List.flatMap_cons]
      exact hperm inner'.gathered
    · rw [gathered_of_isFinished hf]
      exact .refl _

theorem gathered_subset (h : t.inside? index = some inner) : inner.gathered ⊆ t.gathered := by
  obtain ⟨rest, hperm, -⟩ := perm_gathered h
  exact fun sink hsink => hperm.mem_iff.mpr (List.mem_append_left rest hsink)

/-- Whatever writes in a tree writes into the tree's sink or into one in which text is gathered. -/
theorem WritesTo.sink_mem (h : t.WritesTo σ) (hu : u.Within t) :
    ∀ c ∈ u.contexts, c.sink ∈ σ :: t.gathered := by
  induction h with
  | nesting hw _ ih =>
    intro c hc
    cases hu with
    | self =>
      obtain rfl := List.mem_singleton.mp hc
      exact hw ▸ List.mem_cons_self
    | inside hi hu =>
      rw [inside?, Option.ite_none_right_eq_some, Option.some.injEq] at hi
      obtain ⟨-, rfl⟩ := hi
      exact List.mem_cons_of_mem _ (ih hu c hc)
  | node hg hown _ ih =>
    intro c hc
    cases hu with
    | self => exact hown c hc ▸ List.mem_cons_self
    | inside hi hu =>
      exact List.cons_subset_cons _ (gathered_subset hi) (ih _ (mem_insides hi) hu c hc)

/-- A tree leaves all other sinks alone. -/
theorem WritesTo.avoids (h : t.WritesTo σ) (hsink : sink ∉ σ :: t.gathered) : t.Avoids sink :=
  fun _ hu c hc heq => hsink (heq ▸ h.sink_mem hu c hc)

/-- What a tree below a task writes into. -/
theorem WritesTo.inside (h : t.WritesTo σ) (hi : t.inside? index = some inner) :
    inner.WritesTo (t.gathers?.getD σ) := by
  cases h with
  | nesting _ h =>
    rw [inside?, Option.ite_none_right_eq_some, Option.some.injEq] at hi
    obtain ⟨-, rfl⟩ := hi
    exact h
  | node hg _ h =>
    rw [hg]
    exact h inner (mem_insides hi)

/-- What a tree below a task writes into and gathers in, the task's tree writes into or gathers in. -/
theorem subperm_inside (hi : t.inside? index = some inner) :
    (t.gathers?.getD σ :: inner.gathered).Subperm (σ :: t.gathered) := by
  by_cases hg : t.gathers? = none
  · obtain ⟨rest, hperm, -⟩ := perm_gathered hi
    rw [hg]
    exact List.subperm_cons σ |>.mpr
      ((List.sublist_append_left _ rest).subperm.trans hperm.symm.subperm)
  · cases t with
    | nesting w x old =>
      rw [inside?, Option.ite_none_right_eq_some, Option.some.injEq] at hi
      obtain ⟨-, rfl⟩ := hi
      exact (List.sublist_cons_self _ _).subperm
    | _ => exact absurd rfl hg

theorem IsSealed.inside (h : t.IsSealed σ s) (hi : t.inside? index = some inner) :
    inner.IsSealed (t.gathers?.getD σ) s := by
  obtain ⟨sinks, hperm, hsublist⟩ := subperm_inside (σ := σ) hi
  exact ⟨h.writesTo.inside hi, hperm.nodup_iff.mp (h.nodup.sublist hsublist),
    fun sink hsink => h.lt sink (hsublist.subset (hperm.mem_iff.mpr hsink))⟩

/-- In a tree that is sealed every tree is. -/
theorem IsSealed.within (h : t.IsSealed σ s) (hu : u.Within t) : ∃ own, u.IsSealed own s := by
  induction hu generalizing σ with
  | self => exact ⟨σ, h⟩
  | inside hi _ ih => exact ih (h.inside hi)

/-! ### Moves -/

theorem WritesTo.own (h : t.WritesTo σ) : ∀ c ∈ t.contexts, c.sink = σ := by
  cases h with
  | nesting hw => exact fun c hc => List.mem_singleton.mp hc ▸ hw
  | node _ hown => exact hown

/-- A task that has nothing below it and gathers nothing. -/
theorem WritesTo.leaf (hg : t.gathers? = none) (hown : ∀ c ∈ t.contexts, c.sink = σ)
    (hnone : ∀ k, t.inside? k = none) : t.WritesTo σ :=
  .node hg hown fun inner hi => by
    obtain ⟨k, hk⟩ := exists_inside? hi
    rw [hnone] at hk
    cases hk

theorem Begets.gathers?_eq_none (h : t.Begets u) : u.gathers? = none := by
  cases h <;> rfl

/-- What a task starts writes into the task's sink, unless it is there to gather text. -/
theorem Begets.writesTo (h : t.Begets u) (hown : ∀ c ∈ t.contexts, c.sink = σ)
    (hw : ∀ w, t ≠ .writing w) : u.WritesTo σ := by
  refine .leaf h.gathers?_eq_none (fun c hc => ?_) h.inside?_eq_none
  rcases h.sink_mem with hmem | ⟨w, heq⟩
  · obtain ⟨d, hd, heq⟩ := List.mem_map.mp (hmem c hc)
    exact heq ▸ hown d hd
  · exact absurd heq (hw w)

/-- What a task turns into writes where the task has written. -/
theorem Turns.writesTo (h : Turns setting s t t' s') (ht : t.WritesTo σ) : t'.WritesTo σ := by
  have hown (c : Context) (hc : c ∈ t'.contexts) : c.sink = σ := by
    obtain ⟨d, hd, heq⟩ := List.mem_map.mp (h.sink_mem c hc)
    exact heq ▸ ht.own d hd
  -- what neither was nor is there to gather text goes on beside what it has started
  have hnode (hg : t.gathers? = none) (hw : ∀ w, t ≠ .writing w) (hg' : t'.gathers? = none) :
      t'.WritesTo σ := by
    refine .node hg' hown fun inner hi => ?_
    obtain ⟨k, hk⟩ := exists_inside? hi
    rcases h.inside hk with ⟨j, hj⟩ | hb
    · have hold := ht.inside hj
      rwa [hg] at hold
    · exact hb.writesTo ht.own hw
  cases h with
  | stay => exact ht
  | embed | embedCall =>
    exact .nesting (hown _ List.mem_cons_self)
      (.leaf rfl (fun c hc => List.mem_singleton.mp hc ▸ rfl) fun _ => rfl)
  | finish | resume | collect | call | ask => exact .leaf rfl hown fun _ => rfl
  | _ => exact hnode rfl (fun _ => nofun) rfl

theorem gathered_eq_nil (hg : t.gathers? = none) (h : ∀ inner ∈ t.insides, inner.gathered = []) :
    t.gathered = [] := by
  rw [gathered_eq, hg, List.flatMap_eq_nil_iff.mpr h]
  rfl

theorem Begets.gathered_eq_nil (h : t.Begets u) : u.gathered = [] :=
  Task.gathered_eq_nil h.gathers?_eq_none fun inner hi => by
    obtain ⟨k, hk⟩ := exists_inside? hi
    rw [h.inside?_eq_none] at hk
    cases hk

/-- What a task turns into gathers as the task has gathered, or not at all, or in a new sink. -/
theorem Turns.gathered (h : Turns setting s t t' s') :
    t'.gathered = t.gathered ∨ t'.gathered = [] ∨
      ∃ x, t'.gathered = [x] ∧ s.nextSink ≤ x ∧ x < s'.nextSink := by
  have hnew {ts : List Task} (hts : ∀ u ∈ ts, t.Begets u) : gatheredAll ts = [] := by
    rw [gatheredAll_eq]
    exact List.flatMap_eq_nil_iff.mpr fun u hu => (hts u hu).gathered_eq_nil
  cases h with
  | stay | tell => exact .inl rfl
  | hear f nodes i branches error wantsEmpty =>
    have hstarted : gatheredAll ((i.hear.takeSequences wantsEmpty).1.map (.clauses f nodes)) = [] :=
      hnew fun u hu => by
        obtain ⟨q, hq, rfl⟩ := List.mem_map.mp hu
        exact .branch hq
    rw [gatheredAll_eq] at hstarted
    refine .inl ?_
    rw [Task.gathered, Task.gathered, gatheredAll_eq, gatheredAll_eq, List.flatMap_append, hstarted,
      List.append_nil]
  | nest g plan =>
    refine .inr (.inl (hnew fun u hu => ?_))
    obtain ⟨⟨c, u⟩, hs, rfl⟩ := List.mem_map.mp hu
    exact .nested hs
  | resolve g call =>
    refine .inr (.inl (hnew fun u hu => ?_))
    obtain ⟨name, -, rfl⟩ := List.mem_map.mp hu
    exact .resolve _ name
  | resolved g nodes call calls =>
    refine .inr (.inl (hnew fun u hu => ?_))
    obtain ⟨⟨name, u⟩, -, rfl⟩ := List.mem_map.mp hu
    exact .call
  | embed _ sink _ _ _ hsink | embedCall _ sink _ _ _ _ hsink => exact .inr (.inr ⟨sink, rfl, hsink⟩)
  | _ => exact .inr (.inl rfl)

/-- A sink that is new is different from all that are there. -/
theorem IsSealed.turns (h : t.IsSealed σ s) (hturns : Turns setting s t t' s')
    (hsinks : s.nextSink ≤ s'.nextSink) : t'.IsSealed σ s' := by
  have hσ := h.lt σ List.mem_cons_self
  refine ⟨hturns.writesTo h.writesTo, ?_, ?_⟩
  · rcases hturns.gathered with heq | heq | ⟨x, heq, hle, -⟩ <;> rw [heq]
    · exact h.nodup
    · exact List.nodup_singleton σ
    · exact List.nodup_cons.mpr ⟨fun hmem => Nat.ne_of_lt (Nat.lt_of_lt_of_le hσ hle)
        (List.mem_singleton.mp hmem), List.nodup_singleton x⟩
  · refine List.forall_mem_cons.mpr ⟨Nat.lt_of_lt_of_le hσ hsinks, ?_⟩
    rcases hturns.gathered with heq | heq | ⟨x, heq, -, hlt⟩ <;> rw [heq]
    · exact fun sink hsink => Nat.lt_of_lt_of_le (h.lt sink (List.mem_cons_of_mem _ hsink)) hsinks
    · exact List.forall_mem_nil _
    · exact List.forall_mem_singleton.mpr hlt

/-- What takes the place of a tree below a task writes where that has written. -/
theorem WritesTo.replaceInside {inner' : Task} (h : t.WritesTo σ) (hi : t.inside? index = some inner)
    (hinner : inner'.WritesTo (t.gathers?.getD σ)) : (replaceInside index inner' t).WritesTo σ := by
  cases h with
  | nesting hw => exact .nesting hw hinner
  | node hg hown h =>
    rw [hg] at hinner
    obtain ⟨before, after, hinsides, hreplaced⟩ := insides_replaceInside hi
    rw [hinsides] at h
    have hrest : ∀ u ∈ before ++ after, u.WritesTo σ := fun u hu =>
      h u (List.perm_middle.mem_iff.mpr (List.mem_cons_of_mem inner hu))
    refine .node ((gathers?_replaceInside index inner' t).trans hg)
      (contexts_replaceInside index inner' t ▸ hown) fun u hu => ?_
    rcases hreplaced inner' with heq | ⟨-, heq⟩ <;> rw [heq] at hu
    · rcases List.mem_cons.mp (List.perm_middle.mem_iff.mp hu) with rfl | hu
      · exact hinner
      · exact hrest u hu
    · exact hrest u hu

/-- What takes the place of a tree below a task may gather in the sinks of that, or in new ones. -/
theorem IsSealed.replaceInside {inner' : Task} (h : t.IsSealed σ s)
    (hi : t.inside? index = some inner) (hinner : inner'.IsSealed (t.gathers?.getD σ) s')
    (hsinks : s.nextSink ≤ s'.nextSink)
    (hnew : ∀ x ∈ inner'.gathered, x ∈ inner.gathered ∨ s.nextSink ≤ x) :
    (replaceInside index inner' t).IsSealed σ s' := by
  obtain ⟨rest, hperm, hreplaced⟩ := perm_gathered hi
  have hold : (σ :: t.gathered).Perm (inner.gathered ++ σ :: rest) :=
    (hperm.cons σ).trans List.perm_middle.symm
  have hnow : (σ :: (Task.replaceInside index inner' t).gathered).Perm
      (inner'.gathered ++ σ :: rest) :=
    ((hreplaced inner').cons σ).trans List.perm_middle.symm
  obtain ⟨-, hrest, hapart⟩ := List.nodup_append'.mp (hold.nodup_iff.mp h.nodup)
  have hlt : ∀ x ∈ σ :: rest, x < s.nextSink := fun x hx =>
    h.lt x (hold.mem_iff.mpr (List.mem_append_right _ hx))
  refine ⟨h.writesTo.replaceInside hi hinner.writesTo, ?_, fun x hx => ?_⟩
  · refine hnow.nodup_iff.mpr (List.nodup_append'.mpr
      ⟨(List.nodup_cons.mp hinner.nodup).2, hrest, fun x hx hmem => ?_⟩)
    rcases hnew x hx with hx | hx
    · exact hapart hx hmem
    · exact Nat.not_lt.mpr hx (hlt x hmem)
  · rcases List.mem_append.mp (hnow.mem_iff.mp hx) with hx | hx
    · exact hinner.lt x (List.mem_cons_of_mem _ hx)
    · exact Nat.lt_of_lt_of_le (hlt x hx) hsinks

/-- A move of what is below a task is one of the task. -/
theorem step_inside_iff {m : Move} : t.step setting (.inside index m) s = some (t', s') ↔
    ∃ inner inner' : Task, t.inside? index = some inner ∧
      inner.step setting m s = some (inner', s') ∧ t' = Task.replaceInside index inner' t := by
  simp only [Task.step, Option.bind_eq_bind, Option.bind_eq_some_iff, Option.pure_def,
    Option.some.injEq, Prod.mk.injEq, Prod.exists]
  constructor
  · rintro ⟨inner, hi, inner', _, hstep, rfl, rfl⟩
    exact ⟨inner, inner', hi, hstep, rfl⟩
  · rintro ⟨inner, inner', hi, hstep, rfl⟩
    exact ⟨inner, hi, inner', s', hstep, rfl, rfl⟩

theorem IsSealed.act (item? : Option Nat) (h : t.IsSealed σ s) (hin : t.AreIn s)
    (hact : t.actOn? setting item? s = some (t', s')) :
    t'.IsSealed σ s' ∧ ∀ x ∈ t'.gathered, x ∈ t.gathered ∨ s.nextSink ≤ x := by
  have hturns : Turns setting s t t' s' := turns_actOn? hact (hin t .self)
  have hspares : s.Spares (fun _ => False) s' :=
    spares_actOn? hact fun _ _ => id
  refine ⟨h.turns hturns hspares.sinks, fun x hx => ?_⟩
  rcases hturns.gathered with heq | heq | ⟨y, heq, hle, -⟩ <;> rw [heq] at hx
  · exact .inl hx
  · cases hx
  · exact .inr (List.mem_singleton.mp hx ▸ hle)

/-- **Every move keeps a tree sealed**, and what a tree gathers in then, it has gathered in before, or
it is a new sink. -/
theorem IsSealed.step : ∀ {move : Move} {σ : SinkId} {t t' : Task} {s s' : RunState},
    t.IsSealed σ s → t.AreIn s → t.step setting move s = some (t', s') →
    t'.IsSealed σ s' ∧ ∀ x ∈ t'.gathered, x ∈ t.gathered ∨ s.nextSink ≤ x := by
  intro move
  induction move with
  | here => exact fun h hin hm => h.act none hin hm
  | item k => exact fun h hin hm => h.act (some k) hin hm
  | inside index move ih =>
    intro σ t t' s s' h hin hm
    have hsinks := nextSink_le_of_step hm
    obtain ⟨inner, inner', hi, hstep, rfl⟩ := step_inside_iff.mp hm
    obtain ⟨hinner, hnew⟩ := ih (h.inside hi) (hin.inside hi) hstep
    refine ⟨h.replaceInside hi hinner hsinks hnew, fun x hx => ?_⟩
    obtain ⟨rest, hperm, hreplaced⟩ := perm_gathered hi
    rcases List.mem_append.mp ((hreplaced inner').mem_iff.mp hx) with hx | hx
    · exact (hnew x hx).imp_left fun hold => gathered_subset hi hold
    · exact .inl (hperm.mem_iff.mpr (List.mem_append_right _ hx))

end Task

end TripleLoom
