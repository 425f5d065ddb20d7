import TripleLoom.Proofs.Run.Sealing

/-!
# TripleLoom.Proofs.Run.Following — a task followed through a run

A run is a tree of tasks that go on side by side.  A move of the tree takes a task in it on, or leaves
it as it is (`Task.Carries`), so a task can be followed through a run from the moment it begins, and
what it writes can be told apart from what the others write (`Run.Carries`).  In a run every tree is
sealed (`Run.IsSealed`): what others do leaves alone the sinks in which a task gathers text
(`Task.Carries.spares`).
-/

namespace TripleLoom

open RunM

namespace Task

/-- What a move that makes one tree of another does to a task in it: the task makes the move itself or
with what is below it, or another task in the tree acts, above it or beside it. -/
inductive Carries (setting : Setting) (s s' : RunState) :
    Move → Task → Task → Task → Option Move → Task → Prop where
  | self {move : Move} {t t' : Task} (h : t.step setting move s = some (t', s')) :
    Carries setting s s' move t t' t (some move) t'
  | above {move : Move} {t t' u inner : Task} (hmove : ∀ index m, move ≠ .inside index m)
    (h : t.step setting move s = some (t', s')) (hi : inner ∈ t.insides) (hi' : inner ∈ t'.insides)
    (hu : u.Within inner) : Carries setting s s' move t t' u none u
  | inside {index : Nat} {move : Move} {t inner inner' u u' : Task} {own : Option Move}
    (hi : t.inside? index = some inner) (h : Carries setting s s' move inner inner' u own u') :
    Carries setting s s' (.inside index move) t (replaceInside index inner' t) u own u'
  | beside {index other : Nat} {move : Move} {t t' u inner : Task}
    (h : t.step setting (.inside index move) s = some (t', s')) (hother : other ≠ index)
    (hi : t.inside? other = some inner) (hu : u.Within inner) :
    Carries setting s s' (.inside index move) t t' u none u

variable {setting : Setting} {t t' u u' v inner : Task} {s s' : RunState} {index other : Nat}
  {σ : SinkId} {move m : Move} {own : Option Move}

theorem Carries.step (h : Carries setting s s' move t t' u own u') :
    t.step setting move s = some (t', s') := by
  induction h with
  | self h | above _ h | beside h => exact h
  | inside hi _ ih => exact step_inside_iff.mpr ⟨_, _, hi, ih, rfl⟩

theorem Carries.step_own (h : Carries setting s s' move t t' u (some m) u') :
    u.step setting m s = some (u', s') := by
  generalize hown : some m = own at h
  induction h with
  | self h =>
    obtain rfl := Option.some.inj hown
    exact h
  | inside _ _ ih => exact ih hown
  | above | beside => cases hown

theorem Carries.within (h : Carries setting s s' move t t' u own u') : u.Within t := by
  induction h with
  | self => exact .self
  | above _ _ hi _ hu =>
    obtain ⟨index, hi⟩ := exists_inside? hi
    exact .inside hi hu
  | inside hi _ ih => exact .inside hi ih
  | beside _ _ hi hu => exact .inside hi hu

/-- What takes the place of a task stands there, unless it is over. -/
theorem mem_insides_replaceInside (hi : t.inside? index = some inner) {inner' : Task}
    (h : inner'.isFinished = false) : inner' ∈ (replaceInside index inner' t).insides := by
  obtain ⟨before, after, -, hreplaced⟩ := insides_replaceInside hi
  rcases hreplaced inner' with heq | ⟨hf, -⟩
  · rw [heq]
    exact List.mem_append_right _ List.mem_cons_self
  · rw [h] at hf
    cases hf

/-- What stands beside a task stays there when another one takes its place. -/
theorem mem_insides_beside (hother : other ≠ index) (hi : t.inside? other = some v)
    (hindex : t.inside? index = some inner) (inner' : Task) :
    v ∈ (replaceInside index inner' t).insides := by
  have hset {ts : List Task} (h : ts[other]? = some v) : v ∈ ts.set index inner' :=
    List.mem_of_getElem? ((List.getElem?_set_ne hother.symm).trans h)
  cases t with
  | iterating f nodes i branches error =>
    have hbranch : branches[other]? = some v := hi
    rw [replaceInside]
    split
    · exact List.mem_eraseIdx_iff_getElem?.mpr ⟨other, hother, hbranch⟩
    · exact hset hbranch
  | generating => exact hset hi
  | nesting w sink old =>
    rw [inside?, Option.ite_none_right_eq_some] at hi hindex
    exact absurd (hi.1.trans hindex.1.symm) hother
  | _ => cases hi

theorem eq_of_within_finished (hu : u.Within t) (ht : t.isFinished = true) : u = t := by
  cases hu with
  | self => rfl
  | inside hi =>
    cases t with
    | finished => cases hi
    | _ => cases ht

/-- A task that is carried along is over, or it is in the tree that the move has made. -/
theorem Carries.isFinished_or_within (h : Carries setting s s' move t t' u own u') :
    u'.isFinished = true ∨ u'.Within t' := by
  induction h with
  | self => exact .inr .self
  | above _ _ _ hi hu =>
    obtain ⟨index, hi⟩ := exists_inside? hi
    exact .inr (.inside hi hu)
  | @inside _ _ _ _ inner' _ _ _ hi _ ih =>
    rcases ih with hover | hu
    · exact .inl hover
    · cases hf : inner'.isFinished with
      | true => exact .inl (eq_of_within_finished hu hf ▸ hf)
      | false =>
        obtain ⟨k, hk⟩ := exists_inside? (mem_insides_replaceInside hi hf)
        exact .inr (.inside hk hu)
  | @beside _ _ _ _ _ _ _ h hother hi hu =>
    obtain ⟨old, new, hold, -, rfl⟩ := step_inside_iff.mp h
    obtain ⟨k, hk⟩ := exists_inside? (mem_insides_beside hother hi hold new)
    exact .inr (.inside hk hu)

/-- A task in a tree can make its moves there. -/
theorem exists_carries (hu : u.Within t) (h : u.step setting m s = some (u', s')) :
    ∃ move t', Carries setting s s' move t t' u (some m) u' := by
  induction hu with
  | self => exact ⟨m, u', .self h⟩
  | inside hi _ ih =>
    obtain ⟨move, inner', hcarries⟩ := ih
    exact ⟨_, _, .inside hi hcarries⟩

/-- What a task waits for stays below it when the task acts. -/
theorem mem_insides_of_act (item? : Option Nat) (h : t.actOn? setting item? s = some (t', s'))
    (hi : inner ∈ t.insides) (hover : inner.isFinished = false) : inner ∈ t'.insides := by
  have hlive {ts : List Task} (hi : inner ∈ ts) (hall : ts.all isFinished = true) : False := by
    rw [List.all_eq_true.mp hall inner hi] at hover
    cases hover
  cases item? with
  | none =>
    rw [actOn?, Option.ite_none_right_eq_some, Option.some.injEq] at h
    obtain ⟨hready, hact⟩ := h
    cases t with
    | iterating f nodes i branches error =>
      by_cases haudible : i.isAudible s.isClosed = true
      · rw [act_iterating_of_audible setting f nodes error haudible] at hact
        obtain ⟨rfl, -⟩ := Prod.mk.inj hact
        exact List.mem_append_left _ hi
      · -- an iterator that hears nothing more is ready only without branches
        have hempty : branches.isEmpty = true := by
          rw [isReady, Bool.or_eq_true, or_iff_right haudible] at hready
          exact (Bool.and_eq_true_iff.mp hready).2
        rw [List.isEmpty_iff.mp hempty] at hi
        cases hi
    | generating g nodes stage running error => exact (hlive hi hready).elim
    | nesting w sink inner' =>
      obtain rfl := List.mem_singleton.mp hi
      exact absurd (show inner.isFinished = true from hready) (Bool.eq_false_iff.mp hover)
    | _ => cases hi
  | some index =>
    rw [actOn?, Option.ite_none_right_eq_some, Option.some.injEq] at h
    obtain ⟨-, hact⟩ := h
    cases t with
    | iterating f nodes i branches error =>
      obtain ⟨rfl, -⟩ := Prod.mk.inj hact
      exact hi
    | generating | nesting =>
      obtain ⟨rfl, -⟩ := Prod.mk.inj hact
      exact hi
    | _ => cases hi

/-- **A move takes every task of the tree along** that is not over. -/
theorem exists_carries_of_step (hu : u.Within t) (hover : u.isFinished = false) :
    t.step setting move s = some (t', s') → ∃ own u', Carries setting s s' move t t' u own u' := by
  induction hu generalizing move t' s' with
  | self => exact fun h => ⟨some move, t', .self h⟩
  | @inside t inner index hi hu ih =>
    intro h
    have hinner : inner.isFinished = false := by
      cases hf : inner.isFinished with
      | false => rfl
      | true =>
        rw [eq_of_within_finished hu hf, hf] at hover
        cases hover
    cases move with
    | here => exact ⟨none, u, .above nofun h (mem_insides hi)
        (mem_insides_of_act none h (mem_insides hi) hinner) hu⟩
    | item k => exact ⟨none, u, .above nofun h (mem_insides hi)
        (mem_insides_of_act (some k) h (mem_insides hi) hinner) hu⟩
    | inside k m =>
      by_cases hk : index = k
      · subst hk
        obtain ⟨_, inner', hi', hstep, rfl⟩ := step_inside_iff.mp h
        obtain rfl := Option.some.inj (hi.symm.trans hi')
        obtain ⟨own, u', hcarries⟩ := ih hstep
        exact ⟨own, u', .inside hi hcarries⟩
      · exact ⟨none, u, .beside h hk hi hu⟩

/-- What a task does with what is below it, that does itself. -/
theorem Carries.lower (h : Carries setting s s' move t t' u (some (.inside index m)) u')
    (hi : u.inside? index = some inner) :
    ∃ inner', Carries setting s s' move t t' inner (some m) inner' ∧
      u' = replaceInside index inner' u := by
  generalize hown : some (Move.inside index m) = own at h
  induction h with
  | self h =>
    obtain rfl := Option.some.inj hown
    obtain ⟨_, inner', hi', hstep, rfl⟩ := step_inside_iff.mp h
    obtain rfl := Option.some.inj (hi.symm.trans hi')
    exact ⟨inner', .inside hi (.self hstep), rfl⟩
  | inside hi' _ ih =>
    obtain ⟨inner', hcarries, heq⟩ := ih hi hown
    exact ⟨inner', .inside hi' hcarries, heq⟩
  | above | beside => cases hown

theorem Carries.eq_of_none (h : Carries setting s s' move t t' u none u') : u' = u := by
  generalize hown : (none : Option Move) = own at h
  induction h with
  | self => cases hown
  | above | beside => rfl
  | inside _ _ ih => exact ih hown

/-- What is nothing to a task is nothing to what is below it. -/
theorem Carries.lower_none (h : Carries setting s s' move t t' u none u') (hv : v.Within u) :
    Carries setting s s' move t t' v none v := by
  generalize hown : (none : Option Move) = own at h
  induction h with
  | above hmove h hi hi' hu => exact .above hmove h hi hi' (hv.trans hu)
  | inside hi _ ih => exact .inside hi (ih hv hown)
  | beside h hother hi hu => exact .beside h hother hi (hv.trans hu)
  | self => cases hown

theorem within_nesting (w : Writing) (sink : SinkId) (inner : Task) :
    inner.Within (.nesting w sink inner) := .inside (if_pos rfl) .self

/-! ### What others leave alone -/

theorem gathered_subset_of_within (hu : u.Within t) : u.gathered ⊆ t.gathered := by
  induction hu with
  | self => exact List.Subset.refl _
  | inside hi _ ih => exact List.Subset.trans ih (gathered_subset hi)

/-- Two trees side by side gather in different sinks. -/
theorem IsSealed.disjoint_beside (h : t.IsSealed σ s) (hother : other ≠ index)
    (hi : t.inside? index = some inner) (hv : t.inside? other = some v) :
    List.Disjoint v.gathered inner.gathered := by
  have hnodup : t.gathered.Nodup := (List.nodup_cons.mp h.nodup).2
  rw [gathered_eq] at hnodup
  obtain ⟨-, hpairwise⟩ := List.nodup_flatMap.mp (List.nodup_append'.mp hnodup).2.1
  rw [inside?_eq] at hi hv
  obtain ⟨hlt, rfl⟩ := List.getElem?_eq_some_iff.mp hi
  obtain ⟨hlt', rfl⟩ := List.getElem?_eq_some_iff.mp hv
  rcases Nat.lt_or_gt_of_ne hother with hlt'' | hlt''
  · exact List.pairwise_iff_getElem.mp hpairwise _ _ hlt' hlt hlt''
  · exact fun sink hmem hmem' =>
      List.pairwise_iff_getElem.mp hpairwise _ _ hlt hlt' hlt'' hmem' hmem

/-- A tree of tasks leaves alone what one beside it gathers. -/
theorem IsSealed.avoids_beside (h : t.IsSealed σ s) (hother : other ≠ index)
    (hi : t.inside? index = some inner) (hv : t.inside? other = some v) {sink : SinkId}
    (hsink : sink ∈ v.gathered) : inner.Avoids sink := by
  have hgathers : t.gathers? = none := by
    cases t with
    | nesting =>
      rw [inside?, Option.ite_none_right_eq_some] at hi hv
      exact absurd (hv.1.trans hi.1.symm) hother
    | _ => rfl
  have hinner : inner.WritesTo σ := by
    have hwrites := h.writesTo.inside hi
    rwa [hgathers] at hwrites
  refine hinner.avoids fun hmem => ?_
  rcases List.mem_cons.mp hmem with rfl | hmem
  · exact (List.nodup_cons.mp h.nodup).1 (gathered_subset hv hsink)
  · exact h.disjoint_beside hother hi hv hsink hmem

/-- **What others do leaves alone the sinks in which a task gathers text.** -/
theorem Carries.spares (h : Carries setting s s' move t t' u none u') (hsealed : t.IsSealed σ s) :
    s.Spares (· ∈ u.gathered) s' := by
  generalize hown : (none : Option Move) = own at h
  induction h generalizing σ with
  | self => cases hown
  | @above move t t' u inner hmove h hi _ hu =>
    have hact : t.actOn? setting move.item? s = some (t', s') := by
      cases move with
      | inside index m => exact absurd rfl (hmove index m)
      | here | item => exact h
    refine spares_actOn? hact fun c hc hmem => ?_
    obtain ⟨index, hi⟩ := exists_inside? hi
    rw [hsealed.writesTo.own c hc] at hmem
    exact (List.nodup_cons.mp hsealed.nodup).1
      (gathered_subset hi (gathered_subset_of_within hu hmem))
  | inside hi _ ih => exact ih (hsealed.inside hi) hown
  | beside h hother hi hu =>
    obtain ⟨old, new, hold, hstep, -⟩ := step_inside_iff.mp h
    exact spares_step hstep fun sink hsink =>
      hsealed.avoids_beside hother hold hi (gathered_subset_of_within hu hsink)

end Task

/-! ### Runs -/

namespace Run

/-- A run whose task writes into the run's sink, and whose queries inside texts into sinks of their
own. -/
structure IsSealed (r : Run) : Prop where
  task : r.task.IsSealed r.context.sink r.state
  areIn : r.task.AreIn r.state
  fresh : ∀ sink, r.state.nextSink ≤ sink → r.state.output sink = []

variable {setting : Setting} {r r' r₁ : Run} {move : RunMove} {moves before after : List RunMove}
  {u v inner : Task} {σ : SinkId} {calls : List SinkCall}

theorem IsSealed.close (h : r.IsSealed) : r.close.IsSealed :=
  ⟨⟨h.task.writesTo, h.task.nodup, h.task.lt⟩,
    fun u hu c hc => ⟨(h.areIn u hu c hc).scope, (h.areIn u hu c hc).fork⟩, h.fresh⟩

theorem IsSealed.work {m : Move} {t : Task} {s : RunState} (h : r.IsSealed)
    (hm : r.task.step setting m r.state = some (t, s)) :
    ({ r with task := t, state := s } : Run).IsSealed := by
  obtain ⟨u, u', hturning⟩ := Task.exists_turning h.areIn hm
  refine ⟨(h.task.step h.areIn hm).1, hturning.areIn h.areIn, fun sink hsink => ?_⟩
  have hold := Nat.le_trans (Task.nextSink_le_of_step hm) hsink
  -- no task writes into a sink that is not there
  have hspares : r.state.Spares (· = sink) s := Task.spares_step hm fun x hx => by
    refine h.task.writesTo.avoids fun hmem => ?_
    exact Nat.not_lt.mpr (hx ▸ hold) (h.task.lt x hmem)
  show s.output sink = []
  rw [hspares.output sink rfl, h.fresh sink hold]

theorem isSealed_start {state : RunState} (plan : Plan) (input : Sequence)
    (hfresh : ∀ sink, state.nextSink ≤ sink → state.output sink = []) :
    (start state plan input).IsSealed := by
  obtain ⟨hsink, hothers⟩ := start_sinks state plan input
  have hlt : (start state plan input).context.sink < (start state plan input).state.nextSink := hsink
  refine ⟨⟨.leaf rfl (fun c hc => ?_) fun _ => rfl, List.nodup_singleton _,
    List.forall_mem_singleton.mpr hlt⟩, (start_evolves state plan input).2, fun sink h => ?_⟩
  · rw [List.mem_singleton.mp hc]
    rfl
  · have hnew := Nat.lt_of_lt_of_le hsink h
    rw [hothers sink (Nat.ne_of_gt hnew), hfresh sink (Nat.le_of_lt hnew)]

/-- What becomes of a task in a run, from one point of the run to another, in some moves of the run;
and what its own moves write into a sink meanwhile. -/
inductive Carries (setting : Setting) (σ : SinkId) (r : Run) (u : Task) :
    List RunMove → List SinkCall → Run → Task → Prop where
  | start (h : u.Within r.task) : Carries setting σ r u [] [] r u
  | close {moves : List RunMove} {calls : List SinkCall} {r' : Run} {u' : Task}
    (h : Carries setting σ r u moves calls r' u') :
    Carries setting σ r u (moves ++ [.close]) calls r'.close u'
  | others {moves : List RunMove} {calls : List SinkCall} {r' : Run} {u' : Task} {m : Move} {t : Task}
    {s : RunState} (h : Carries setting σ r u moves calls r' u')
    (hm : Task.Carries setting r'.state s m r'.task t u' none u') :
    Carries setting σ r u (moves ++ [.work m]) calls { r' with task := t, state := s } u'
  | own {moves : List RunMove} {calls more : List SinkCall} {r' : Run} {u' u'' : Task} {m k : Move}
    {t : Task} {s : RunState} (h : Carries setting σ r u moves calls r' u')
    (hm : Task.Carries setting r'.state s m r'.task t u' (some k) u'')
    (hw : s.output σ = r'.state.output σ ++ more) :
    Carries setting σ r u (moves ++ [.work m]) (calls ++ more) { r' with task := t, state := s } u''

theorem Carries.trans {calls' : List SinkCall} (h : r.Carries setting σ u before calls r₁ v)
    (h' : r₁.Carries setting σ v after calls' r' inner) :
    r.Carries setting σ u (before ++ after) (calls ++ calls') r' inner := by
  induction h' with
  | start =>
    rw [List.append_nil, List.append_nil]
    exact h
  | close _ ih =>
    rw [← List.append_assoc]
    exact ih.close
  | others _ hm ih =>
    rw [← List.append_assoc]
    exact ih.others hm
  | own _ hm hw ih =>
    rw [← List.append_assoc, ← List.append_assoc]
    exact ih.own hm hw

theorem Carries.isSealed (h : r.Carries setting σ u moves calls r' v) (hr : r.IsSealed) :
    r'.IsSealed := by
  induction h with
  | start => exact hr
  | close _ ih => exact ih.close
  | others _ hm ih | own _ hm _ ih => exact ih.work hm.step

/-- A task that is followed is over, or it is in the run. -/
theorem Carries.isFinished_or_within (h : r.Carries setting σ u moves calls r' v) :
    v.isFinished = true ∨ v.Within r'.task := by
  induction h with
  | start h => exact .inr h
  | close _ ih => exact ih
  | others _ hm | own _ hm => exact hm.isFinished_or_within

/-- A task in a run can make its moves there. -/
theorem exists_carries {m : Move} {v' : Task} {s : RunState} (hv : v.Within r.task)
    (h : v.step setting m r.state = some (v', s)) :
    ∃ moves calls r', r.Carries setting σ v moves calls r' v' := by
  obtain ⟨move, t, hm⟩ := Task.exists_carries hv h
  obtain ⟨more, -, hw⟩ := (Task.inner_step h).record.exists_body σ
  exact ⟨_, _, _, .own (.start hv) hm hw⟩

theorem exists_of_step_work {m : Move} (h : r.step setting (.work m) = some r') :
    ∃ t s, r.task.step setting m r.state = some (t, s) ∧ r' = { r with task := t, state := s } := by
  simp only [Run.step, Option.bind_eq_bind, Option.bind_eq_some_iff] at h
  obtain ⟨⟨t, s⟩, hm, hr⟩ := h
  exact ⟨t, s, hm, (Option.some.inj hr).symm⟩

theorem exists_carries_of_step (hu : u.Within r.task) (hover : u.isFinished = false)
    (h : r.step setting move = some r') :
    ∃ calls v, r.Carries setting σ u [move] calls r' v := by
  cases move with
  | close =>
    obtain rfl : r.close = r' := Option.some.inj h
    exact ⟨[], u, (Carries.start hu).close⟩
  | work m =>
    obtain ⟨t, s, hm, rfl⟩ := exists_of_step_work h
    obtain ⟨own, v, hcarries⟩ := Task.exists_carries_of_step hu hover hm
    cases own with
    | none =>
      obtain rfl := hcarries.eq_of_none
      exact ⟨[], v, (Carries.start hu).others hcarries⟩
    | some k =>
      obtain ⟨more, -, hw⟩ := (Task.inner_step hm).record.exists_body σ
      exact ⟨_, v, (Carries.start hu).own hcarries hw⟩

/-- A task in a run is followed by whatever the run does, until it is over. -/
theorem exists_carries_of_replay (hu : u.Within r.task) (h : r.replay setting moves = some r') :
    (∃ calls v, r.Carries setting σ u moves calls r' v) ∨
      ∃ before after calls r₁ o, moves = before ++ after ∧
        r.Carries setting σ u before calls r₁ (.finished o) := by
  induction moves generalizing r u with
  | nil =>
    obtain rfl := Option.some.inj h
    exact .inl ⟨[], u, .start hu⟩
  | cons move moves ih =>
    simp only [replay, Option.bind_eq_bind, Option.bind_eq_some_iff] at h
    obtain ⟨r₁, hstep, hrest⟩ := h
    cases hover : u.isFinished with
    | true =>
      cases u with
      | finished o => exact .inr ⟨[], move :: moves, [], r, o, rfl, .start hu⟩
      | _ => cases hover
    | false =>
      obtain ⟨calls, v, hcarries⟩ := exists_carries_of_step (σ := σ) hu hover hstep
      rcases hcarries.isFinished_or_within with hv | hv
      · cases v with
        | finished o => exact .inr ⟨[move], moves, calls, r₁, o, rfl, hcarries⟩
        | _ => cases hv
      · rcases ih hv hrest with ⟨more, w, h⟩ | ⟨before, after, more, r₂, o, rfl, h⟩
        · exact .inl ⟨_, w, hcarries.trans h⟩
        · exact .inr ⟨move :: before, after, _, r₂, o, rfl, hcarries.trans h⟩

/-- The task of a run is carried along by all that the run does. -/
theorem carries_replay (h : r.replay setting moves = some r') :
    ∃ calls, r.Carries setting σ r.task moves calls r' r'.task ∧
      r'.state.output σ = r.state.output σ ++ calls := by
  induction moves generalizing r with
  | nil =>
    obtain rfl := Option.some.inj h
    exact ⟨[], .start .self, (List.append_nil _).symm⟩
  | cons move moves ih =>
    simp only [replay, Option.bind_eq_bind, Option.bind_eq_some_iff] at h
    obtain ⟨r₁, hstep, hrest⟩ := h
    obtain ⟨calls, hcarries, hcalls⟩ := ih hrest
    cases move with
    | close =>
      obtain rfl : r.close = r₁ := Option.some.inj hstep
      exact ⟨[] ++ calls, (Carries.start .self).close.trans hcarries, hcalls⟩
    | work m =>
      obtain ⟨t, s, hm, rfl⟩ := exists_of_step_work hstep
      obtain ⟨more, -, hw⟩ := (Task.inner_step hm).record.exists_body σ
      refine ⟨([] ++ more) ++ calls, (Carries.own (.start .self) (.self hm) hw).trans hcarries, ?_⟩
      rw [hcalls, hw, List.nil_append, List.append_assoc]

end Run

end TripleLoom
