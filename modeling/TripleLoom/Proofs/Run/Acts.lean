import TripleLoom.Proofs.Run.Turns
import TripleLoom.Proofs.Run.Within

/-!
# TripleLoom.Proofs.Run.Acts — the acts along a run

A move makes one task of the tree act (`Task.Turning`): it turns into another, and everything else in
the tree stays, but for what stands below it.  So an invariant of all tasks is shown for what has
acted, for what that has started, and for what stays.  `Run.acts` lists the acts along a run, and
`Run.acts_induction` is the induction on them.
-/

namespace TripleLoom

open RunM

namespace Task

variable {setting : Setting} {move : Move} {t t' u u' : Task} {s s' : RunState}

/-! ### Moves of a tree -/

/-- How a move takes a tree of tasks on: a task in it acts and turns into another one. -/
structure Turning (setting : Setting) (move : Move) (t : Task) (s : RunState) (t' : Task)
    (s' : RunState) (u u' : Task) : Prop where
  step : t.step setting move s = some (t', s')
  at? : t.at? move = some u
  acts : u.actOn? setting move.item? s = some (u', s')
  evolves : s.Evolves u.footprint s'
  turns : Turns setting s u u' s'
  origin : ∀ v : Task, v.Within t' → v.Within t ∨ v = u' ∨ u.Begets v ∨
    ∃ (w : Task) (index : Nat) (inner : Task), w.Within t ∧ v = replaceInside index inner w

/-- Every task in the tree holds contexts that are there. -/
def AreIn (s : RunState) (t : Task) : Prop :=
  ∀ u : Task, u.Within t → ∀ c ∈ u.contexts, c.IsIn s

theorem AreIn.inside {index : Nat} {inner : Task} (h : t.AreIn s)
    (hi : t.inside? index = some inner) : inner.AreIn s :=
  fun u hu => h u (.inside hi hu)

theorem exists_turning (hin : t.AreIn s) (h : t.step setting move s = some (t', s')) :
    ∃ u u' : Task, Turning setting move t s t' s' u u' := by
  obtain ⟨u, u', hat, hact, hfrom⟩ := within_of_step h
  have hu := within_at? hat
  have hturns := turns_actOn? hact (hin u hu)
  refine ⟨u, u', h, hat, hact, evolves_actOn? setting hact (hin u hu), hturns, fun v hv => ?_⟩
  rcases hfrom v hv with hold | hnew | hreplaced
  · exact .inl hold
  · cases hnew with
    | self => exact .inr (.inl rfl)
    | @inside _ inner _ hi hw =>
      rcases hturns.inside hi with ⟨j, hj⟩ | hb
      · exact .inl ((hw.trans (.inside hj .self)).trans hu)
      · -- nothing is below a task that has just been started
        cases hw with
        | self => exact .inr (.inr (.inl hb))
        | inside hk => rw [hb.inside?_eq_none] at hk; cases hk
  · exact .inr (.inr (.inr hreplaced))

theorem Turning.within (h : Turning setting move t s t' s' u u') : u.Within t := within_at? h.at?

/-- An invariant of all tasks in a tree.  It must go on to hold of those that stay, must not depend
on what is below a task, and must hold of what has acted and of what that has started. -/
theorem Turning.forall_within {Q : Task → Prop} (h : Turning setting move t s t' s' u u')
    (hstay : ∀ v : Task, v.Within t → Q v)
    (hreplace : ∀ (v : Task) (index : Nat) (inner : Task), Q v → Q (replaceInside index inner v))
    (hturn : Q u') (hbegets : ∀ v : Task, u.Begets v → Q v) : ∀ v : Task, v.Within t' → Q v := by
  intro v hv
  rcases h.origin v hv with hold | rfl | hb | ⟨w, index, inner, hw, rfl⟩
  · exact hstay v hold
  · exact hturn
  · exact hbegets v hb
  · exact hreplace w index inner (hstay w hw)

@[simp] theorem contexts_replaceInside (index : Nat) (inner t : Task) :
    (replaceInside index inner t).contexts = t.contexts := by
  cases t with
  | iterating => rw [replaceInside]; split <;> rfl
  | _ => rfl

@[simp] theorem generation?_replaceInside (index : Nat) (inner t : Task) :
    (replaceInside index inner t).generation? = t.generation? := by
  cases t with
  | iterating => rw [replaceInside]; split <;> rfl
  | _ => rfl

/-- A task keeps the scopes and forks of its contexts, but for new ones, which lie in new scopes. -/
theorem Turns.contexts (h : Turns setting s t t' s') : ∀ c ∈ t'.contexts,
    (∃ d ∈ t.contexts, d.scope = c.scope ∧ d.fork = c.fork) ∨
      c.IsIn s' ∧ s.scopes.count ≤ c.scope := by
  intro c hc
  cases h with
  | @generate f input bound s₁ nodes hb hs ho =>
    obtain ⟨hcount, hforks, -, -, -, hsites⟩ := (f.generate_spec _ _ _).2
    have hgrown : s.scopes.count ≤ s₁.scopes.count := hs.grows.scopes
    refine .inr ?_
    rcases List.mem_cons.mp hc with rfl | hc
    · exact ⟨⟨by rw [hcount]; exact Nat.lt_of_lt_of_le (Nat.lt_succ_self _) (Nat.le_add_right _ _),
        by rw [hforks]; exact Nat.lt_succ_self _⟩, hgrown⟩
    · obtain ⟨hlt, hin, -⟩ := hsites c hc
      refine ⟨⟨hin, ?_⟩, Nat.le_trans hgrown (Nat.le_of_lt hlt)⟩
      obtain ⟨scope, -, rfl⟩ := List.mem_map.mp hc
      rw [hforks]
      exact Nat.lt_succ_self _
  | finish | generated => cases hc
  | write f input => exact .inl ⟨c, hc, rfl, rfl⟩
  | resume hw | collect hw | embed hw | embedCall hw =>
    obtain rfl := List.mem_singleton.mp hc
    exact .inl ⟨_, List.mem_cons_self, by rw [hw.context], by rw [hw.context]⟩
  | ask name accept accept' purpose ht =>
    rcases ht with rfl | rfl <;> exact .inl ⟨c, hc, rfl, rfl⟩
  | call _ d plan hu hnew hpath hd =>
    obtain rfl := List.mem_singleton.mp hc
    exact .inr ⟨⟨hd.scope, hd.fork⟩, hnew⟩
  | _ => exact .inl ⟨c, hc, rfl, rfl⟩

theorem Begets.contexts (h : t.Begets t') : ∀ c ∈ t'.contexts,
    ∃ d ∈ t.contexts, d.scope = c.scope ∧ d.fork = c.fork := by
  intro c hc
  cases h with
  | branch => exact ⟨c, hc, rfl, rfl⟩
  | nested hs =>
    obtain rfl := List.mem_singleton.mp hc
    exact ⟨_, List.mem_cons_of_mem _ (List.of_mem_zip hs).1, rfl, rfl⟩
  | resolve => cases hc
  | call =>
    obtain rfl := List.mem_singleton.mp hc
    exact ⟨_, List.mem_cons_self, rfl, rfl⟩
  | embedded | embeddedCall =>
    obtain rfl := List.mem_singleton.mp hc
    exact ⟨_, List.mem_cons_self, rfl, rfl⟩

/-- A move keeps the contexts of all tasks in what is there. -/
theorem Turning.areIn (h : Turning setting move t s t' s' u u') (hin : t.AreIn s) : t'.AreIn s' := by
  refine h.forall_within (fun v hv c hc => (hin v hv c hc).grows h.evolves.grows) ?_ ?_ ?_
  · intro v index inner hv c hc
    rw [contexts_replaceInside] at hc
    exact hv c hc
  · intro c hc
    rcases h.turns.contexts c hc with ⟨d, hd, hscope, hfork⟩ | ⟨hnew, -⟩
    · have hgrown := (hin u h.within d hd).grows h.evolves.grows
      exact ⟨hscope ▸ hgrown.scope, hfork ▸ hgrown.fork⟩
    · exact hnew
  · intro v hb c hc
    obtain ⟨d, hd, hscope, hfork⟩ := hb.contexts c hc
    have hgrown := (hin u h.within d hd).grows h.evolves.grows
    exact ⟨hscope ▸ hgrown.scope, hfork ▸ hgrown.fork⟩

end Task

/-! ### Runs -/

/-- An act along a run: what a task was and what it has become, with the states before and after. -/
structure Act where
  task : Task
  before : RunState
  result : Task
  after : RunState

namespace Run

variable {setting : Setting} {r r' : Run} {move : RunMove}

theorem keepsTo_announce {p : Footprint} {base : RunState} (c : Context) (plan : Plan) :
    KeepsTo p base (announce c plan) := by
  refine .bind (c.keepsTo_write _) fun _ => .bind (.forM fun _ _ => c.keepsTo_write _) fun _ => ?_
  split
  · exact c.keepsTo_write _
  · exact .pure _

theorem keepsTo_enroll {p : Footprint} {base : RunState} (plan : Plan) (input : Sequence) :
    KeepsTo p base (enroll plan input) := by
  unfold enroll
  split
  · exact .pure _
  · exact .bind (.register _ _) fun _ => .forM fun _ _ =>
      .bind (.recordCall _) fun _ => .note fun _ _ he => nomatch he

/-- A run starts with a context that is there, and has left no mark yet. -/
theorem start_evolves (state : RunState) (plan : Plan) (input : Sequence) :
    state.Evolves .none (start state plan input).state ∧
      (start state plan input).task.AreIn (start state plan input).state := by
  let s : RunState := { state with
    scopes := state.scopes.root.2
    nextSink := state.nextSink + 1
    nextFork := state.nextFork + 1 }
  let c : Context := ⟨state.nextSink, state.scopes.root.1, none, state.nextFork, 1⟩
  have hs : state.Evolves .none s :=
    .trans (.root state) (.trans (.rest _ (state.nextSink + 1) state.calls state.registry
      state.lifecycle) (.fork _))
  have hc : c.IsIn s := by
    refine ⟨?_, Nat.lt_succ_self _⟩
    show state.scopes.ancestors.size < (state.scopes.ancestors.push []).size
    rw [Array.size_push]
    exact Nat.lt_succ_self _
  have hannounced : s.Evolves .none (announce c plan s).2 := keepsTo_announce c plan s (.refl s)
  have henrolled : (announce c plan s).2.Evolves .none (start state plan input).state :=
    keepsTo_enroll plan input _ (.refl _)
  refine ⟨hs.trans (hannounced.trans henrolled), fun u hu d hd => ?_⟩
  cases hu with
  | self =>
    obtain rfl := List.mem_singleton.mp hd
    have hgrown := hc.grows (hannounced.trans henrolled).grows
    exact ⟨hgrown.scope, hgrown.fork⟩
  | inside h => cases h

variable (setting) in
/-- The act that a move of a run is, if it is the move of a task. -/
def act? (r : Run) : RunMove → Option Act
  | .close => none
  | .work move => do
    let u ← r.task.at? move
    let (u', state) ← u.actOn? setting move.item? r.state
    return ⟨u, r.state, u', state⟩

variable (setting) in
/-- The acts that some moves of a run are, in their order. -/
def acts (r : Run) : List RunMove → List Act
  | [] => []
  | move :: rest =>
    (r.act? setting move).toList ++ ((r.step setting move).map fun r => acts r rest).getD []

/-- A close is no act, moves no task and leaves no mark; any other move is the act of a task. -/
theorem step_cases (hin : r.task.AreIn r.state) (h : r.step setting move = some r') :
    r'.context = r.context ∧
      (r.act? setting move = none ∧ r'.task = r.task ∧ r.state.Evolves .none r'.state ∨
        ∃ m u u', r.act? setting move = some ⟨u, r.state, u', r'.state⟩ ∧
          Task.Turning setting m r.task r.state r'.task r'.state u u') := by
  cases move with
  | close =>
    obtain rfl : r.close = r' := Option.some.inj h
    exact ⟨rfl, .inl ⟨rfl, rfl, .rest _ _ _ _ _⟩⟩
  | work m =>
    simp only [step, Option.bind_eq_bind, Option.bind_eq_some_iff] at h
    obtain ⟨⟨t, s⟩, hstep, hr⟩ := h
    obtain rfl : { r with task := t, state := s } = r' := Option.some.inj hr
    obtain ⟨u, u', hturning⟩ := Task.exists_turning hin hstep
    refine ⟨rfl, .inr ⟨m, u, u', ?_, hturning⟩⟩
    rw [act?, hturning.at?, Option.bind_eq_bind, Option.bind_some, hturning.acts]
    rfl

/-- What holds at the start of a run, and is kept by every move with the act that it is, holds of
the whole run and all its acts. -/
theorem acts_induction {P : List Act → Run → Prop}
    (hstep : ∀ acts r move r', P acts r → r.step setting move = some r' →
      P (acts ++ (r.act? setting move).toList) r') {moves : List RunMove} :
    ∀ (acts : List Act) (r : Run), P acts r → r.replay setting moves = some r' →
      P (acts ++ r.acts setting moves) r' := by
  induction moves with
  | nil =>
    intro acts r hr h
    obtain rfl : r = r' := Option.some.inj h
    rwa [Run.acts, List.append_nil]
  | cons move rest ih =>
    intro acts r hr h
    simp only [replay, Option.bind_eq_bind, Option.bind_eq_some_iff] at h
    obtain ⟨r₁, hone, hrest⟩ := h
    have hall := ih _ r₁ (hstep acts r move r₁ hr hone) hrest
    rw [Run.acts, hone, ← List.append_assoc]
    exact hall

/-- An act of a run is made by a step between the moves whose acts come before it and behind it. -/
theorem exists_step_of_acts {moves : List RunMove} {xs ys : List Act} {a : Act}
    (h : r.replay setting moves = some r') (hacts : r.acts setting moves = xs ++ a :: ys) :
    ∃ before r₀ move r₁ rest, r.replay setting before = some r₀ ∧ r.acts setting before = xs ∧
      r₀.step setting move = some r₁ ∧ r₀.act? setting move = some a ∧
      r₁.replay setting rest = some r' ∧ r₁.acts setting rest = ys := by
  induction moves generalizing r xs with
  | nil => cases xs <;> cases hacts
  | cons move moves ih =>
    simp only [replay, Option.bind_eq_bind, Option.bind_eq_some_iff] at h
    obtain ⟨r₁, hone, hrest⟩ := h
    rw [acts, hone] at hacts
    have hbehind : ∀ xs', r₁.acts setting moves = xs' ++ a :: ys →
        ∃ before r₀ move' r₂ rest, r.replay setting before = some r₀ ∧
          r.acts setting before = (r.act? setting move).toList ++ xs' ∧
          r₀.step setting move' = some r₂ ∧ r₀.act? setting move' = some a ∧
          r₂.replay setting rest = some r' ∧ r₂.acts setting rest = ys := by
      intro xs' hacts'
      obtain ⟨before, r₀, move', r₂, rest, hbefore, hxs, hstep⟩ := ih hrest hacts'
      refine ⟨move :: before, r₀, move', r₂, rest, ?_, ?_, hstep⟩
      · rw [replay, hone]
        exact hbefore
      · rw [acts, hone, ← hxs]
        rfl
    cases hact : r.act? setting move with
    | none =>
      rw [hact] at hacts hbehind
      exact hbehind xs hacts
    | some b =>
      rw [hact] at hacts hbehind
      cases xs with
      | nil =>
        obtain ⟨rfl, hys⟩ := List.cons_eq_cons.mp hacts
        exact ⟨[], r, move, r₁, moves, rfl, rfl, hone, hact, hrest, hys⟩
      | cons x xs =>
        obtain ⟨rfl, hxs⟩ := List.cons_eq_cons.mp hacts
        exact hbehind xs hxs

end Run

end TripleLoom
