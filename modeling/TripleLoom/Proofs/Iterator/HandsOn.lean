import TripleLoom.Proofs.Iterator.Account
import TripleLoom.Proofs.Iterator.Branches
import TripleLoom.Proofs.Pipeline.Parts

/-!
# TripleLoom.Proofs.Iterator.HandsOn — an iterator hands on all that it was told

When a run is closed all streams of an iterator are broken off, whatever they would still have told
(`Iteration.cutOff`); what was told before stays in the queue and is heard.  So the invariant of an
iteration is kept with the streams cut off, at whatever moment the run is closed, and `Attends` keeps
it together with the account of what was told and with the branches.  It follows that every batch of
tuples that was told is handed on once (`IteratorClause.hands_on_once`).
-/

namespace TripleLoom

open RunM Batches

/-! ### Breaking off -/

namespace Iteration

/-- An iteration whose streams are broken off if the run is closed. -/
def cutOff (i : Iteration) (closed : Bool) : Iteration :=
  if closed then { i with feeds := i.feeds.map fun f => { f with stream := none } } else i

variable {i : Iteration} {closed later : Bool}

theorem batches_cutOff (i : Iteration) (closed : Bool) : (i.cutOff closed).batches = i.batches := by
  cases closed <;> rfl

theorem queue_cutOff (i : Iteration) (closed : Bool) : (i.cutOff closed).queue = i.queue := by
  cases closed <;> rfl

theorem isListening_cutOff (i : Iteration) (closed : Bool) :
    (i.cutOff closed).isListening = i.isListening := by
  cases closed <;> rfl

theorem inputs_cutOff (i : Iteration) (closed : Bool) :
    (i.cutOff closed).feeds.map (·.input) = i.feeds.map (·.input) := by
  cases closed
  · rfl
  · simp [cutOff]

/-- Streams may be broken off at any time. -/
theorem Sound.cutOff (h : i.Sound) (closed : Bool) : (i.cutOff closed).Sound := by
  cases closed with
  | false => exact h
  | true =>
    have hnone : ∀ f ∈ (i.cutOff true).feeds, f.stream = none := by
      intro f hf
      obtain ⟨g, -, rfl⟩ := List.mem_map.mp hf
      rfl
    refine ⟨h.none_closed, h.fit, fun f hf hne => absurd (hnone f hf) hne, ?_, fun hm => ?_⟩
    · rw [inputs_cutOff]
      exact h.nodup
    · obtain ⟨hqueue, hopened, -⟩ := h.mute hm
      exact ⟨hqueue, hopened, hnone⟩

theorem Sound.cutOff_of_imp (h : (i.cutOff closed).Sound) (himp : closed = true → later = true) :
    (i.cutOff later).Sound := by
  cases closed with
  | false => exact Sound.cutOff (i := i) h later
  | true =>
    rw [himp rfl]
    exact h

theorem hear_cutOff (i : Iteration) (closed wantsEmpty : Bool) :
    ((i.cutOff closed).hear.takeSequences wantsEmpty).2 =
      (i.hear.takeSequences wantsEmpty).2.cutOff closed := by
  cases closed with
  | false => rfl
  | true =>
    unfold hear
    rw [queue_cutOff]
    cases i.queue with
    | nil => rfl
    | cons e rest => cases e <;> rfl

/-- What is heard of streams that are broken off is what they have told before. -/
theorem Sound.hear_cutOff (h : (i.cutOff closed).Sound) (haudible : i.isAudible closed = true)
    (wantsEmpty : Bool) : ((i.hear.takeSequences wantsEmpty).2.cutOff closed).Sound := by
  rw [← Iteration.hear_cutOff]
  refine h.hear (fun hqueue f hf => ?_) wantsEmpty
  rw [queue_cutOff] at hqueue
  rw [isAudible, hqueue] at haudible
  simp only [List.isEmpty_nil, Bool.not_true, Bool.false_or, Bool.and_eq_true] at haudible
  cases closed with
  | false =>
    have hover := haudible.2
    rw [isSilent, Bool.false_or, List.all_eq_true] at hover
    exact Option.isNone_iff_eq_none.mp (hover f hf)
  | true =>
    obtain ⟨g, -, rfl⟩ := List.mem_map.mp hf
    rfl

end Iteration

/-! ### The invariant -/

namespace IteratorClause

/-- The branches for some closed batches: one for each that has solutions, or, if a select part
follows, for each. -/
def handedOn (P : IteratorClause) (closed : List (ClosedBatch Solution)) : List Task :=
  (closed.filter fun b => P.frame.plan.select.isSome || !b.items.isEmpty).map fun b =>
    P.branch b.items

/-- A task attends to an iterator clause: it is to begin with it, or it is at work and as the
chronicle says, or it is over and nothing is left in it. -/
inductive Attends (P : IteratorClause) : Task → RunState → Chronicle → Prop where
  | waiting {s : RunState} : Attends P P.task s .empty
  | working {s : RunState} {c : Chronicle} {i : Iteration} {branches : List Task} {error : Outcome}
    (h : P.Recorded c.told c.closed i) (hs : (i.cutOff s.isClosed).Sound)
    (hb : Branches P.setting c branches error s) (hstarted : c.started = P.handedOn c.closed) :
    Attends P (.iterating P.frame P.rest i branches error) s c
  | finished {s : RunState} {c : Chronicle} {i : Iteration} {error : Outcome}
    (h : P.Recorded c.told c.closed i) (hs : (i.cutOff s.isClosed).Sound)
    (hb : Branches P.setting c [] error s) (hstarted : c.started = P.handedOn c.closed)
    (hqueue : i.queue = []) (hopened : i.batches.opened = [])
    (hspent : s.isClosed = false → ∀ f ∈ i.feeds, f.stream = none) : Attends P (.finished error) s c

variable {P : IteratorClause} {t t' : Task} {s s' : RunState} {c : Chronicle} {i : Iteration}
variable {branches : List Task} {error : Outcome}

theorem act_task (P : IteratorClause) (s : RunState) : P.task.act P.setting s =
    if s.isClosed = true then (.finished none, s)
    else
      let begun := Iteration.start P.frame.context P.setting.functions P.name P.function P.arguments
        P.vars P.input s
      (.iterating P.frame P.rest begun.1 [] none, begun.2) := by
  simp only [task, Task.act, Frame.runClauses, P.registered]
  show (if s.isClosed = true then _ else _ : RunM Task) s = _
  split <;> rfl

/-- The beginning of the clause. -/
theorem Attends.begin (P : IteratorClause) (s : RunState) :
    P.Attends (P.task.act P.setting s).1 (P.task.act P.setting s).2 .empty := by
  obtain ⟨hrecorded, hsound, hqueue, hopened⟩ := P.start_spec s
  rw [act_task]
  by_cases hclosed : s.isClosed = true
  · -- in a closed run nothing is begun
    rw [if_pos hclosed]
    exact .finished hrecorded (hsound.cutOff _) (.empty _ _) rfl hqueue hopened
      fun hopen => absurd (hclosed.symm.trans hopen) Bool.true_eq_false.mp
  · rw [if_neg hclosed]
    exact .working hrecorded (hsound.cutOff _) (.empty _ _) rfl

/-- What is heard goes to new branches. -/
theorem Recorded.handedOn_hear {told : List (Nat × TupleBatch)}
    {closed : List (ClosedBatch Solution)} (h : P.Recorded told closed i) :
    (i.hear.takeSequences P.frame.plan.select.isSome).1.map (.clauses P.frame P.rest) =
      P.handedOn i.hear.batches.closed := by
  have hinput : i.hear.input = P.input.declareAll P.vars := (i.vars_hear false).2.1.trans h.input
  show List.map _ (List.map _ (List.filter _ i.hear.batches.closed)) = _
  rw [List.map_map, hinput]
  rfl

/-- Hearing what was told, or that no more will come. -/
theorem Attends.hear (h : P.Recorded c.told c.closed i) (hs : (i.cutOff s.isClosed).Sound)
    (hb : Branches P.setting c branches error s) (hstarted : c.started = P.handedOn c.closed)
    (haudible : i.isAudible s.isClosed = true) :
    P.Attends ((Task.iterating P.frame P.rest i branches error).act P.setting s).1 s
      (c.extend P.setting s .here (.iterating P.frame P.rest i branches error)
        ((Task.iterating P.frame P.rest i branches error).act P.setting s).1) := by
  rw [Task.act_iterating_of_audible P.setting P.frame P.rest error haudible]
  have hfit := hs.fit
  rw [Iteration.batches_cutOff, Iteration.queue_cutOff] at hfit
  rw [h.handedOn_hear]
  have hmore : c.extend P.setting s .here (.iterating P.frame P.rest i branches error)
      (.iterating P.frame P.rest (i.hear.takeSequences P.frame.plan.select.isSome).2
        (branches ++ P.handedOn i.hear.batches.closed) error) =
      { c with
        closed := c.closed ++ i.hear.batches.closed
        started := c.started ++ P.handedOn i.hear.batches.closed
        running := c.running ++
          List.range' c.started.length (P.handedOn i.hear.batches.closed).length } := by
    rw [Chronicle.extend, List.drop_left]
  rw [hmore]
  refine .working (h.hear hfit _) (hs.hear_cutOff haudible _) ?_ ?_
  · have := hb.start (P.handedOn i.hear.batches.closed)
    exact ⟨this.numbers, this.length, this.running, this.ended, this.error⟩
  · show c.started ++ _ = _
    rw [hstarted, handedOn, handedOn, handedOn, List.filter_append, List.map_append]

/-- Hearing nothing any more. -/
theorem Attends.leave (h : P.Recorded c.told c.closed i) (hs : (i.cutOff s.isClosed).Sound)
    (hb : Branches P.setting c branches error s) (hstarted : c.started = P.handedOn c.closed)
    (hready : (Task.iterating P.frame P.rest i branches error).isReady P.setting s = true)
    (haudible : i.isAudible s.isClosed = false) :
    (Task.iterating P.frame P.rest i branches error).act P.setting s = (.finished error, s) ∧
      P.Attends (.finished error) s c := by
  obtain ⟨hmute, rfl⟩ := Task.eq_nil_of_isReady hready haudible
  rw [← Iteration.isListening_cutOff i s.isClosed] at hmute
  obtain ⟨hqueue, hopened, hspent⟩ := hs.mute hmute
  rw [Iteration.queue_cutOff] at hqueue
  rw [Iteration.batches_cutOff] at hopened
  refine ⟨Task.act_iterating_of_mute P.setting P.frame P.rest error haudible [],
    .finished h hs hb hstarted hqueue hopened fun hopen => ?_⟩
  rw [hopen] at hspent
  exact hspent

/-- A stream tells something. -/
theorem Attends.tell (h : P.Recorded c.told c.closed i) (hs : (i.cutOff s.isClosed).Sound)
    (hb : Branches P.setting c branches error s) (hstarted : c.started = P.handedOn c.closed)
    {index : Nat} (hready : i.isReadyAt s.isClosed index = true) :
    P.Attends (.iterating P.frame P.rest (i.tell index) branches error) s
      (c.extend P.setting s (.item index) (.iterating P.frame P.rest i branches error)
        (.iterating P.frame P.rest (i.tell index) branches error)) := by
  have hopen : s.isClosed = false := by
    rw [Iteration.isReadyAt, Bool.and_eq_true, Bool.not_eq_true'] at hready
    exact hready.1
  rw [hopen] at hs
  refine .working (h.tell hs.nodup index) ?_ ?_ hstarted
  · rw [hopen]
    exact Iteration.Sound.tell hs index
  · exact ⟨hb.numbers, hb.length, hb.running, hb.ended, hb.error⟩

/-- A branch goes on or comes to its end. -/
theorem Attends.inside (h : P.Recorded c.told c.closed i) (hs : (i.cutOff s.isClosed).Sound)
    (hb : Branches P.setting c branches error s) (hstarted : c.started = P.handedOn c.closed)
    {index : Nat} {move : Move} {u v : Task} (hu : branches[index]? = some u)
    (hm : u.step P.setting move s = some (v, s')) :
    P.Attends (v.replaceInside index (.iterating P.frame P.rest i branches error)) s'
      (c.extend P.setting s (.inside index move) (.iterating P.frame P.rest i branches error)
        (v.replaceInside index (.iterating P.frame P.rest i branches error))) := by
  have hsound := hs.cutOff_of_imp fun hclosed => (Task.inner_step hm).isClosed.trans hclosed
  unfold Task.replaceInside
  dsimp only
  by_cases hover : v.isFinished = true
  · rw [if_pos hover, Chronicle.extend, hu, Option.bind_some, hm]
    simp only [if_pos hover]
    exact .working h hsound (hb.finish hu hm hover) hstarted
  · rw [if_neg hover, Chronicle.extend, hu, Option.bind_some, hm]
    simp only [if_neg hover]
    exact .working h hsound (hb.goOn hu hm) hstarted

/-- What others make of the state. -/
theorem Attends.others (h : P.Attends t s c) (hs : s.isClosed = true → s'.isClosed = true) :
    P.Attends t s' c := by
  cases h with
  | waiting => exact .waiting
  | working h hsound hb hstarted =>
    exact .working h (hsound.cutOff_of_imp hs) (hb.others hs) hstarted
  | finished h hsound hb hstarted hqueue hopened hspent =>
    have hopen (hopen : s'.isClosed = false) : s.isClosed = false :=
      Bool.eq_false_iff.mpr fun hclosed => Bool.noConfusion ((hs hclosed).symm.trans hopen)
    exact .finished h (hsound.cutOff_of_imp hs) (hb.others hs) hstarted hqueue hopened
      fun hlater => hspent (hopen hlater)

/-- A task that is over makes no move. -/
theorem step_finished (setting : Setting) (o : Outcome) (s : RunState) (move : Move) :
    (Task.finished o).step setting move s = none := by
  cases move <;> rfl

/-- A move of its own. -/
theorem Attends.step (h : P.Attends t s c) {move : Move}
    (hm : t.step P.setting move s = some (t', s')) :
    P.Attends t' s' (c.extend P.setting s move t t') := by
  cases h with
  | waiting =>
    cases move with
    | here =>
      have hact : P.task.act P.setting s = (t', s') := Option.some.inj hm
      have hbegin := Attends.begin P s
      rw [hact] at hbegin
      exact hbegin
    | item index => cases hm
    | inside index move => cases hm
  | finished =>
    rw [step_finished] at hm
    cases hm
  | @working _ _ i branches error h hs hb hstarted =>
    cases move with
    | here =>
      rw [Task.step] at hm
      split at hm
      · next hready =>
        have hact := Option.some.inj hm
        by_cases haudible : i.isAudible s.isClosed = true
        · have hheard := Attends.hear h hs hb hstarted haudible
          have hstate := Task.act_iterating_of_audible P.setting P.frame P.rest error haudible
            branches
          rw [hact] at hheard hstate
          obtain rfl : s' = s := congrArg Prod.snd hstate
          exact hheard
        · obtain ⟨hleave, hover⟩ :=
            Attends.leave h hs hb hstarted hready (by simpa using haudible)
          obtain ⟨rfl, rfl⟩ := Prod.mk.inj (hleave.symm.trans hact)
          exact hover
      · cases hm
    | item index =>
      rw [Task.step] at hm
      split at hm
      · next hready =>
        obtain ⟨rfl, rfl⟩ := Prod.mk.inj (Option.some.inj hm)
        exact .tell h hs hb hstarted hready
      · cases hm
    | inside index move =>
      simp only [Task.step, Option.bind_eq_bind, Option.bind_eq_some_iff] at hm
      obtain ⟨u, hu, ⟨v, s₁⟩, hinner, heq⟩ := hm
      obtain ⟨rfl, rfl⟩ := Prod.mk.inj (Option.some.inj heq)
      exact .inside h hs hb hstarted hu hinner

/-- Whatever happens, a task goes on attending to its clause. -/
theorem Attends.proceed (h : P.Attends t s c) {move : TaskMove}
    (hm : t.proceed P.setting s move = some (t', s')) :
    P.Attends t' s' (c.observe P.setting s t t' move) := by
  cases move with
  | own move => exact h.step hm
  | others state =>
    have hclosed := Task.isClosed_of_proceed hm
    obtain ⟨rfl, rfl⟩ := Task.of_proceed_others hm
    exact h.others hclosed

theorem Attends.proceedAll (h : P.Attends t s c) {moves : List TaskMove}
    (hm : t.proceedAll P.setting s moves = some (t', s')) :
    P.Attends t' s' (t.chronicle P.setting c s moves) := by
  induction moves generalizing t s c with
  | nil =>
    obtain ⟨rfl, rfl⟩ := Prod.mk.inj (Option.some.inj hm)
    exact h
  | cons move moves ih =>
    simp only [Task.proceedAll, Option.bind_eq_bind, Option.bind_eq_some_iff] at hm
    obtain ⟨⟨t₁, s₁⟩, hfirst, hrest⟩ := hm
    rw [Task.chronicle, hfirst]
    exact ih (h.proceed hfirst) hrest

/-! ### What is handed on -/

theorem Attends.recorded (h : P.Attends t s c) :
    ∃ i branches error, P.Recorded c.told c.closed i ∧ (i.cutOff s.isClosed).Sound ∧
      Branches P.setting c branches error s ∧ c.started = P.handedOn c.closed ∧
      ∀ o, t = .finished o →
        i.queue = [] ∧ i.batches.opened = [] ∧ branches = [] ∧ error = o := by
  cases h with
  | waiting =>
    obtain ⟨h, hs, -⟩ := P.start_spec s
    exact ⟨_, _, _, h, hs.cutOff _, .empty _ _, rfl, fun o ho => by cases ho⟩
  | working h hs hb hstarted => exact ⟨_, _, _, h, hs, hb, hstarted, fun o ho => by cases ho⟩
  | finished h hs hb hstarted hqueue hopened =>
    exact ⟨_, _, _, h, hs, hb, hstarted, fun o ho => ⟨hqueue, hopened, rfl, by cases ho; rfl⟩⟩

end IteratorClause

end TripleLoom
