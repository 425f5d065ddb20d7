import TripleLoom.Proofs.Run.Inner

/-!
# TripleLoom.Proofs.Iterator.Chronicle — an iterator in the midst of a run

A task that is part of a run makes moves of its own, and between them the rest of the run makes of
the state what it likes, except that it does not reopen a run that was closed (`Task.proceedAll`).
The chronicle of an iterator is read off its life from the outside: what the streams put into the
queue, which batches closed, which branches were started, and what came of those that are over
(`Task.chronicle`).
-/

namespace TripleLoom

/-! ### A task among others -/

/-- What happens in the life of a task: a move of its own, or what the rest of the run makes of the
state meanwhile. -/
inductive TaskMove where
  | own (move : Move)
  | others (state : RunState)

namespace Task

variable (setting : Setting)

/-- What a task and the state are after one of these, if it can happen.  Nothing reopens a run. -/
def proceed (t : Task) (s : RunState) : TaskMove → Option (Task × RunState)
  | .own move => t.step setting move s
  | .others state => if s.isClosed && !state.isClosed then none else some (t, state)

/-- What a task and the state are after some of these, if they can all happen. -/
def proceedAll : Task → RunState → List TaskMove → Option (Task × RunState)
  | t, s, [] => some (t, s)
  | t, s, move :: rest => do
    let (t, s) ← t.proceed setting s move
    proceedAll t s rest

/-- A task gets from its beginning to another one. -/
def Reaches (t : Task) (t' : Task) (s' : RunState) : Prop :=
  ∃ s moves, t.proceedAll setting s moves = some (t', s')

variable {setting} {t u v : Task} {s s' : RunState}

theorem proceedAll_append (before after : List TaskMove) :
    t.proceedAll setting s (before ++ after) =
      (t.proceedAll setting s before).bind fun (t, s) => t.proceedAll setting s after := by
  induction before generalizing t s with
  | nil => rfl
  | cons move before ih =>
    rw [List.cons_append, proceedAll, proceedAll]
    cases t.proceed setting s move with
    | none => rfl
    | some p => exact ih

theorem proceed_others (hs : s.isClosed = true → s'.isClosed = true) :
    t.proceed setting s (.others s') = some (t, s') := by
  rw [proceed, if_neg]
  rw [Bool.and_eq_true, Bool.not_eq_true', not_and, Bool.not_eq_false]
  exact hs

/-- What others make of the state leaves a task as it is. -/
theorem of_proceed_others {state : RunState}
    (h : t.proceed setting s (.others state) = some (u, s')) : u = t ∧ s' = state := by
  rw [proceed] at h
  split at h
  · cases h
  · obtain ⟨rfl, rfl⟩ := Prod.mk.inj (Option.some.inj h)
    exact ⟨rfl, rfl⟩

theorem Reaches.refl (t : Task) (s : RunState) : Reaches setting t t s := ⟨s, [], rfl⟩

theorem Reaches.proceed {move : TaskMove} (h : Reaches setting t u s)
    (hm : u.proceed setting s move = some (v, s')) : Reaches setting t v s' := by
  obtain ⟨s₀, moves, hall⟩ := h
  refine ⟨s₀, moves ++ [move], ?_⟩
  rw [proceedAll_append, hall, Option.bind_some]
  simp only [proceedAll, hm]
  rfl

theorem Reaches.step {move : Move} (h : Reaches setting t u s)
    (hm : u.step setting move s = some (v, s')) : Reaches setting t v s' := by
  have hown : u.proceed setting s (.own move) = some (v, s') := hm
  exact h.proceed hown

/-- No move of a task closes or reopens the run, and the rest of the run does not reopen it. -/
theorem isClosed_of_proceed {move : TaskMove} (h : t.proceed setting s move = some (u, s'))
    (hs : s.isClosed = true) : s'.isClosed = true := by
  cases move with
  | own move => rw [(inner_step h).isClosed, hs]
  | others state =>
    rw [proceed, hs, Bool.true_and] at h
    split at h
    · cases h
    · next hopen =>
      cases h
      simpa using hopen

/-- What others make of the state is nothing to a task. -/
theorem Reaches.others (h : Reaches setting t u s) (hs : s.isClosed = true → s'.isClosed = true) :
    Reaches setting t u s' := h.proceed (proceed_others hs)

end Task

/-- No move of a run reopens it. -/
theorem Run.isClosed_step {setting : Setting} {r r' : Run} {move : RunMove}
    (h : r.step setting move = some r') (hs : r.state.isClosed = true) :
    r'.state.isClosed = true := by
  cases move with
  | close =>
    obtain rfl : r.close = r' := Option.some.inj h
    -- a run that is closed again stays as it is
    have hclosed : r.state.lifecycle.closed = true := hs
    show r.state.lifecycle.close.closed = true
    rw [Lifecycle.close, if_pos hclosed]
    exact hclosed
  | work move =>
    simp only [Run.step, Option.bind_eq_bind, Option.bind_eq_some_iff] at h
    obtain ⟨⟨t, s⟩, hstep, hr⟩ := h
    obtain rfl : { r with task := t, state := s } = r' := Option.some.inj hr
    exact (Task.inner_step hstep).isClosed.trans hs

/-- A run is such a life of its task, a close being something that others do. -/
theorem Run.exists_proceedAll {setting : Setting} {r r' : Run} {moves : List RunMove}
    (h : r.replay setting moves = some r') :
    ∃ taskMoves, r.task.proceedAll setting r.state taskMoves = some (r'.task, r'.state) := by
  induction moves generalizing r with
  | nil =>
    obtain rfl : r = r' := Option.some.inj h
    exact ⟨[], rfl⟩
  | cons move moves ih =>
    simp only [replay, Option.bind_eq_bind, Option.bind_eq_some_iff] at h
    obtain ⟨r₁, hstep, hrest⟩ := h
    obtain ⟨taskMoves, hall⟩ := ih hrest
    have hfirst : ∃ first, r.task.proceed setting r.state first = some (r₁.task, r₁.state) := by
      cases move with
      | close =>
        have hclosed := isClosed_step hstep
        obtain rfl : r.close = r₁ := Option.some.inj hstep
        exact ⟨.others r.close.state, Task.proceed_others hclosed⟩
      | work move =>
        simp only [Run.step, Option.bind_eq_bind, Option.bind_eq_some_iff] at hstep
        obtain ⟨⟨t, s⟩, hstep, hr⟩ := hstep
        obtain rfl : { r with task := t, state := s } = r₁ := Option.some.inj hr
        exact ⟨.own move, hstep⟩
    obtain ⟨first, hfirst⟩ := hfirst
    refine ⟨first :: taskMoves, ?_⟩
    simp only [Task.proceedAll, hfirst]
    exact hall

/-! ### The chronicle -/

/-- The batch of tuples that an event is, with its input. -/
def FeedEvent.told? : FeedEvent → Option (Nat × TupleBatch)
  | .batch input tuples => some (input, tuples)
  | .done _ => none

/-- What was seen of an iterator, each in order. -/
structure Chronicle where
  /-- The batches of tuples that were put into the queue, with their inputs. -/
  told : List (Nat × TupleBatch)
  /-- The batches that closed. -/
  closed : List (ClosedBatch Solution)
  /-- The branches as they were started. -/
  started : List Task
  /-- The numbers of the branches that are at work. -/
  running : List Nat
  /-- The numbers of the branches that are over, with their outcomes. -/
  ended : List (Nat × Outcome)

namespace Chronicle

variable (setting : Setting)

/-- Nothing was seen. -/
def empty : Chronicle := ⟨[], [], [], [], []⟩

/-- What was seen after a move that has made one task of another. -/
def extend (c : Chronicle) (s : RunState) : Move → Task → Task → Chronicle
  | .item _, .iterating _ _ i _ _, .iterating _ _ i' _ _ =>
    { c with told := c.told ++ (i'.queue.drop i.queue.length).filterMap FeedEvent.told? }
  | .here, .iterating _ _ i branches _, .iterating _ _ _ branches' _ =>
    let started := branches'.drop branches.length
    { c with
      closed := c.closed ++ i.hear.batches.closed
      started := c.started ++ started
      running := c.running ++ List.range' c.started.length started.length }
  | .inside index move, .iterating _ _ _ branches _, .iterating .. =>
    match (branches[index]?).bind (·.step setting move s) with
    | some (u, _) =>
      if u.isFinished then
        { c with
          running := c.running.eraseIdx index
          ended := c.ended ++ (c.running[index]?).toList.map (·, u.outcome) }
      else c
    | none => c
  | _, _, _ => c

variable {setting} in
/-- No batch closes while a branch goes on. -/
theorem closed_extend_inside (c : Chronicle) (s : RunState) (index : Nat) (move : Move)
    (t t' : Task) : (c.extend setting s (.inside index move) t t').closed = c.closed := by
  unfold extend
  split
  · rfl
  · next h => cases h
  · split
    · split <;> rfl
    · rfl
  · rfl

/-- What was seen after something has made one task of another. -/
def observe (c : Chronicle) (s : RunState) (t t' : Task) : TaskMove → Chronicle
  | .own move => c.extend setting s move t t'
  | .others _ => c

end Chronicle

/-- The chronicle of a task from what was seen before, as far as what happens to it can happen. -/
def Task.chronicle (setting : Setting) (c : Chronicle) (t : Task) (s : RunState) :
    List TaskMove → Chronicle
  | [] => c
  | move :: rest =>
    match t.proceed setting s move with
    | some (t', s') => chronicle setting (c.observe setting s t t' move) t' s' rest
    | none => c

end TripleLoom
