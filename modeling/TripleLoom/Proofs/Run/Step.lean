import TripleLoom.Proofs.Run.Change

/-!
# TripleLoom.Proofs.Run.Step — what a move changes

A move makes one task of the tree act, or one of the fetches and streams it waits for.  `Task.at?`
is that task, and `Task.state_of_step` reads a move off as its act; so what holds of all acts holds
of all moves.  All acts but those of tasks that find the plan of a name are plain
(`Task.isPlain_act`), and of these only `Purpose.serve` and the registration are not.
-/

namespace TripleLoom

open RunM

/-! ### Clauses -/

theorem Lifecycle.closed_acquire (l : Lifecycle) : l.acquire.2.closed = l.closed := by
  unfold acquire
  split
  · rfl
  · split <;> rfl

theorem Lifecycle.closed_release (l : Lifecycle) (permit : Nat) :
    (l.release permit).closed = l.closed := by
  unfold release
  split <;> rfl

theorem isPlain_acquire : IsPlain (RunM.lifecycle Lifecycle.acquire) :=
  fun s => .lifecycle s _ s.lifecycle.closed_acquire

theorem Fetch.isPlain_finish (s : Solution) (permit : Nat) : IsPlain (Fetch.finish s permit) :=
  .bind (fun s => .lifecycle s _ (s.lifecycle.closed_release permit)) fun _ => .pure _

theorem Fetch.isPlain_advance (resolver : Resolver) (v : Variable) (f : Fetch) :
    IsPlain (f.advance resolver v) := by
  cases f with
  | waiting s uri accept =>
    refine .bind isPlain_acquire fun acquired => ?_
    split
    · exact .bind (.note rfl) fun _ => .pure _
    · exact .pure _
    · exact .pure _
  | asked s uri accept permit =>
    refine .bind .get fun state => ?_
    split
    · exact isPlain_finish s permit
    · split
      · exact isPlain_finish _ permit
      · exact .bind (.note rfl) fun _ => .pure _
      · exact isPlain_finish s permit
      · exact .pure _
  | done s => exact .pure _

theorem Iteration.isPlain_invokeAll (c : Context) (functions : FunctionRegistry) (name : Iri)
    (f : IteratorFunction) (arguments : List Expression) :
    ∀ (input : Nat) (solutions : List Solution) (batches : Batches Solution),
      IsPlain (invokeAll c functions name f arguments input solutions batches)
  | _, [], _ => .pure _
  | input, s :: rest, batches => by
    have ih := isPlain_invokeAll c functions name f arguments (input + 1) rest
    refine .bind (c.isScoped_evalAll? functions s arguments).isPlain fun values => ?_
    split
    · exact ih _
    · refine .bind .get fun state => .bind (.note rfl) fun _ => ?_
      split
      · exact ih _
      · exact .bind (ih _) fun _ => .pure _

theorem Iteration.isPlain_start (c : Context) (functions : FunctionRegistry) (name : Iri)
    (f : IteratorFunction) (arguments : List Expression) (vars : List Variable)
    (input : Sequence) : IsPlain (start c functions name f arguments vars input) :=
  .bind (isPlain_invokeAll c functions name f arguments 0 _ _) fun _ => .pure _

/-! ### Frames -/

namespace Frame

variable (f : Frame) (setting : Setting)

theorem isPlain_runClauses (input : Sequence) (nodes : List PlanNode) :
    IsPlain (f.runClauses setting input nodes) := by
  unfold runClauses
  split
  · exact .bind (f.context.isScoped_bindAll _ _ _ input).isPlain fun _ => .pure _
  · exact .pure _
  · split
    · exact .pure _
    · refine .bind .get fun state => ?_
      split
      · exact .pure _
      · exact .bind (Iteration.isPlain_start f.context _ _ _ _ _ input) fun _ => .pure _
  · exact .pure _
  · split
    · exact .pure _
    · split <;> exact .pure _
    · exact .pure _

theorem isPlain_evaluate (select : Select) (input : Sequence) (permit : Option Nat) :
    IsPlain (f.evaluate setting select input permit) := by
  unfold evaluate
  split
  · exact .pure _
  · refine .bind .get fun state => .bind (.note rfl) fun _ => .bind ?_ fun _ => ?_
    · intro s
      refine .lifecycle s _ ?_
      cases permit with
      | none => rfl
      | some permit => exact s.lifecycle.closed_release permit
    · split <;> exact .pure _

theorem isPlain_generate (nodes : List PlanNode) (input : Sequence) :
    IsPlain (f.generate nodes input) :=
  .bind (f.context.isPlain_forkFor _) fun _ => .bind (IsScoped.scopes _).isPlain fun _ => .pure _

theorem isPlain_output (input : Sequence) : IsPlain (f.output input) := by
  unfold output
  split
  · exact f.isPlain_generate _ input
  · exact .pure _
  · exact .pure _
  · exact .bind (.forM (fun s => f.context.isPlain_write rfl) _) fun _ => .pure _

theorem isPlain_assemble : ∀ (input : Sequence) (nodes : List PlanNode),
    IsPlain (f.assemble setting input nodes)
  | input, [] => f.isPlain_output input
  | input, .clause (.bind e v) :: rest =>
    .bind (f.context.isScoped_bindAll _ e v input).isPlain fun input => isPlain_assemble input rest
  | _, .clause (.iterator ..) :: _ | _, .clause (.source ..) :: _ | _, .select _ :: _
  | _, .triples _ :: _ | _, .call _ :: _ | _, .template _ :: _ | _, .plan _ :: _ => .pure _

end Frame

/-! ### Output -/

theorem Generation.isPlain_advance (g : Generation) (error : Outcome) (nodes : List PlanNode) :
    IsPlain (g.advance error nodes) := by
  unfold advance
  split
  · exact .pure _
  · exact .bind (TriplesPlan.isPlain_writeAll _ g.fork 0 g.sites) fun _ => .pure _
  · exact .pure _
  · exact .pure _
  · exact .pure _

theorem Generation.isPlain_collect (g : Generation) (nodes : List PlanNode) (running : List Task)
    (error : Outcome) (stage : Stage) : IsPlain (g.collect nodes running error stage) := by
  cases stage with
  | idle => exact g.isPlain_advance error nodes
  | nested | resolving | calling => exact .pure _

theorem Writing.isPlain_advance (setting : Setting) (w : Writing) :
    IsPlain (w.advance setting) := by
  unfold advance
  split
  · exact .pure _
  · exact .bind (w.context.isScoped_textOf _ _ _).isPlain fun _ => .pure _
  · dsimp only
    split
    · exact .bind (w.context.isScoped_textOf _ _ _).isPlain fun _ =>
        .bind (w.context.isPlain_write rfl) fun _ => .pure _
    · exact .bind (.pure _) fun _ => .bind (w.context.isPlain_write rfl) fun _ => .pure _
  · exact .bind (w.context.isScoped_textOf _ _ _).isPlain fun _ => .pure _
  · exact .bind .newSink fun _ => .pure _
  · split
    · exact .pure _
    · exact .bind .newSink fun _ => .pure _

theorem Writing.isPlain_collect (w : Writing) (sink : SinkId) (outcome : Outcome) :
    IsPlain (w.collect sink outcome) := by
  unfold collect
  split
  · exact .pure _
  · exact .bind .get fun _ => .pure _

theorem Document.isPlain_toPlan (setting : Setting) (d : Document) (name : Iri) :
    IsPlain (d.toPlan setting name) := by
  unfold toPlan
  split
  · exact .pure _
  · refine .bind (.note rfl) fun _ => ?_
    split
    · exact .pure _
    · split <;> exact .pure _

/-! ### Tasks -/

namespace Task

/-- Whether a task is about to find the plan of a name. -/
def isFinding : Task → Bool
  | .entering .. | .asking .. => true
  | _ => false

theorem isPlain_act (setting : Setting) {t : Task} (h : t.isFinding = false) :
    IsPlain (t.act setting) := by
  cases t with
  | finished o => exact .pure _
  | clauses f nodes input => exact f.isPlain_runClauses setting input nodes
  | fetching f nodes v input fetches => exact .pure _
  | iterating f nodes i branches error =>
    refine .bind .get fun state => ?_
    split <;> exact .pure _
  | selecting f select input =>
    refine .bind isPlain_acquire fun acquired => ?_
    split <;> exact .pure _
  | evaluating f select input permit => exact f.isPlain_evaluate setting select input permit
  | assembling f input => exact f.isPlain_assemble setting input _
  | generating g nodes stage running error => exact g.isPlain_collect nodes running error stage
  | writing w => exact w.isPlain_advance setting
  | nesting w sink inner => exact w.isPlain_collect sink _
  | entering | asking => simp [isFinding] at h

theorem isPlain_actItem (setting : Setting) (index : Nat) (t : Task) :
    IsPlain (t.actItem setting index) := by
  unfold actItem
  split
  · split
    · exact .bind (Fetch.isPlain_advance _ _ _) fun _ => .pure _
    · exact .pure _
  · exact .pure _
  · exact .pure _

end Task

/-! ### Moves -/

/-- The fetch or stream that a move makes go on, if it is one. -/
def Move.item? : Move → Option Nat
  | .here => none
  | .item index => some index
  | .inside _ move => move.item?

namespace Task

/-- The task that a move makes act. -/
def at? : Move → Task → Option Task
  | .here, t | .item _, t => some t
  | .inside index move, t => (t.inside? index).bind (at? move)

/-- What a task or one of its fetches and streams does on a move, if it can. -/
def actOn? (setting : Setting) (item? : Option Nat) (t : Task) (s : RunState) :
    Option (Task × RunState) :=
  match item? with
  | none => if t.isReady setting s then some (t.act setting s) else none
  | some index =>
    if t.isItemReady setting s index then some (t.actItem setting index s) else none

/-- A move is the act of the task that it names. -/
theorem actOn?_of_step {setting : Setting} : ∀ {move : Move} {t t' : Task} {s s' : RunState},
    t.step setting move s = some (t', s') →
    ∃ u u', t.at? move = some u ∧ u.actOn? setting move.item? s = some (u', s')
  | .here, t, t', _, _, h => ⟨t, t', rfl, h⟩
  | .item _, t, t', _, _, h => ⟨t, t', rfl, h⟩
  | .inside index move, t, t', s, s', h => by
    simp only [step, Option.bind_eq_bind, Option.bind_eq_some_iff] at h
    obtain ⟨inner, hi, ⟨inner', t₁⟩, hstep, heq⟩ := h
    simp only [Option.pure_def, Option.some.injEq, Prod.mk.injEq] at heq
    obtain ⟨-, rfl⟩ := heq
    obtain ⟨u, u', hu, hact⟩ := actOn?_of_step hstep
    exact ⟨u, u', by rw [at?, hi]; exact hu, hact⟩

end Task

end TripleLoom
