import TripleLoom.Proofs.Run.Step

/-!
# TripleLoom.Proofs.Run.Inner — what any task leaves alone

Whatever a task does, calls of named queries included, it neither announces anything nor takes leave
of a sink, and it neither closes nor reopens the run.  `RunState.Inner` says this of a change of the
state, `RunM.IsInner` of a computation, and `Task.inner_step` of every move.
-/

namespace TripleLoom

open RunM

/-- Whether an event may happen between the announcement of a run and its leave. -/
def Event.isInner : Event → Bool
  | .written _ call => call.isBody
  | _ => true

/-- The record grows by events of the inner kind. -/
def RunState.GrowsInside (s t : RunState) : Prop :=
  ∃ events, t.record = events ++ s.record ∧ ∀ e ∈ events, e.isInner = true

namespace RunState.GrowsInside

variable {s t u : RunState}

theorem of_record_eq (h : t.record = s.record) : GrowsInside s t := ⟨[], h, by simp⟩

theorem trans (h : GrowsInside s t) (h' : GrowsInside t u) : GrowsInside s u := by
  obtain ⟨first, hf, hfirst⟩ := h
  obtain ⟨second, hs, hsecond⟩ := h'
  refine ⟨second ++ first, by rw [hs, hf, List.append_assoc], fun e he => ?_⟩
  rcases List.mem_append.mp he with he | he
  · exact hsecond e he
  · exact hfirst e he

theorem of_change (h : s.Change t) : GrowsInside s t := by
  obtain ⟨events, he, hplain⟩ := h.record
  refine ⟨events, he, fun e hmem => ?_⟩
  have := hplain e hmem
  cases e with
  | written sink call => exact this
  | _ => rfl

/-- What is written into a sink meanwhile is part of a body. -/
theorem exists_body (h : GrowsInside s t) (sink : SinkId) :
    ∃ body, (∀ call ∈ body, call.isBody = true) ∧ t.output sink = s.output sink ++ body := by
  obtain ⟨events, he, hinner⟩ := h
  refine ⟨(events.filterMap (·.writtenTo? sink)).reverse, fun call hc => ?_, ?_⟩
  · obtain ⟨e, hmem, hwritten⟩ := List.mem_filterMap.mp (List.mem_reverse.mp hc)
    have := hinner e hmem
    cases e with
    | written other call' =>
      rw [Event.writtenTo?] at hwritten
      split at hwritten
      · obtain rfl := Option.some.inj hwritten
        exact this
      · cases hwritten
    | _ => cases hwritten
  · rw [RunState.output, RunState.output, he, List.filterMap_append, List.reverse_append]

end RunState.GrowsInside

/-- A change that no task goes beyond: events of the inner kind are noted, and the run is as closed
as it was. -/
structure RunState.Inner (s t : RunState) : Prop where
  record : s.GrowsInside t
  isClosed : t.isClosed = s.isClosed

theorem RunState.Inner.trans {s t u : RunState} (h : s.Inner t) (h' : t.Inner u) : s.Inner u :=
  ⟨h.record.trans h'.record, h'.isClosed.trans h.isClosed⟩

/-! ### Computations -/

/-- Makes changes of the inner kind only. -/
def RunM.IsInner {α : Type} (m : RunM α) : Prop := ∀ s : RunState, s.Inner (m s).2

namespace RunM

variable {α β : Type}

theorem IsPlain.isInner {m : RunM α} (hm : IsPlain m) : IsInner m :=
  fun s => ⟨.of_change (hm s), (hm s).isClosed⟩

theorem IsInner.pure (a : α) : IsInner (Pure.pure a) := (IsPlain.pure a).isInner

theorem IsInner.bind {m : RunM α} {f : α → RunM β} (hm : IsInner m)
    (hf : ∀ a, IsInner (f a)) : IsInner (m >>= f) := fun s => (hm s).trans (hf _ _)

theorem IsInner.note {e : Event} (h : e.isInner = true) : IsInner (RunM.note e) :=
  fun _ => ⟨⟨[e], rfl, by simpa using h⟩, rfl⟩

theorem IsInner.register (name : Iri) (plan : Plan) : IsInner (RunM.register name plan) :=
  fun _ => ⟨.of_record_eq rfl, rfl⟩

theorem IsInner.recordCall (call : CallKey) : IsInner (RunM.recordCall call) := by
  intro s
  unfold RunM.recordCall
  split <;> exact ⟨.of_record_eq rfl, rfl⟩

theorem IsInner.forM {f : α → RunM Unit} (hf : ∀ a, IsInner (f a)) : ∀ l : List α, IsInner (l.forM f)
  | [] => .pure _
  | a :: l => .bind (hf a) fun _ => IsInner.forM hf l

end RunM

/-! ### Named queries -/

theorem Context.isInner_startCall (c : Context) (call : CallKey) (plan : Plan) (s : Solution)
    (once : Bool) : IsInner (c.startCall call plan s once) :=
  .bind (.note rfl) fun _ =>
    .bind (IsPlain.bind (IsScoped.scopes _).isPlain fun _ => .pure _).isInner fun _ => .pure _

namespace Purpose

variable (setting : Setting) (name : Iri) (p : Purpose)

theorem isInner_serve (plan : Plan) : IsInner (p.serve setting name plan) := by
  cases p with
  | resolve => exact .pure _
  | call c arguments caller once =>
    refine .bind (c.isScoped_parameters _ caller name plan arguments).isPlain.isInner
      fun parameters => ?_
    cases parameters with
    | error e => exact .pure _
    | ok s =>
      have hstart := fun once =>
        c.isInner_startCall (.ofSolution name plan.signature s) plan s once
      cases once with
      | false => exact hstart false
      | true =>
        refine .bind (.recordCall _) fun isNew => ?_
        cases isNew with
        | true => exact hstart true
        | false => exact .bind (.note rfl) fun _ => .pure _

theorem isInner_enter : IsInner (p.enter setting name) := by
  refine .bind IsPlain.get.isInner fun s => ?_
  split
  · exact p.isInner_serve setting name _
  · exact .bind (.note rfl) fun _ => .pure _

theorem isInner_receive (accept : Option String) :
    IsInner (p.receive setting name accept) := by
  unfold receive
  split
  · next document _ =>
    refine .bind (document.isPlain_toPlan setting name).isInner fun plan => ?_
    split
    · exact .pure _
    · exact .bind (.register name _) fun plan => p.isInner_serve setting name plan
  · exact .bind (.note rfl) fun _ => .pure _
  · exact .pure _
  · exact .pure _

end Purpose

/-! ### Tasks and moves -/

/-- Whatever a task does, it neither announces anything nor takes leave. -/
theorem Task.isInner_act (setting : Setting) (t : Task) : IsInner (t.act setting) := by
  cases hf : t.isFinding with
  | false => exact (t.isPlain_act setting hf).isInner
  | true =>
    cases t with
    | entering name purpose => exact purpose.isInner_enter setting name
    | asking name accept purpose => exact purpose.isInner_receive setting name accept
    | _ => cases hf

theorem Task.inner_step {setting : Setting} {move : Move} {t t' : Task} {s s' : RunState}
    (h : t.step setting move s = some (t', s')) : s.Inner s' := by
  obtain ⟨u, u', -, hact⟩ := actOn?_of_step h
  unfold actOn? at hact
  split at hact
  · split at hact
    · have := u.isInner_act setting s
      rwa [Option.some.inj hact] at this
    · cases hact
  · split at hact
    · next index _ _ =>
      have := (u.isPlain_actItem setting index).isInner s
      rwa [Option.some.inj hact] at this
    · cases hact

end TripleLoom
