import TripleLoom.Proofs.Pipeline.Refinement
import TripleLoom.Proofs.Run.Inner

/-!
# TripleLoom.Proofs.Run.Protocol — the calls of a run on its sink

A run announces its plan once, writes triples, texts and solutions, and takes its leave once.  What
happens between the announcement and the leave is of the inner kind, for one move and for all moves
of a run (`Run.growsInside_replay`); so no query that is run on the way announces anything, neither
to the sink of the run nor to one of its own, and nothing of this depends on what comes of the run
(`Run.follows_protocol`).
-/

namespace TripleLoom

open RunM

namespace Run

variable {setting : Setting} {r r' : Run} {move : RunMove} {moves : List RunMove}

theorem growsInside_step (h : r.step setting move = some r') :
    r.state.GrowsInside r'.state ∧ r'.context = r.context := by
  cases move with
  | close =>
    obtain rfl : r.close = r' := Option.some.inj h
    exact ⟨.of_record_eq rfl, rfl⟩
  | work move =>
    simp only [step, Option.bind_eq_bind, Option.bind_eq_some_iff] at h
    obtain ⟨⟨t, s⟩, hstep, hr⟩ := h
    obtain rfl : { r with task := t, state := s } = r' := Option.some.inj hr
    exact ⟨(Task.inner_step hstep).record, rfl⟩

theorem growsInside_replay (h : r.replay setting moves = some r') :
    r.state.GrowsInside r'.state ∧ r'.context = r.context := by
  induction moves generalizing r with
  | nil =>
    obtain rfl : r = r' := Option.some.inj h
    exact ⟨.of_record_eq rfl, rfl⟩
  | cons move moves ih =>
    simp only [replay, Option.bind_eq_bind, Option.bind_eq_some_iff] at h
    obtain ⟨r₁, hstep, hrest⟩ := h
    obtain ⟨hfirst, hcontext⟩ := growsInside_step hstep
    obtain ⟨hlater, hcontext'⟩ := ih hrest
    exact ⟨hfirst.trans hlater, hcontext'.trans hcontext⟩

theorem isInner_enroll (plan : Plan) (input : Sequence) : IsInner (enroll plan input) := by
  unfold enroll
  split
  · exact .pure _
  · exact .bind (.register _ plan) fun _ =>
      .forM (fun s => .bind (.recordCall _) fun _ => .note rfl) _

/-- A run starts with the announcement of its plan, in a sink of its own. -/
theorem exists_announced (state : RunState) (plan : Plan) (input : Sequence) :
    ∃ t : RunState, t.GrowsInside (start state plan input).state ∧
      t.record = (plan.announcement.map (.written state.nextSink)).reverse ++ state.record := by
  let c : Context := ⟨state.nextSink, state.scopes.root.1, none, state.nextFork, 1⟩
  let s : RunState := { state with
    scopes := state.scopes.root.2
    nextSink := state.nextSink + 1
    nextFork := state.nextFork + 1 }
  refine ⟨(announce c plan s).2, (isInner_enroll plan input _).record, ?_⟩
  rw [announce_apply]

/-- Nothing happens any more in a run that is over, but that it may be closed. -/
theorem replay_of_isOver (hover : r.isOver = true) (h : r.replay setting moves = some r') :
    r'.state.record = r.state.record ∧ r'.context = r.context := by
  induction moves generalizing r with
  | nil =>
    obtain rfl : r = r' := Option.some.inj h
    exact ⟨rfl, rfl⟩
  | cons move moves ih =>
    cases move with
    | close => exact ih (r := r.close) hover h
    | work move =>
      obtain ⟨c, task, s⟩ := r
      cases task with
      | finished o => cases move <;> cases h
      | _ => cases hover

end Run

namespace RunState

variable {s t : RunState} {sink : SinkId} {calls : List SinkCall}

/-- What is written into one sink is written into no other. -/
theorem output_of_record (h : t.record = (calls.map (.written sink)).reverse ++ s.record)
    (other : SinkId) : t.output other = s.output other ++ if other = sink then calls else [] := by
  have hwritten : (calls.map (Event.written sink)).filterMap (·.writtenTo? other) =
      if other = sink then calls else [] := by
    rw [List.filterMap_map]
    split
    · next heq => simp [Event.writtenTo?, heq]
    · next hne => simp [Function.comp_def, Event.writtenTo?, Ne.symm hne]
  rw [output, output, h, List.filterMap_append, List.filterMap_reverse, hwritten,
    List.reverse_append, List.reverse_reverse]

end RunState

namespace Run

variable {setting : Setting} {r r' : Run} {moves : List RunMove}

/-- **The protocol of the sink.**  Whatever a run does and whatever comes of it: when it is over it
has announced its plan to its sink, then written parts of a body, and then taken its leave.  All
that went to other sinks meanwhile was parts of a body, and nothing goes to any sink after that. -/
theorem follows_protocol (state : RunState) (limit : Nat) (plan : Plan) (input : Sequence)
    (hreplay : (start (state.renew limit) plan input).replay setting moves = some r)
    (hover : r.isOver = true) :
    (∃ body, (∀ call ∈ body, call.isBody = true) ∧
      r.finish.output r.context.sink =
        state.output r.context.sink ++ (plan.announcement ++ body ++ [.finish])) ∧
    (∀ sink ≠ r.context.sink, ∃ body, (∀ call ∈ body, call.isBody = true) ∧
      r.finish.output sink = state.output sink ++ body) ∧
    ∀ later r', r.replay setting later = some r' → r'.finish.output = r.finish.output := by
  obtain ⟨t, hstart, hrecord⟩ := exists_announced (state.renew limit) plan input
  obtain ⟨hwork, hcontext⟩ := growsInside_replay hreplay
  have hsink : r.context.sink = state.nextSink := congrArg Context.sink hcontext
  have hbody : ∀ sink, ∃ body, (∀ call ∈ body, call.isBody = true) ∧
      r.finish.output sink = state.output sink ++
        (if sink = r.context.sink then plan.announcement else []) ++ body ++
          if sink = r.context.sink then [.finish] else [] := by
    intro sink
    obtain ⟨body, hbody, houtput⟩ := (hstart.trans hwork).exists_body sink
    refine ⟨body, hbody, ?_⟩
    have hannounced := RunState.output_of_record hrecord sink
    have hleave : r.finish.record = ([SinkCall.finish].map (.written r.context.sink)).reverse ++
        r.state.record := rfl
    rw [RunState.output_of_record hleave, houtput, hannounced, hsink]
    rfl
  refine ⟨?_, fun sink hne => ?_, fun later r' hlater => ?_⟩
  · obtain ⟨body, hall, houtput⟩ := hbody r.context.sink
    rw [if_pos rfl, if_pos rfl] at houtput
    refine ⟨body, hall, ?_⟩
    rw [houtput]
    simp only [List.append_assoc]
  · obtain ⟨body, hall, houtput⟩ := hbody sink
    rw [if_neg hne, if_neg hne, List.append_nil, List.append_nil] at houtput
    exact ⟨body, hall, houtput⟩
  · obtain ⟨hsame, hc⟩ := replay_of_isOver hover hlater
    funext sink
    have hrecord : r'.finish.record = r.finish.record := by
      show Event.written r'.context.sink .finish :: r'.state.record = _
      rw [hsame, hc]
      rfl
    rw [RunState.output, RunState.output, hrecord]

/-- A plan with a prefix and a base IRI whose text holds that of a query with others. -/
def quotingPlan : Plan :=
  ⟨none, none, some ⟨"urn:outer"⟩, [("o", "urn:o#")], [], none, [],
    .template (.template ⟨none, [.plan ⟨none, none, some ⟨"urn:inner"⟩, [("i", "urn:i#")], [], none,
      [], .rows none⟩], none, none⟩)⟩

/-- The moves of its run for one solution, closed after the inner query is over. -/
def quotingMoves : List RunMove :=
  [.here, .here, .here, .here, .inside 0 .here, .inside 0 .here].map .work ++
  .close :: [.here, .here, .here].map .work

theorem quoting_follows_protocol :
    ∃ r, (start ((RunState.start 1).renew 1) quotingPlan .unit).replay bareSetting quotingMoves =
        some r ∧ r.isOver = true ∧
      (∃ body, (∀ call ∈ body, call.isBody = true) ∧ r.finish.output r.context.sink =
        (RunState.start 1).output r.context.sink ++
          (quotingPlan.announcement ++ body ++ [.finish])) ∧
      (∀ sink ≠ r.context.sink, ∃ body, (∀ call ∈ body, call.isBody = true) ∧
        r.finish.output sink = (RunState.start 1).output sink ++ body) ∧
      ∀ later r', r.replay bareSetting later = some r' → r'.finish.output = r.finish.output := by
  have hrun : ((start ((RunState.start 1).renew 1) quotingPlan .unit).replay bareSetting
      quotingMoves).any (·.isOver) = true := by
    decide +kernel
  obtain ⟨r, hr, hover⟩ := (Option.any_eq_true _ _).mp hrun
  exact ⟨r, hr, hover, follows_protocol (RunState.start 1) 1 quotingPlan .unit hr hover⟩

end Run

end TripleLoom
