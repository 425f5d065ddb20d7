import TripleLoom.Proofs.Run.Protocol

/-!
# TripleLoom.Proofs.Run.Skipping — what stands for a call that is left out

A call is left out because it is recorded, and it is recorded where a plan is started for it: by a
call, which starts the plan of its name, or by the run itself, which starts its own plan.  So what
stands for a call that was left out is the plan of its name, unless the run's own plan has that name
and another one was registered under it before: then the run's own plan stands for the calls of its
input, and the registered one may never have been started.  `Run.Founded` says this of a state, and
`Run.skipped_founded` of all runs.
-/

namespace TripleLoom

open RunM

/-! ### What an act adds to the record -/

/-- The record grows, and no call is left out. -/
def RunState.SkipsNothing (s t : RunState) : Prop :=
  ∃ events, t.record = events ++ s.record ∧ ∀ call, Event.skipped call ∉ events

namespace RunState.SkipsNothing

variable {s t u : RunState}

theorem of_record_eq (h : t.record = s.record) : SkipsNothing s t :=
  ⟨[], h, fun _ hc => nomatch hc⟩

theorem note (s : RunState) {e : Event} (h : ∀ call, e ≠ .skipped call) :
    SkipsNothing s { s with record := e :: s.record } :=
  ⟨[e], rfl, fun call hc => h call (List.mem_singleton.mp hc).symm⟩

theorem trans (h : SkipsNothing s t) (h' : SkipsNothing t u) : SkipsNothing s u := by
  obtain ⟨first, hf, hfirst⟩ := h
  obtain ⟨second, hs, hsecond⟩ := h'
  refine ⟨second ++ first, by rw [hs, hf, List.append_assoc], fun call hc => ?_⟩
  rcases List.mem_append.mp hc with hc | hc
  · exact hsecond call hc
  · exact hfirst call hc

theorem of_change (h : s.Change t) : SkipsNothing s t := by
  obtain ⟨events, he, hplain⟩ := h.record
  refine ⟨events, he, fun call hc => ?_⟩
  have := hplain _ hc
  cases this

end RunState.SkipsNothing

namespace Purpose

variable {setting : Setting} {name : Iri} {plan : Plan} {s : RunState} {purpose : Purpose}

/-- A purpose that requests no call leaves none out. -/
theorem skipsNothing_serve (h : purpose.request? setting name plan s = none) :
    s.SkipsNothing (purpose.serve setting name plan s).2 := by
  cases purpose with
  | resolve => exact .of_record_eq rfl
  | call c arguments caller once =>
    have hp := (c.isScoped_parameters setting.functions caller name plan arguments).isPlain s
    simp only [serve, bind_apply]
    cases hr : (c.parameters setting.functions name plan arguments caller s).1 with
    | error e => exact .of_change hp
    | ok solution =>
      cases once with
      | true => simp [request?, hr] at h
      | false =>
        obtain ⟨c', scopes, hs⟩ := c.startCall_apply (.ofSolution name plan.signature solution)
          plan solution false (c.parameters setting.functions name plan arguments caller s).2
        simp only [Bool.not_false, if_true, hs]
        exact (RunState.SkipsNothing.of_change hp).trans (.note _ fun _ h => by cases h)

end Purpose

namespace Task

variable {setting : Setting} {s : RunState} {t : Task}

/-- Finding a plan leaves no call out. -/
theorem skipsNothing_found {name : Iri} {purpose : Purpose} {plan : Plan} {s₁ : RunState}
    (h : t.found? setting s = some (name, purpose, plan, s₁)) : s.SkipsNothing s₁ := by
  cases t with
  | entering n p =>
    obtain ⟨plan', hp, heq⟩ := Option.map_eq_some_iff.mp h
    simp only [Prod.mk.injEq] at heq
    obtain ⟨-, -, -, rfl⟩ := heq
    exact .of_record_eq rfl
  | asking n accept p =>
    simp only [found?] at h
    split at h
    · next document hd =>
      have hplain := document.isPlain_toPlan setting n s
      split at h
      · next plan' s₂ hp =>
        simp only [Option.some.injEq, Prod.mk.injEq] at h
        obtain ⟨-, -, -, rfl⟩ := h
        rw [hp] at hplain
        exact (RunState.SkipsNothing.of_change hplain).trans (.of_record_eq rfl)
      · cases h
    · cases h
    · cases h
  | _ => cases h

/-- An act that requests no call leaves none out. -/
theorem skipsNothing_act (h : t.request? setting s = none) :
    s.SkipsNothing (t.act setting s).2 := by
  cases hf : t.found? setting s with
  | none => exact .of_change (change_of_not_found hf)
  | some found =>
    obtain ⟨name, purpose, plan, s₁⟩ := found
    rw [request?, hf, Option.bind_some] at h
    rw [act_of_found hf]
    exact (skipsNothing_found hf).trans (Purpose.skipsNothing_serve h)

/-- What a request adds to the record: the call is left out if it is recorded, and otherwise the
plan of its name is started for it. -/
theorem record_of_request {call : CallKey} (h : t.request? setting s = some call) :
    ∃ plan events, (∀ call, Event.skipped call ∉ events) ∧
      (t.act setting s).2.registry.get? call.name = some plan ∧
      (∀ name p, s.registry.get? name = some p → (t.act setting s).2.registry.get? name = some p) ∧
      if call ∈ s.calls then
        (t.act setting s).2.calls = s.calls ∧
          (t.act setting s).2.record = .skipped call :: (events ++ s.record)
      else
        (t.act setting s).2.calls = call :: s.calls ∧
          (t.act setting s).2.record = .started call plan true :: (events ++ s.record) := by
  rw [request?, Option.bind_eq_some_iff] at h
  obtain ⟨⟨name, purpose, plan, s₁⟩, hf, hr⟩ := h
  obtain ⟨events, hevents, hskips⟩ := skipsNothing_found hf
  obtain ⟨plan₀, _, hplan, -, hs₁⟩ := found_state hf
  obtain ⟨solution, scopes, hcall, hserve⟩ := Purpose.serve_of_request hr
  obtain rfl : call.name = name := by rw [hcall]; rfl
  have hcalls : s₁.calls = s.calls := by rw [hs₁]
  have hregistry : s₁.registry = (s.registry.register call.name plan₀).2 := by rw [hs₁]
  have hnamed : s₁.registry.get? call.name = some plan := by
    rw [hregistry, hplan]
    exact s.registry.get?_register _ _
  have hkept : ∀ name p, s.registry.get? name = some p → s₁.registry.get? name = some p := by
    rw [hregistry]
    exact fun name p hp => QueryRegistry.get?_register_of_get? _ _ _ hp
  rw [act_of_found hf]
  refine ⟨plan, events, hskips, ?_⟩
  rw [hcalls] at hserve
  by_cases hc : call ∈ s.calls
  · rw [if_pos hc] at hserve ⊢
    rw [hserve]
    exact ⟨hnamed, hkept, rfl, congrArg _ hevents⟩
  · rw [if_neg hc] at hserve ⊢
    obtain ⟨c, hserve⟩ := hserve
    rw [hserve]
    exact ⟨hnamed, hkept, rfl, congrArg _ hevents⟩

end Task

/-! ### Founded records -/

namespace Run

/-- A plan stands for a call in a run: the one registered under the call's name, or the run's own
for a call of its input. -/
def StandsFor (plan : Plan) (own : List CallKey) (registry : QueryRegistry) (call : CallKey)
    (p : Plan) : Prop :=
  registry.get? call.name = some p ∨ p = plan ∧ call ∈ own

/-- Among some events, a plan was started for a call that stands for it. -/
def IsStarted (plan : Plan) (own : List CallKey) (registry : QueryRegistry) (events : List Event)
    (call : CallKey) : Prop :=
  ∃ p once, .started call p once ∈ events ∧ StandsFor plan own registry call p

/-- What has happened in a run, the newest first, founds its record of calls: for every recorded
call a plan that stands for it was started, and for every call left out that was so before. -/
structure Founded (plan : Plan) (own : List CallKey) (events : List Event) (s : RunState) :
    Prop where
  recorded : ∀ call ∈ s.calls, IsStarted plan own s.registry events call
  skipped : ∀ later call earlier, events = later ++ .skipped call :: earlier →
    IsStarted plan own s.registry earlier call

variable {plan : Plan} {own : List CallKey} {events new : List Event} {s s' : RunState}
  {registry registry' : QueryRegistry} {call : CallKey}

theorem IsStarted.mono (h : IsStarted plan own registry events call)
    (hr : ∀ name p, registry.get? name = some p → registry'.get? name = some p)
    (new : List Event) : IsStarted plan own registry' (new ++ events) call := by
  obtain ⟨p, once, hmem, hstands⟩ := h
  exact ⟨p, once, List.mem_append_right _ hmem, hstands.imp_left (hr _ p)⟩

/-- The record stays founded if no call is left out and none is recorded. -/
theorem Founded.of_skipsNothing (h : Founded plan own events s) (hc : s'.calls = s.calls)
    (hr : ∀ name p, s.registry.get? name = some p → s'.registry.get? name = some p)
    (hnew : ∀ call, Event.skipped call ∉ new) : Founded plan own (new ++ events) s' := by
  refine ⟨fun call hcall => (h.recorded call (hc ▸ hcall)).mono hr new, ?_⟩
  intro later call earlier hsplit
  rcases List.append_eq_append_iff.mp hsplit with ⟨between, rfl, hrest⟩ | ⟨between, hrest, hold⟩
  · exact (h.skipped between call earlier hrest).mono hr []
  · cases between with
    | nil => exact (h.skipped [] call earlier hold.symm).mono hr []
    | cons e between =>
      obtain ⟨rfl, -⟩ := List.cons.inj hold
      exact absurd (hrest ▸ List.mem_append_right _ List.mem_cons_self) (hnew call)

/-- A call that is left out is recorded, so a plan that stands for it was started before. -/
theorem Founded.skip (h : Founded plan own events s) (hc : call ∈ s.calls) :
    Founded plan own (.skipped call :: events) s := by
  refine ⟨fun c hmem => (h.recorded c hmem).mono (fun _ _ => id) [_], ?_⟩
  intro later c earlier hsplit
  cases later with
  | nil =>
    obtain ⟨heq, rfl⟩ := List.cons.inj hsplit
    obtain rfl : call = c := by injection heq
    exact h.recorded call hc
  | cons e later => exact h.skipped later c earlier (List.cons.inj hsplit).2

theorem Founded.note {p : Plan} {once : Bool} (h : Founded plan own events s)
    (hc : s'.calls = s.calls) (hr : s'.registry = s.registry) :
    Founded plan own (.started call p once :: events) s' := by
  have hnew : ∀ c, Event.skipped c ∉ [Event.started call p once] := fun c hmem => by simp at hmem
  exact h.of_skipsNothing hc (fun _ _ => by rw [hr]; exact id) hnew

/-- A call that is recorded when a plan is started for it is founded on that plan. -/
theorem Founded.start {p : Plan} {once : Bool} (h : Founded plan own events s)
    (hc : s'.calls = call :: s.calls) (hr : s'.registry = s.registry)
    (hstands : StandsFor plan own s.registry call p) :
    Founded plan own (.started call p once :: events) s' := by
  have hkept : Founded plan own (.started call p once :: events) s := h.note rfl rfl
  refine ⟨fun c hmem => ?_, hr ▸ hkept.skipped⟩
  rw [hr]
  rw [hc] at hmem
  rcases List.mem_cons.mp hmem with rfl | hold
  · exact ⟨p, once, List.mem_cons_self, hstands⟩
  · exact hkept.recorded c hold

/-! ### Along a run -/

/-- What has happened since a record was as it was founds the calls of a state. -/
def IsFounded (plan : Plan) (own : List CallKey) (base : List Event) (s : RunState) : Prop :=
  ∃ events, s.record = events ++ base ∧ Founded plan own events s

variable {base : List Event}

theorem IsFounded.of_skipsNothing (h : IsFounded plan own base s) (hs : s.SkipsNothing s')
    (hc : s'.calls = s.calls)
    (hr : ∀ name p, s.registry.get? name = some p → s'.registry.get? name = some p) :
    IsFounded plan own base s' := by
  obtain ⟨events, hrecord, hfounded⟩ := h
  obtain ⟨new, hnew, hskips⟩ := hs
  exact ⟨new ++ events, by rw [hnew, hrecord, List.append_assoc],
    hfounded.of_skipsNothing hc hr hskips⟩

theorem IsFounded.of_change (h : IsFounded plan own base s) (hs : s.Change s') :
    IsFounded plan own base s' :=
  h.of_skipsNothing (.of_change hs) hs.calls fun name p hp => by rw [hs.registry]; exact hp

/-- The run's own plan stands for the call of a solution of its input. -/
theorem IsFounded.enrollOne {name : Iri} {signature : Option (List Variable)} {u : Solution}
    (h : IsFounded plan own base s) (hown : .ofSolution name signature u ∈ own) :
    IsFounded plan own base (Run.enrollOne name signature plan u s).2 := by
  obtain ⟨events, hrecord, hfounded⟩ := h
  refine ⟨.started (.ofSolution name signature u) plan false :: events, ?_, ?_⟩ <;>
    by_cases hc : .ofSolution name signature u ∈ s.calls <;>
    simp only [Run.enrollOne, bind_apply, RunM.recordCall, hc, if_true, if_false]
  · exact congrArg _ hrecord
  · exact congrArg _ hrecord
  · exact hfounded.note rfl rfl
  · exact hfounded.start rfl rfl (.inr ⟨rfl, hown⟩)

theorem IsFounded.enrollAll {name : Iri} {signature : Option (List Variable)} :
    ∀ {solutions : List Solution} {s : RunState}, IsFounded plan own base s →
      (∀ u ∈ solutions, .ofSolution name signature u ∈ own) →
      IsFounded plan own base (solutions.forM (Run.enrollOne name signature plan) s).2
  | [], _, h, _ => h
  | u :: rest, s, h, hown => by
    have hone : IsFounded plan own base (Run.enrollOne name signature plan u s).2 :=
      h.enrollOne (hown u List.mem_cons_self)
    exact hone.enrollAll fun v hv => hown v (List.mem_cons_of_mem u hv)

/-- At the start of a run its own plan stands for the calls of its input. -/
theorem isFounded_start (state : RunState) (limit : Nat) (plan : Plan) (input : Sequence) :
    IsFounded plan (ownCalls state.registry plan input) state.record
      (start (state.renew limit) plan input).state := by
  let c : Context := ⟨state.nextSink, state.scopes.root.1, none, state.nextFork, 1⟩
  let s : RunState := { state.renew limit with
    scopes := state.scopes.root.2
    nextSink := state.nextSink + 1
    nextFork := state.nextFork + 1 }
  have hannounced : IsFounded plan (ownCalls state.registry plan input) state.record
      (announce c plan s).2 := by
    rw [announce_apply]
    refine ⟨_, rfl, fun call hc => ?_, fun later call earlier hsplit => ?_⟩
    · cases hc
    · have hmem : Event.skipped call ∈ later ++ .skipped call :: earlier := by simp
      rw [← hsplit] at hmem
      simp at hmem
  show IsFounded _ _ _ (enroll plan input (announce c plan s).2).2
  cases hn : plan.name with
  | none =>
    rw [enroll, hn]
    exact hannounced
  | some name =>
    rw [enroll_apply hn]
    have hregistry : (announce c plan s).2.registry = state.registry := by rw [announce_apply]; rfl
    refine IsFounded.enrollAll (hannounced.of_skipsNothing (.of_record_eq rfl) rfl fun n p =>
      QueryRegistry.get?_register_of_get? _ _ _) fun u hu => ?_
    rw [hregistry, ownCalls, hn]
    exact List.mem_map_of_mem hu

variable {setting : Setting} {r r' : Run} {move : RunMove} {moves : List RunMove}

/-- A move of a run is a close, or a task acts, or one of the fetches and streams that a task waits
for goes on, which requests no call and changes the state in plain ways. -/
theorem state_of_step (h : r.step setting move = some r') :
    move = .close ∧ r' = r.close ∨
      ∃ m t, move = .work m ∧ r.task.at? m = some t ∧
        (r'.state = (t.act setting r.state).2 ∨
          t.request? setting r.state = none ∧ r.state.Change r'.state) := by
  cases move with
  | close => exact .inl ⟨rfl, (Option.some.inj h).symm⟩
  | work m =>
    simp only [step, Option.bind_eq_bind, Option.bind_eq_some_iff] at h
    obtain ⟨⟨t', s'⟩, hstep, hr⟩ := h
    obtain rfl : { r with task := t', state := s' } = r' := Option.some.inj hr
    obtain ⟨u, u', hu, hact⟩ := Task.actOn?_of_step hstep
    refine .inr ⟨m, u, rfl, hu, ?_⟩
    unfold Task.actOn? at hact
    split at hact
    · split at hact
      · exact .inl (by rw [Option.some.inj hact])
      · cases hact
    · next index _ =>
      split at hact
      · next hready =>
        have hplain := u.isPlain_actItem setting index r.state
        rw [Option.some.inj hact] at hplain
        exact .inr ⟨request?_of_isItemReady hready, hplain⟩
      · cases hact

/-- Every move keeps the record of calls founded. -/
theorem IsFounded.step (h : IsFounded plan own base r.state)
    (hs : r.step setting move = some r') : IsFounded plan own base r'.state := by
  rcases state_of_step hs with ⟨-, rfl⟩ | ⟨m, t, -, -, hacted | ⟨-, hplain⟩⟩
  · exact h.of_skipsNothing (.of_record_eq rfl) rfl fun _ _ => id
  · rw [hacted]
    cases hr : t.request? setting r.state with
    | none =>
      obtain ⟨hcalls, hregistry, -⟩ := Task.calls_of_no_request hr
      exact h.of_skipsNothing (Task.skipsNothing_act hr) hcalls hregistry
    | some call =>
      obtain ⟨p, new, hskips, hnamed, hregistry, hrecord⟩ := Task.record_of_request hr
      obtain ⟨events, hevents, hfounded⟩ := h
      by_cases hc : call ∈ r.state.calls
      · rw [if_pos hc] at hrecord
        have hgrown := hfounded.of_skipsNothing hrecord.1 hregistry hskips
        refine ⟨.skipped call :: (new ++ events), ?_, hgrown.skip (hrecord.1 ▸ hc)⟩
        rw [hrecord.2, hevents, List.cons_append, List.append_assoc]
      · rw [if_neg hc] at hrecord
        have hgrown : Founded plan own (new ++ events)
            { (t.act setting r.state).2 with calls := r.state.calls } :=
          hfounded.of_skipsNothing rfl hregistry hskips
        refine ⟨.started call p true :: (new ++ events), ?_,
          hgrown.start hrecord.1 rfl (.inl hnamed)⟩
        rw [hrecord.2, hevents, List.cons_append, List.append_assoc]
  · exact h.of_change hplain

theorem IsFounded.replay (h : IsFounded plan own base r.state)
    (hs : r.replay setting moves = some r') : IsFounded plan own base r'.state := by
  induction moves generalizing r with
  | nil =>
    obtain rfl : r = r' := Option.some.inj hs
    exact h
  | cons move moves ih =>
    simp only [Run.replay, Option.bind_eq_bind, Option.bind_eq_some_iff] at hs
    obtain ⟨r₁, hone, hrest⟩ := hs
    exact ih (h.step hone) hrest

/-! ### Names -/

/-- Every name keeps its plan along a run. -/
theorem get?_of_step {name : Iri} {p : Plan} (hs : r.step setting move = some r')
    (h : r.state.registry.get? name = some p) : r'.state.registry.get? name = some p := by
  rcases state_of_step hs with ⟨-, rfl⟩ | ⟨m, t, -, -, hacted | ⟨-, hplain⟩⟩
  · exact h
  · rw [hacted]
    cases hr : t.request? setting r.state with
    | none => exact (Task.calls_of_no_request hr).2.1 name p h
    | some call =>
      obtain ⟨_, _, -, -, hkept, -⟩ := Task.record_of_request hr
      exact hkept name p h
  · rw [hplain.registry]
    exact h

theorem get?_of_replay {name : Iri} {p : Plan} (hs : r.replay setting moves = some r')
    (h : r.state.registry.get? name = some p) : r'.state.registry.get? name = some p := by
  induction moves generalizing r with
  | nil =>
    obtain rfl : r = r' := Option.some.inj hs
    exact h
  | cons move moves ih =>
    simp only [replay, Option.bind_eq_bind, Option.bind_eq_some_iff] at hs
    obtain ⟨r₁, hone, hrest⟩ := hs
    exact ih hrest (get?_of_step hone h)

theorem registry_enrollAll (name : Iri) (signature : Option (List Variable)) (plan : Plan) :
    ∀ (solutions : List Solution) (s : RunState),
      (solutions.forM (enrollOne name signature plan) s).2.registry = s.registry
  | [], _ => rfl
  | u :: rest, s =>
    (registry_enrollAll name signature plan rest _).trans
      (registry_enrollOne name signature plan u s)

/-- A run starts with its plan registered under the plan's name, unless the name was taken. -/
theorem registry_start (state : RunState) (limit : Nat) {plan : Plan} {name : Iri}
    (hn : plan.name = some name) (input : Sequence) :
    (start (state.renew limit) plan input).state.registry =
      (state.registry.register name plan).2 := by
  let c : Context := ⟨state.nextSink, state.scopes.root.1, none, state.nextFork, 1⟩
  let s : RunState := { state.renew limit with
    scopes := state.scopes.root.2
    nextSink := state.nextSink + 1
    nextFork := state.nextFork + 1 }
  show (enroll plan input (announce c plan s).2).2.registry = _
  rw [enroll_apply hn, registry_enrollAll, announce_apply]
  rfl

/-- A plan without a name is not registered. -/
theorem registry_start_unnamed (state : RunState) (limit : Nat) {plan : Plan}
    (hn : plan.name = none) (input : Sequence) :
    (start (state.renew limit) plan input).state.registry = state.registry := by
  let c : Context := ⟨state.nextSink, state.scopes.root.1, none, state.nextFork, 1⟩
  let s : RunState := { state.renew limit with
    scopes := state.scopes.root.2
    nextSink := state.nextSink + 1
    nextFork := state.nextFork + 1 }
  show (enroll plan input (announce c plan s).2).2.registry = _
  rw [enroll, hn]
  show (announce c plan s).2.registry = _
  rw [announce_apply]
  rfl

/-- The calls that a run records for its input bear the name of its plan. -/
theorem name_of_mem_ownCalls {registry : QueryRegistry} {input : Sequence}
    (h : call ∈ ownCalls registry plan input) : plan.name = some call.name := by
  unfold ownCalls at h
  split at h
  · cases h
  · next name hn =>
    obtain ⟨u, -, rfl⟩ := List.mem_map.mp h
    exact hn

/-- **What stands for a call that is left out.**  Whenever a run leaves a call out, a plan was
started earlier in the run for the same parameters.  It is the plan registered under the call's
name, unless the run's own plan has that name while another one is registered under it: then it may
be the run's own plan, started for its input. -/
theorem skipped_founded {state : RunState} {limit : Nat} {plan : Plan} {input : Sequence}
    (h : (start (state.renew limit) plan input).replay setting moves = some r) :
    ∃ events, r.state.record = events ++ state.record ∧
      ∀ later call earlier, events = later ++ .skipped call :: earlier →
        ∃ p once, .started call p once ∈ earlier ∧
          (r.state.registry.get? call.name = some p ∨
            p = plan ∧ plan.name = some call.name ∧ call ∈ ownCalls state.registry plan input ∧
              ∃ registered, registered ≠ plan ∧
                state.registry.get? call.name = some registered) := by
  obtain ⟨events, hrecord, hfounded⟩ := (isFounded_start state limit plan input).replay h
  refine ⟨events, hrecord, fun later call earlier hsplit => ?_⟩
  obtain ⟨p, once, hmem, hstands⟩ := hfounded.skipped later call earlier hsplit
  refine ⟨p, once, hmem, ?_⟩
  rcases hstands with hnamed | ⟨rfl, hown⟩
  · exact .inl hnamed
  have hname := name_of_mem_ownCalls hown
  by_cases hother : ∃ registered, registered ≠ p ∧
      state.registry.get? call.name = some registered
  · exact .inr ⟨rfl, hname, hown, hother⟩
  -- the name was free, or the run's own plan had it
  refine .inl (get?_of_replay h ?_)
  rw [registry_start state limit hname, QueryRegistry.get?_register]
  unfold QueryRegistry.register
  split
  · next registered hr =>
    by_contra hne
    exact hother ⟨registered, fun heq => hne (congrArg some heq), hr⟩
  · rfl

/-- The second of two equal calls is left out, and the first has started the plan of the name. -/
theorem skipped_greeting_founded :
    ∃ r, greetingRun.replay bareSetting greetingMoves = some r ∧
      .skipped ⟨greeting, []⟩ ∈ r.state.record ∧
      ∃ events, r.state.record = events ++ greetingState.record ∧
        ∀ later call earlier, events = later ++ .skipped call :: earlier →
          ∃ p once, .started call p once ∈ earlier ∧
            (r.state.registry.get? call.name = some p ∨
              p = greetingCaller ∧ greetingCaller.name = some call.name ∧
                call ∈ ownCalls greetingState.registry greetingCaller
                  (.ofLists [] [.empty, .empty]) ∧
                ∃ registered, registered ≠ greetingCaller ∧
                  greetingState.registry.get? call.name = some registered) := by
  have hrun : (greetingRun.replay bareSetting greetingMoves).any (fun r =>
      r.state.record.any fun e => match e with
        | .skipped call => call == ⟨greeting, []⟩
        | _ => false) = true := by
    decide +kernel
  obtain ⟨r, hr, hskips⟩ := (Option.any_eq_true _ _).mp hrun
  obtain ⟨e, hmem, he⟩ := List.any_eq_true.mp hskips
  refine ⟨r, hr, ?_, skipped_founded hr⟩
  cases e with
  | skipped call => rwa [eq_of_beq he] at hmem
  | _ => cases he

/-! ### A namesake of a registered query -/

/-- The name of two queries. -/
def shared : Iri := ⟨"urn:shared"⟩

/-- The query that is registered under the name: it writes a triple. -/
def registeredPlan : Plan :=
  ⟨some shared, none, none, [], [], none, [], .generate [.triples
    ⟨[⟨.iri shared, .iri shared, .iri shared⟩], []⟩]⟩

/-- Another query of that name, which calls the name. -/
def namesake : Plan :=
  ⟨some shared, none, none, [], [], none, [], .generate [.call ⟨.iri shared, none⟩]⟩

/-- A state in which the first query is registered. -/
def sharedState : RunState :=
  { RunState.start 1 with registry := (QueryRegistry.empty.register shared registeredPlan).2 }

/-- The moves of a run of the other one, for the solution without bindings. -/
def namesakeMoves : List RunMove :=
  [.here, .here, .here, .inside 0 .here, .here, .inside 0 .here, .here, .here].map .work

/-- Whether an event leaves a call out. -/
def skips (call : CallKey) : Event → Bool
  | .skipped other => other == call
  | _ => false

/-- Whether an event starts a plan that only writes triples. -/
def startsWriter : Event → Bool
  | .started _ ⟨_, _, _, _, _, _, _, .generate [.triples _]⟩ _ => true
  | _ => false

/-- A run of the other query leaves its call of the name out, although the query that is registered
under the name was not started at all. -/
theorem skips_registered :
    ∃ r, (start (sharedState.renew 1) namesake .unit).replay bareSetting namesakeMoves = some r ∧
      r.isOver = true ∧ .skipped ⟨shared, []⟩ ∈ r.state.record ∧
      r.state.registry.get? shared = some registeredPlan ∧
      ∀ call once, .started call registeredPlan once ∉ r.state.record := by
  have hrun : ((start (sharedState.renew 1) namesake .unit).replay bareSetting namesakeMoves).any
      (fun r => r.isOver && r.state.record.any (skips ⟨shared, []⟩) &&
        r.state.record.all fun e => !startsWriter e) = true := by
    decide +kernel
  obtain ⟨r, hr, htests⟩ := (Option.any_eq_true _ _).mp hrun
  rw [Bool.and_eq_true, Bool.and_eq_true] at htests
  obtain ⟨⟨hover, hskips⟩, hstarts⟩ := htests
  obtain ⟨e, hmem, he⟩ := List.any_eq_true.mp hskips
  refine ⟨r, hr, hover, ?_, get?_of_replay hr ?_, fun call once hstarted => ?_⟩
  · cases e with
    | skipped call => rwa [eq_of_beq he] at hmem
    | _ => cases he
  · rw [registry_start sharedState 1 (show namesake.name = some shared from rfl)]
    rfl
  · have := List.all_eq_true.mp hstarts _ hstarted
    cases this

end Run

end TripleLoom
