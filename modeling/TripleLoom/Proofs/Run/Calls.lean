import TripleLoom.Proofs.Run.Step

/-!
# TripleLoom.Proofs.Run.Calls — calls that are made once

A task that has found the plan of a name for a call to be made once, with arguments that fit,
requests the call.  `Task.request?` reads the request off the task, before it acts;
`Task.act_of_request` says what comes of it, and every other act leaves the recorded calls alone.
So along any run the recorded calls are those of the run's own input and those requested
(`Run.Tallies`), and each of the latter started its plan exactly once (`Run.starts_once`).
-/

namespace TripleLoom

open RunM

/-! ### The registry -/

namespace QueryRegistry

variable (r : QueryRegistry) (name : Iri) (plan : Plan)

/-- Registering under a name that is taken changes nothing. -/
theorem register_of_get? {registered : Plan} (h : r.get? name = some registered) :
    r.register name plan = (registered, r) := by
  rw [register, h]

/-- A name keeps its plan. -/
theorem get?_register_of_get? {n : Iri} {p : Plan} (h : r.get? n = some p) :
    (r.register name plan).2.get? n = some p := by
  unfold register
  split
  · exact h
  · next hn =>
    have hne : n ≠ name := fun he => by simp [← he, h] at hn
    simpa [get?, List.lookup_cons, beq_false_of_ne hne] using h

/-- A registered plan was there before, or is the one that was registered. -/
theorem of_get?_register {n : Iri} {p : Plan} (h : (r.register name plan).2.get? n = some p) :
    r.get? n = some p ∨ p = plan := by
  unfold register at h
  split at h
  · exact .inl h
  · by_cases hne : n = name
    · simp only [get?, hne, List.lookup_cons_self, Option.some.injEq] at h
      exact .inr h.symm
    · rw [get?, List.lookup_cons, beq_false_of_ne hne] at h
      exact .inl h

end QueryRegistry

/-! ### Silent events -/

/-- Whether an event is neither a write, nor a call of the engine, nor the start of a plan for a
call to be made once. -/
def Event.isSilent : Event → Bool
  | .written .. | .evaluated .. | .started _ _ true => false
  | .opened .. | .parsed .. | .invoked .. | .started _ _ false | .skipped _ => true

namespace RunState

/-- The number of times a plan was started for a call to be made once. -/
def starts (s : RunState) (call : CallKey) : Nat :=
  s.record.countP fun e => match e with
    | .started c _ once => once && c == call
    | _ => false

variable (s : RunState) {events : List Event}

theorem countP_silent {p : Event → Bool} (hp : ∀ e, e.isSilent = true → p e = false)
    (h : ∀ e ∈ events, e.isSilent = true) : events.countP p = 0 :=
  List.countP_eq_zero.mpr fun e he => by simp [hp e (h e he)]

theorem starts_silent (h : ∀ e ∈ events, e.isSilent = true) (call : CallKey) :
    starts { s with record := events ++ s.record } call = s.starts call := by
  rw [starts, List.countP_append, countP_silent _ h, Nat.zero_add]
  · rfl
  · rintro (_ | _ | _ | _ | _ | ⟨_, _, _ | _⟩ | _) he <;> simp [Event.isSilent] at he ⊢

theorem evaluations_silent (h : ∀ e ∈ events, e.isSilent = true) :
    evaluations { s with record := events ++ s.record } = s.evaluations := by
  rw [evaluations, List.countP_append, countP_silent _ h, Nat.zero_add]
  · rfl
  · rintro (_ | _ | _ | _ | _ | _ | _) he <;> simp [Event.isSilent, Event.isEvaluation] at he ⊢

theorem output_silent (h : ∀ e ∈ events, e.isSilent = true) (sink : SinkId) :
    output { s with record := events ++ s.record } sink = s.output sink := by
  have hnone : events.filterMap (·.writtenTo? sink) = [] := by
    rw [List.filterMap_eq_nil_iff]
    intro e he
    have := h e he
    cases e <;> simp [Event.isSilent, Event.writtenTo?] at this ⊢
  rw [output, List.filterMap_append, hnone]
  rfl

end RunState

/-! ### Requests -/

/-- The call that a purpose requests once the plan of the name is known: a call to be made once
whose arguments fit the plan's signature. -/
def Purpose.request? (setting : Setting) (name : Iri) (plan : Plan) (s : RunState) :
    Purpose → Option CallKey
  | .call c arguments caller true =>
    match (c.parameters setting.functions name plan arguments caller s).1 with
    | .ok solution => some (.ofSolution name plan.signature solution)
    | .error _ => none
  | .call _ _ _ false | .resolve => none

/-- What a task is about to serve: the name and the purpose, the plan found for the name, and the
state in which it is found. -/
def Task.found? (setting : Setting) (s : RunState) :
    Task → Option (Iri × Purpose × Plan × RunState)
  | .entering name purpose => (s.registry.get? name).map fun plan => (name, purpose, plan, s)
  | .asking name accept purpose =>
    match setting.resolver name.text accept with
    | .found document =>
      match document.toPlan setting name s with
      | (.ok plan, s) =>
        some (name, purpose, (RunM.register name plan s).1, (RunM.register name plan s).2)
      | (.error _, _) => none
    | .missing | .never => none
  | _ => none

/-- The call that a task is about to request. -/
def Task.request? (setting : Setting) (s : RunState) (t : Task) : Option CallKey :=
  (t.found? setting s).bind fun (name, purpose, plan, s) => purpose.request? setting name plan s

/-- A document of a named query that gives a plan was parsed, and nothing else happened. -/
theorem Document.state_of_toPlan {setting : Setting} {d : Document} {name : Iri} {plan : Plan}
    {s s' : RunState} (h : d.toPlan setting name s = (.ok plan, s')) :
    s' = { s with record := .parsed d.content (some name.text) :: s.record } := by
  unfold toPlan at h
  cases hp : setting.parser with
  | none =>
    rw [hp] at h
    cases h
  | some parser =>
    simp only [hp, bind_apply] at h
    cases hq : parser d.content (some name.text) with
    | error e =>
      rw [hq] at h
      cases h
    | ok query =>
      simp only [hq] at h
      cases hr : Plan.ofQuery? { query with name := query.name.or (some name) } with
      | error e =>
        rw [hr] at h
        cases h
      | ok plan =>
        rw [hr] at h
        cases h
        rfl

namespace Task

variable {setting : Setting} {s : RunState} {t : Task}

/-- A task that has found a plan serves its purpose with it. -/
theorem act_of_found {name : Iri} {purpose : Purpose} {plan : Plan} {s₁ : RunState}
    (h : t.found? setting s = some (name, purpose, plan, s₁)) :
    t.act setting s = purpose.serve setting name plan s₁ := by
  cases t with
  | entering n p =>
    obtain ⟨plan', hp, heq⟩ := Option.map_eq_some_iff.mp h
    simp only [Prod.mk.injEq] at heq
    obtain ⟨rfl, rfl, rfl, rfl⟩ := heq
    show p.enter setting n s = _
    simp only [Purpose.enter, bind_apply, get_apply, hp]
  | asking n accept p =>
    simp only [found?] at h
    split at h
    · next document hd =>
      split at h
      · next plan' s₂ hp =>
        simp only [Option.some.injEq, Prod.mk.injEq] at h
        obtain ⟨rfl, rfl, rfl, rfl⟩ := h
        show p.receive setting n accept s = _
        simp only [Purpose.receive, hd]
        rw [bind_apply, hp]
        rfl
      · simp at h
    · simp at h
    · simp at h
  | _ => simp [found?] at h

/-- The state in which a plan is found differs by its registration and by silent events. -/
theorem found_state {name : Iri} {purpose : Purpose} {plan : Plan} {s₁ : RunState}
    (h : t.found? setting s = some (name, purpose, plan, s₁)) :
    ∃ plan₀ events, plan = (s.registry.register name plan₀).1 ∧
      (∀ e ∈ events, e.isSilent = true) ∧
      s₁ = { s with registry := (s.registry.register name plan₀).2
                    record := events ++ s.record } := by
  cases t with
  | entering n p =>
    obtain ⟨plan', hp, heq⟩ := Option.map_eq_some_iff.mp h
    simp only [Prod.mk.injEq] at heq
    obtain ⟨rfl, rfl, rfl, rfl⟩ := heq
    refine ⟨plan', [], ?_, by simp, ?_⟩ <;> rw [QueryRegistry.register_of_get? _ _ _ hp]
    rfl
  | asking n accept p =>
    simp only [found?] at h
    split at h
    · next document hd =>
      split at h
      · next plan' s₂ hp =>
        simp only [Option.some.injEq, Prod.mk.injEq] at h
        obtain ⟨rfl, rfl, rfl, rfl⟩ := h
        obtain rfl := document.state_of_toPlan hp
        exact ⟨plan', [.parsed document.content (some n.text)], rfl, by simp [Event.isSilent], rfl⟩
      · simp at h
    · simp at h
    · simp at h
  | _ => simp [found?] at h

/-- A task that has found no plan changes the state in plain ways. -/
theorem change_of_not_found (h : t.found? setting s = none) : s.Change (t.act setting s).2 := by
  cases t with
  | entering n p =>
    rw [found?, Option.map_eq_none_iff] at h
    show s.Change (p.enter setting n s).2
    simp only [Purpose.enter, bind_apply, get_apply, h]
    exact .note s _ rfl
  | asking n accept p =>
    show s.Change (p.receive setting n accept s).2
    unfold Purpose.receive
    cases hr : setting.resolver n.text accept with
    | found document =>
      simp only [found?, hr] at h
      simp only [bind_apply]
      have hc := document.isPlain_toPlan setting n s
      split at h
      · simp at h
      · next e s₂ hp =>
        rw [hp] at hc ⊢
        exact hc
    | missing =>
      cases accept with
      | some _ => exact .note s _ rfl
      | none => exact .refl s
    | never => exact .refl s
  | _ => exact isPlain_act setting rfl s

end Task

/-! ### Serving -/

namespace RunState

/-- Two states agree on the calls: on those recorded, on the plans, and on those started. -/
structure SameCalls (s t : RunState) : Prop where
  calls : t.calls = s.calls
  registry : t.registry = s.registry
  starts : ∀ call, t.starts call = s.starts call

variable {s t u : RunState}

theorem SameCalls.trans (h : SameCalls s t) (h' : SameCalls t u) : SameCalls s u :=
  ⟨h'.calls.trans h.calls, h'.registry.trans h.registry,
    fun call => (h'.starts call).trans (h.starts call)⟩

theorem sameCalls_note (s : RunState) {e : Event} (h : ∀ call plan, e ≠ .started call plan true) :
    SameCalls s { s with record := e :: s.record } := by
  refine ⟨rfl, rfl, fun call => ?_⟩
  cases e with
  | started c p once =>
    cases once with
    | true => exact absurd rfl (h c p)
    | false => simp [starts]
  | _ => simp [starts]

theorem Change.sameCalls (h : Change s t) : SameCalls s t := by
  induction h with
  | refl s => exact ⟨rfl, rfl, fun _ => rfl⟩
  | trans _ _ ih₁ ih₂ => exact ih₁.trans ih₂
  | note s e h => exact sameCalls_note s fun call plan he => by simp [he, Event.isPlain] at h
  | _ => exact ⟨rfl, rfl, fun _ => rfl⟩

end RunState

/-- The start of a plan for a call notes the call and goes on in a new scope. -/
theorem Context.startCall_apply (c : Context) (call : CallKey) (plan : Plan) (solution : Solution)
    (once : Bool) (s : RunState) :
    ∃ c' scopes, c.startCall call plan solution once s =
      (.ofPlan c' plan (.ofLists plan.parameters [solution]),
        { s with scopes, record := .started call plan once :: s.record }) :=
  ⟨_, _, rfl⟩

namespace Purpose

variable {setting : Setting} {name : Iri} {plan : Plan} {s : RunState} {purpose : Purpose}

/-- Serving a purpose that requests no call leaves the calls alone. -/
theorem sameCalls_serve (h : purpose.request? setting name plan s = none) :
    s.SameCalls (purpose.serve setting name plan s).2 := by
  cases purpose with
  | resolve => exact (RunState.Change.refl s).sameCalls
  | call c arguments caller once =>
    have hp := (c.isScoped_parameters setting.functions caller name plan arguments).isPlain s
    simp only [serve, bind_apply]
    cases hr : (c.parameters setting.functions name plan arguments caller s).1 with
    | error e => exact hp.sameCalls
    | ok solution =>
      cases once with
      | true => simp [request?, hr] at h
      | false =>
        refine hp.sameCalls.trans ?_
        obtain ⟨c', scopes, hs⟩ := c.startCall_apply (.ofSolution name plan.signature solution)
          plan solution false (c.parameters setting.functions name plan arguments caller s).2
        simp only [Bool.not_false, if_true, hs]
        refine RunState.SameCalls.trans (RunState.sameCalls_note _ ?_)
          (RunState.Change.scopes _ scopes).sameCalls
        simp

/-- Serving a call to be made once.  If it is recorded, nothing happens but that it is noted as left
out; if not, it is recorded and its plan started for its parameters. -/
theorem serve_once {c : Context} {arguments : Option (List Expression)}
    {caller solution : Solution} {call : CallKey}
    (h : (c.parameters setting.functions name plan arguments caller s).1 = .ok solution)
    (hcall : .ofSolution name plan.signature solution = call) :
    ∃ scopes, if call ∈ s.calls then
        (Purpose.call c arguments caller true).serve setting name plan s =
          (.finished none, { s with scopes, record := .skipped call :: s.record })
      else ∃ c', (Purpose.call c arguments caller true).serve setting name plan s =
        (.ofPlan c' plan (.ofLists plan.parameters [solution]),
          { s with scopes, calls := call :: s.calls
                   record := .started call plan true :: s.record }) := by
  obtain ⟨x, hx⟩ := c.isScoped_parameters setting.functions caller name plan arguments s
  have hserve : ∀ t, (Purpose.call c arguments caller true).serve setting name plan s = t ↔
      (do if ← RunM.recordCall call then c.startCall call plan solution true
          else
            RunM.note (.skipped call)
            return .finished none : RunM Task) { s with scopes := x } = t := by
    intro t
    simp only [serve, bind_apply, h, hx, hcall, Bool.not_true]
    rfl
  by_cases hc : call ∈ s.calls
  · refine ⟨x, ?_⟩
    rw [if_pos hc, hserve]
    simp only [bind_apply, RunM.recordCall, if_pos hc]
    rfl
  · have hrec : RunM.recordCall call { s with scopes := x } =
        (true, { s with scopes := x, calls := call :: s.calls }) := if_neg hc
    obtain ⟨c', scopes, hs⟩ := c.startCall_apply call plan solution true
      { s with scopes := x, calls := call :: s.calls }
    refine ⟨scopes, ?_⟩
    rw [if_neg hc]
    refine ⟨c', ?_⟩
    rw [hserve]
    simp only [bind_apply, hrec, if_true, hs]

/-- A requested call is served as one to be made once. -/
theorem serve_of_request {call : CallKey}
    (h : purpose.request? setting name plan s = some call) :
    ∃ solution scopes, call = .ofSolution name plan.signature solution ∧
      if call ∈ s.calls then
        purpose.serve setting name plan s =
          (.finished none, { s with scopes, record := .skipped call :: s.record })
      else ∃ c, purpose.serve setting name plan s =
        (.ofPlan c plan (.ofLists plan.parameters [solution]),
          { s with scopes, calls := call :: s.calls
                   record := .started call plan true :: s.record }) := by
  cases purpose with
  | resolve => simp [request?] at h
  | call c arguments caller once =>
    cases once with
    | false => simp [request?] at h
    | true =>
      simp only [request?] at h
      cases hr : (c.parameters setting.functions name plan arguments caller s).1 with
      | error e => simp [hr] at h
      | ok solution =>
        simp only [hr, Option.some.injEq] at h
        obtain ⟨scopes, hserve⟩ := serve_once hr h
        exact ⟨solution, scopes, h.symm, hserve⟩

end Purpose

/-! ### Acting -/

namespace Task

variable {setting : Setting} {s : RunState} {t : Task}

/-- An act that requests no call leaves the recorded calls and the starts alone, and every name
keeps its plan. -/
theorem calls_of_no_request (h : t.request? setting s = none) :
    (t.act setting s).2.calls = s.calls ∧
      (∀ name plan, s.registry.get? name = some plan →
        (t.act setting s).2.registry.get? name = some plan) ∧
      ∀ call, (t.act setting s).2.starts call = s.starts call := by
  cases hf : t.found? setting s with
  | none =>
    have hc := (change_of_not_found hf).sameCalls
    exact ⟨hc.calls, fun name plan hp => by rw [hc.registry]; exact hp, hc.starts⟩
  | some found =>
    obtain ⟨name, purpose, plan, s₁⟩ := found
    obtain ⟨plan₀, events, -, hsilent, rfl⟩ := found_state hf
    rw [request?, hf, Option.bind_some] at h
    have hc := Purpose.sameCalls_serve h
    rw [act_of_found hf]
    refine ⟨hc.calls, fun n p hp => ?_, fun call => ?_⟩
    · rw [hc.registry]
      exact QueryRegistry.get?_register_of_get? _ _ _ hp
    · rw [hc.starts]
      exact s.starts_silent hsilent call

/-- What comes of a request.  The plan of the name is registered.  If the call is recorded, the task
is over without an error, and nothing happens but silent events; if it is not, the plan is started
for the call's parameters. -/
theorem act_of_request {call : CallKey} (h : t.request? setting s = some call) :
    ∃ plan₀ plan solution scopes events, plan = (s.registry.register call.name plan₀).1 ∧
      call = .ofSolution call.name plan.signature solution ∧
      (∀ e ∈ events, e.isSilent = true) ∧
      if call ∈ s.calls then
        t.act setting s = (.finished none,
          { s with scopes
                   registry := (s.registry.register call.name plan₀).2
                   record := events ++ s.record })
      else ∃ c, t.act setting s = (.ofPlan c plan (.ofLists plan.parameters [solution]),
        { s with scopes
                 registry := (s.registry.register call.name plan₀).2
                 calls := call :: s.calls
                 record := .started call plan true :: (events ++ s.record) }) := by
  rw [request?, Option.bind_eq_some_iff] at h
  obtain ⟨⟨name, purpose, plan, s₁⟩, hf, hr⟩ := h
  obtain ⟨plan₀, events, hplan, hsilent, rfl⟩ := found_state hf
  obtain ⟨solution, scopes, hcall, hserve⟩ := Purpose.serve_of_request hr
  have hname : call.name = name := by rw [hcall]; rfl
  subst hname
  by_cases hc : call ∈ s.calls
  · rw [if_pos hc] at hserve
    refine ⟨plan₀, plan, solution, scopes, .skipped call :: events, hplan, hcall, ?_, ?_⟩
    · exact List.forall_mem_cons.mpr ⟨rfl, hsilent⟩
    · rw [if_pos hc, act_of_found hf, hserve]
      rfl
  · rw [if_neg hc] at hserve
    refine ⟨plan₀, plan, solution, scopes, events, hplan, hcall, hsilent, ?_⟩
    rw [if_neg hc, act_of_found hf]
    exact hserve

end Task

end TripleLoom
