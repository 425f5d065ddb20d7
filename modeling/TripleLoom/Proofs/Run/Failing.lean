import TripleLoom.Proofs.Run.Once

/-!
# TripleLoom.Proofs.Run.Failing — calls that fail leave no trace

A call looks for the plan of its name in one or more acts, fits its arguments to the plan's signature,
and only then evaluates them, is recorded, and starts the plan.  So an act by which a call goes on
looking or fails changes nothing that other calls depend on: the recorded calls, the scopes and the
sinks stay as they are, and a plan is registered only if it was found.  `Run.failed_call_leaves_no_trace`
draws the conclusion for runs: a call that has failed stands for no other one.
-/

namespace TripleLoom

open RunM

/-! ### Errors of a call -/

namespace RunError

/-- Whether an error says that no plan was found for a name. -/
def isResolution : RunError → Bool
  | .queryNotFound _ | .noQueryParser _ | .parse _ | .plan _ => true
  | _ => false

/-- Whether an error says that arguments do not fit a signature. -/
def isMismatch : RunError → Bool
  | .argumentsWithoutSignature _ | .missingArguments _ | .arityMismatch .. => true
  | _ => false

end RunError

/-! ### Looking for a plan -/

/-- Whether an event belongs to the search for a plan. -/
def Event.isLookup : Event → Bool
  | .opened .. | .parsed .. => true
  | _ => false

theorem Event.isSilent_of_isLookup {e : Event} (h : e.isLookup = true) : e.isSilent = true := by
  cases e with
  | opened | parsed => rfl
  | _ => cases h

/-- The search for a plan: documents are opened and texts parsed, and a plan may be registered. -/
def RunState.Looked (s t : RunState) : Prop :=
  ∃ registry events, t = { s with registry, record := events ++ s.record } ∧
    ∀ e ∈ events, e.isLookup = true

namespace RunState.Looked

variable {s t : RunState}

theorem refl (s : RunState) : Looked s s := ⟨_, [], rfl, nofun⟩

theorem note (s : RunState) {e : Event} (h : e.isLookup = true) :
    Looked s { s with record := e :: s.record } :=
  ⟨_, [e], rfl, List.forall_mem_singleton.mpr h⟩

theorem register (h : Looked s t) (registry : QueryRegistry) : Looked s { t with registry } := by
  obtain ⟨_, events, rfl, hlookup⟩ := h
  exact ⟨registry, events, rfl, hlookup⟩

theorem calls (h : Looked s t) : t.calls = s.calls := by
  obtain ⟨_, _, rfl, -⟩ := h
  rfl

theorem scopes (h : Looked s t) : t.scopes = s.scopes := by
  obtain ⟨_, _, rfl, -⟩ := h
  rfl

theorem output (h : Looked s t) (sink : SinkId) : t.output sink = s.output sink := by
  obtain ⟨_, events, rfl, hlookup⟩ := h
  exact s.output_silent (fun e he => Event.isSilent_of_isLookup (hlookup e he)) sink

end RunState.Looked

/-- What a call that fails leaves as it is: the recorded calls, the scopes, and what is in the sinks. -/
structure RunState.Untouched (s t : RunState) : Prop where
  calls : t.calls = s.calls
  scopes : t.scopes = s.scopes
  output : ∀ sink, t.output sink = s.output sink

theorem RunState.Looked.untouched {s t : RunState} (h : s.Looked t) : s.Untouched t :=
  ⟨h.calls, h.scopes, h.output⟩

/-- A document is turned into a plan by looking at it alone. -/
theorem Document.toPlan_looked (setting : Setting) (d : Document) (name : Iri) (s : RunState) :
    s.Looked (d.toPlan setting name s).2 ∧
      (d.toPlan setting name s).2.registry = s.registry ∧
      ∀ e, (d.toPlan setting name s).1 = .error e → e.isResolution = true := by
  unfold toPlan
  cases setting.parser with
  | none => exact ⟨.refl s, rfl, fun e he => by cases he; rfl⟩
  | some parser =>
    dsimp only
    simp only [bind_apply]
    have hnoted := RunState.Looked.note s (e := .parsed d.content (some name.text)) rfl
    cases parser d.content (some name.text) with
    | error e => exact ⟨hnoted, rfl, fun e he => by cases he; rfl⟩
    | ok query =>
      dsimp only
      cases Plan.ofQuery? { query with name := query.name.or (some name) } with
      | error e => exact ⟨hnoted, rfl, fun e he => by cases he; rfl⟩
      | ok plan => exact ⟨hnoted, rfl, fun e he => by cases he⟩

/-! ### Fitting the arguments -/

/-- Arguments that do not fit are not evaluated. -/
theorem Context.parameters_of_error {c : Context} {functions : FunctionRegistry} {name : Iri}
    {plan : Plan} {arguments : Option (List Expression)} {caller : Solution} {s : RunState}
    {e : RunError} (h : (c.parameters functions name plan arguments caller s).1 = .error e) :
    e.isMismatch = true ∧ (c.parameters functions name plan arguments caller s).2 = s := by
  unfold parameters at h ⊢
  cases hsignature : plan.signature with
  | none =>
    rw [hsignature] at h
    cases arguments with
    | none => cases h
    | some _ => cases h; exact ⟨rfl, rfl⟩
  | some signature =>
    rw [hsignature] at h
    cases arguments with
    | none => cases h; exact ⟨rfl, rfl⟩
    | some arguments =>
      dsimp only at h ⊢
      by_cases hlength : signature.length ≠ arguments.length
      · rw [if_pos hlength] at h ⊢
        cases h
        exact ⟨rfl, rfl⟩
      · rw [if_neg hlength] at h
        cases h

namespace Purpose

variable (setting : Setting) (name : Iri) (plan : Plan) (s : RunState) (purpose : Purpose)

/-- A purpose is served by the end of a task or by the start of a plan; it fails only if arguments do
not fit, and then nothing happens. -/
theorem serve_cases :
    (purpose.serve setting name plan s).1 = .finished none ∨
    (∃ c input, (purpose.serve setting name plan s).1 = .ofPlan c plan input) ∨
    ∃ e, e.isMismatch = true ∧ purpose.serve setting name plan s = (.failed e, s) := by
  cases purpose with
  | resolve => exact .inl rfl
  | call c arguments caller once =>
    simp only [serve, bind_apply]
    cases hp : (c.parameters setting.functions name plan arguments caller s).1 with
    | error e =>
      obtain ⟨hmismatch, hstate⟩ := Context.parameters_of_error hp
      exact .inr (.inr ⟨e, hmismatch, by rw [hstate]; rfl⟩)
    | ok solution =>
      dsimp only
      split
      · exact .inr (.inl ⟨_, _, rfl⟩)
      · simp only [bind_apply]
        split
        · exact .inr (.inl ⟨_, _, rfl⟩)
        · exact .inl rfl

end Purpose

/-! ### Acts of a call -/

namespace Task

variable (setting : Setting) (s : RunState) {t : Task}

/-- The name whose plan a task looks for, and what for. -/
def wanted? : Task → Option (Iri × Purpose)
  | .entering name purpose | .asking name _ purpose => some (name, purpose)
  | _ => none

/-- How a task that looks for a plan goes on: it looks further, fails, or has found the plan. -/
theorem act_of_wanted {name : Iri} {purpose : Purpose} (h : t.wanted? = some (name, purpose)) :
    (∃ accept, (t.act setting s).1 = .asking name accept purpose ∧ s.Looked (t.act setting s).2 ∧
      (t.act setting s).2.registry = s.registry) ∨
    (∃ e, e.isResolution = true ∧ (t.act setting s).1 = .failed e ∧ s.Looked (t.act setting s).2 ∧
      (t.act setting s).2.registry = s.registry) ∨
    ∃ plan s₁, s.Looked s₁ ∧ t.act setting s = purpose.serve setting name plan s₁ := by
  cases t with
  | entering n p =>
    cases h
    show (∃ accept, (purpose.enter setting name s).1 = _ ∧ _) ∨ _
    simp only [act, Purpose.enter, bind_apply, get_apply]
    cases s.registry.get? name with
    | some plan => exact .inr (.inr ⟨plan, s, .refl s, rfl⟩)
    | none => exact .inl ⟨_, rfl, .note s rfl, rfl⟩
  | asking n accept p =>
    cases h
    simp only [act]
    unfold Purpose.receive
    cases setting.resolver name.text accept with
    | found document =>
      obtain ⟨hlooked, hregistry, herror⟩ := document.toPlan_looked setting name s
      dsimp only
      simp only [bind_apply]
      cases hp : (document.toPlan setting name s).1 with
      | error e => exact .inr (.inl ⟨e, herror e hp, rfl, hlooked, hregistry⟩)
      | ok plan => exact .inr (.inr ⟨_, _, hlooked.register _, rfl⟩)
    | missing =>
      cases accept with
      | some _ => exact .inl ⟨_, rfl, .note s rfl, rfl⟩
      | none => exact .inr (.inl ⟨_, rfl, rfl, .refl s, rfl⟩)
    | never => exact .inl ⟨_, rfl, .refl s, rfl⟩
  | _ => cases h

variable {setting s}

/-- A task that looks further looks for the same, and only looks. -/
theorem looks_on {name : Iri} {purpose : Purpose} (h : t.wanted? = some (name, purpose))
    (hfinding : (t.act setting s).1.isFinding = true) :
    (t.act setting s).1.wanted? = some (name, purpose) ∧ s.Untouched (t.act setting s).2 ∧
      (t.act setting s).2.registry = s.registry := by
  rcases act_of_wanted setting s h with
    ⟨accept, hresult, hlooked, hregistry⟩ | ⟨e, -, hresult, -⟩ | ⟨plan, s₁, -, hserve⟩
  · rw [hresult]
    exact ⟨rfl, hlooked.untouched, hregistry⟩
  · rw [hresult] at hfinding
    cases hfinding
  · -- serving is no looking
    rw [hserve] at hfinding
    rcases Purpose.serve_cases setting name plan s₁ purpose with
      hend | ⟨c, q, hstarted⟩ | ⟨e, -, hfailed⟩
    · rw [hend] at hfinding; cases hfinding
    · rw [hstarted] at hfinding; cases hfinding
    · rw [hfailed] at hfinding; cases hfinding

/-- A task that fails to find a plan, or to fit arguments to it, has only looked. -/
theorem fails_untouched {name : Iri} {purpose : Purpose} {e : RunError}
    (h : t.wanted? = some (name, purpose)) (hfailed : (t.act setting s).1 = .failed e) :
    s.Untouched (t.act setting s).2 ∧
      (e.isMismatch = true ∨
        e.isResolution = true ∧ (t.act setting s).2.registry = s.registry) := by
  rcases act_of_wanted setting s h with
    ⟨accept, hresult, -⟩ | ⟨e', herror, hresult, hlooked, hregistry⟩ | ⟨plan, s₁, hlooked, hserve⟩
  · rw [hresult] at hfailed
    cases hfailed
  · rw [hresult] at hfailed
    cases hfailed
    exact ⟨hlooked.untouched, .inr ⟨herror, hregistry⟩⟩
  · rw [hserve] at hfailed ⊢
    rcases Purpose.serve_cases setting name plan s₁ purpose with
      hend | ⟨c, q, hstarted⟩ | ⟨e', herror, hsame⟩
    · rw [hend] at hfailed; cases hfailed
    · rw [hstarted] at hfailed; cases hfailed
    · rw [hsame] at hfailed ⊢
      cases hfailed
      exact ⟨hlooked.untouched, .inl herror⟩

end Task

/-! ### Along a run -/

namespace Run

variable {setting : Setting} {state : RunState} {limit : Nat} {plan : Plan} {input : Sequence}
variable {moves : List RunMove} {r r' : Run} {move : Move} {t : Task} {name : Iri}
variable {purpose : Purpose}

/-- A move of a task that looks for a plan is its act. -/
theorem state_of_wanted (hs : r.step setting (.work move) = some r') (ht : r.task.at? move = some t)
    (hw : t.wanted? = some (name, purpose)) : r'.state = (t.act setting r.state).2 := by
  simp only [Run.step, Option.bind_eq_bind, Option.bind_eq_some_iff] at hs
  obtain ⟨⟨t', s'⟩, hstep, hr'⟩ := hs
  obtain rfl : { r with task := t', state := s' } = r' := Option.some.inj hr'
  obtain ⟨u, u', hu, hact⟩ := Task.actOn?_of_step hstep
  obtain rfl : t = u := Option.some.inj (ht.symm.trans hu)
  unfold Task.actOn? at hact
  split at hact
  · split at hact
    · rw [Option.some.inj hact]
    · cases hact
  · cases t with
    | entering | asking => simp [Task.isItemReady] at hact
    | _ => cases hw

/-- The recorded calls of a run grow by those that are requested. -/
theorem Tallies.mem_calls_replay {own requested : List CallKey} {base : CallKey → Nat}
    {call : CallKey} (h : Tallies own base requested r.state) (hs : r.replay setting moves = some r') :
    call ∈ r'.state.calls ↔ call ∈ r.state.calls ∨ call ∈ r.requests setting moves := by
  rw [(h.replay hs).calls, h.calls, List.mem_append, or_assoc]

/-- **A call that fails leaves no trace.**  Whenever in a run a task acts that looks for the plan of
a name, be it to call it or to have it registered: if it has to look further or fails, the recorded
calls, the scopes and all sinks stay as they are.  It fails because no plan was found, and then the
registry stays as it is too, or because the arguments do not fit the signature.  So a later valid
call starts its plan as if the failed one had not been made: every call that was not recorded before
does, when it is requested for the first time after. -/
theorem failed_call_leaves_no_trace
    (h : (start (state.renew limit) plan input).replay setting moves = some r)
    (hs : r.step setting (.work move) = some r') (ht : r.task.at? move = some t)
    (hw : t.wanted? = some (name, purpose)) :
    r'.state = (t.act setting r.state).2 ∧
    ((t.act setting r.state).1.isFinding = true →
      (t.act setting r.state).1.wanted? = some (name, purpose) ∧
        r.state.Untouched r'.state ∧ r'.state.registry = r.state.registry) ∧
    ∀ e, (t.act setting r.state).1 = .failed e →
      r.state.Untouched r'.state ∧
      (e.isMismatch = true ∨ e.isResolution = true ∧ r'.state.registry = r.state.registry) ∧
      ∀ moves' r₁ move' t' call r₂, r'.replay setting moves' = some r₁ →
        r₁.step setting (.work move') = some r₂ → r₁.task.at? move' = some t' →
        t'.request? setting r₁.state = some call →
        call ∉ r.state.calls → call ∉ r'.requests setting moves' →
        Starts call (t'.act setting r₁.state).1 r₂.state := by
  have hstate := state_of_wanted hs ht hw
  rw [hstate]
  refine ⟨rfl, Task.looks_on hw, fun e hfailed => ?_⟩
  obtain ⟨huntouched, herror⟩ := Task.fails_untouched hw hfailed
  refine ⟨huntouched, herror, fun moves' r₁ move' t' call r₂ hmoves hstep htask hrequest hnot
    hbetween => ?_⟩
  have htallies := ((tallies_start state limit plan input).replay h).step hs
  rw [state_of_request hstep htask hrequest]
  refine starts_of_not_mem hrequest fun hmem => ?_
  rcases (htallies.mem_calls_replay hmoves).mp hmem with hold | hnew
  · rw [hstate, huntouched.calls] at hold
    exact hnot hold
  · exact hbetween hnew

/-! ### A call with arguments that it should not have -/

/-- A plan that calls a query without a signature, first with arguments and then without. -/
def stubbornCaller : Plan :=
  ⟨none, none, none, [], [], none, [],
    .generate [.call ⟨.iri greeting, some []⟩, .call ⟨.iri greeting, none⟩]⟩

/-- The moves up to the first call, and those between it and the second. -/
def stubbornMoves : List RunMove × List RunMove :=
  ([.here, .here, .here, .inside 0 .here, .here].map .work,
    [.here, .here, .inside 0 .here, .here].map .work)

/-- Whether a task has failed. -/
def hasFailed : Task → Bool
  | .finished (some _) => true
  | _ => false

/-- The first call fails, and the second one starts the plan. -/
theorem greeting_starts_after_failure :
    ∃ r r' r₁ r₂ t t',
      (start (greetingState.renew 1) stubbornCaller .unit).replay bareSetting stubbornMoves.1 =
        some r ∧
      r.step bareSetting (.work (.inside 0 .here)) = some r' ∧
      r.task.at? (.inside 0 .here) = some t ∧ hasFailed (t.act bareSetting r.state).1 = true ∧
      r.state.Untouched r'.state ∧
      r'.replay bareSetting stubbornMoves.2 = some r₁ ∧
      r₁.step bareSetting (.work (.inside 0 .here)) = some r₂ ∧
      Starts ⟨greeting, []⟩ (Task.act bareSetting t' r₁.state).1 r₂.state := by
  have hrun : ((start (greetingState.renew 1) stubbornCaller .unit).replay bareSetting
      stubbornMoves.1).any (fun r =>
        (r.task.at? (.inside 0 .here)).any (fun t =>
          t.wanted?.isSome && hasFailed (t.act bareSetting r.state).1) &&
        (r.step bareSetting (.work (.inside 0 .here))).any fun r' =>
          decide (⟨greeting, []⟩ ∉ r.state.calls) &&
          decide (⟨greeting, []⟩ ∉ r'.requests bareSetting stubbornMoves.2) &&
          (r'.replay bareSetting stubbornMoves.2).any fun r₁ =>
            (r₁.step bareSetting (.work (.inside 0 .here))).isSome &&
            (r₁.task.at? (.inside 0 .here)).any fun t' =>
              t'.request? bareSetting r₁.state == some ⟨greeting, []⟩) = true := by
    decide +kernel
  simp only [Option.any_eq_true, Bool.and_eq_true, decide_eq_true_iff, beq_iff_eq,
    Option.isSome_iff_exists] at hrun
  obtain ⟨r, hr, ⟨t, ht, ⟨⟨name, purpose⟩, hw⟩, hfailed⟩, r', hs, ⟨hnot, hbetween⟩, r₁, hmoves,
    ⟨r₂, hstep⟩, t', ht', hrequest⟩ := hrun
  obtain ⟨-, -, hfails⟩ := failed_call_leaves_no_trace hr hs ht hw
  obtain ⟨e, he⟩ : ∃ e, (t.act bareSetting r.state).1 = .failed e := by
    cases hresult : (t.act bareSetting r.state).1 with
    | finished o =>
      cases o with
      | some e => exact ⟨e, rfl⟩
      | none => rw [hresult] at hfailed; cases hfailed
    | _ => rw [hresult] at hfailed; cases hfailed
  obtain ⟨huntouched, -, hlater⟩ := hfails e he
  exact ⟨r, r', r₁, r₂, t, t', hr, hs, ht, hfailed, huntouched, hmoves, hstep,
    hlater _ _ _ _ _ _ hmoves hstep ht' hrequest hnot hbetween⟩

end Run

end TripleLoom
