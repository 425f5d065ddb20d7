import TripleLoom.Proofs.Run.Calls

/-!
# TripleLoom.Proofs.Run.Once — calls that are made once along a run

Along a run the recorded calls are those of the run's own input and those that were requested; a
requested call that is none of the run's own has started its plan once, and no other call has.
`Run.Tallies` says this of a state, `Run.Tallies.step` that every move keeps it, and
`Run.starts_once` draws the conclusion for all runs and all their requests.
-/

namespace TripleLoom

open RunM

namespace RunState

variable {s : RunState}

theorem sameCalls_write (c : Context) (call : SinkCall) : SameCalls s (c.write call s).2 :=
  sameCalls_note s (by simp)

theorem sameCalls_forM {α : Type} {f : α → RunM Unit} (hf : ∀ a s, SameCalls s (f a s).2) :
    ∀ (l : List α) (s : RunState), SameCalls s (l.forM f s).2
  | [], _ => ⟨rfl, rfl, fun _ => rfl⟩
  | a :: l, s => (hf a s).trans (sameCalls_forM hf l _)

/-- What a request of a call that is recorded leaves as it is: the calls, the plans, what is in
the sinks, and the number of the engine's calls. -/
structure Quiet (s t : RunState) : Prop extends SameCalls s t where
  output : ∀ sink, t.output sink = s.output sink
  evaluations : t.evaluations = s.evaluations

end RunState

namespace Run

/-! ### Requests along a run -/

variable (setting : Setting)

/-- The call that a move of a run is about to request. -/
def request? (r : Run) : RunMove → Option CallKey
  | .close => none
  | .work move => (r.task.at? move).bind (·.request? setting r.state)

/-- The calls that some moves of a run request, in their order. -/
def requests (r : Run) : List RunMove → List CallKey
  | [] => []
  | move :: rest =>
    (r.request? setting move).toList ++
      ((r.step setting move).map fun r => requests r rest).getD []

/-- The calls that a run records for its own input. -/
def ownCalls (registry : QueryRegistry) (plan : Plan) (input : Sequence) : List CallKey :=
  match plan.name with
  | none => []
  | some name =>
    input.solutions.map (.ofSolution name (registry.register name plan).1.signature)

variable {setting} {r r' : Run}

/-! ### The tally of a state -/

/-- The tally of a state: the recorded calls are the run's own and the requested ones, all under
names that have a plan, and of these the requested that are not the run's own have started once
since the beginning. -/
structure Tallies (own : List CallKey) (base : CallKey → Nat) (requested : List CallKey)
    (s : RunState) : Prop where
  calls : ∀ call, call ∈ s.calls ↔ call ∈ own ∨ call ∈ requested
  named : ∀ call ∈ s.calls, ∃ plan, s.registry.get? call.name = some plan
  starts : ∀ call, s.starts call = base call + if call ∈ requested ∧ call ∉ own then 1 else 0

variable {own requested : List CallKey} {base : CallKey → Nat} {s s' : RunState}

/-- Records the call of one solution of a run's input. -/
def enrollOne (name : Iri) (signature : Option (List Variable)) (plan : Plan)
    (solution : Solution) : RunM Unit := do
  let call := CallKey.ofSolution name signature solution
  let _ ← RunM.recordCall call
  RunM.note (.started call plan false)

theorem enroll_apply {plan : Plan} {name : Iri} (hn : plan.name = some name) (input : Sequence)
    (s : RunState) :
    enroll plan input s =
      input.solutions.forM (enrollOne name (s.registry.register name plan).1.signature plan)
        { s with registry := (s.registry.register name plan).2 } := by
  rw [enroll, hn]
  rfl

theorem registry_enrollOne (name : Iri) (signature : Option (List Variable)) (plan : Plan)
    (solution : Solution) (s : RunState) :
    (enrollOne name signature plan solution s).2.registry = s.registry := by
  simp only [enrollOne, bind_apply, RunM.recordCall]
  split <;> rfl

/-- Recording the call of one solution makes it one of the run's own. -/
theorem Tallies.enrollOne {name : Iri} {signature : Option (List Variable)}
    {plan registered : Plan} (solution : Solution) (h : Tallies own base [] s)
    (hr : s.registry.get? name = some registered) :
    Tallies (own ++ [.ofSolution name signature solution]) base []
      (Run.enrollOne name signature plan solution s).2 := by
  have hstarts : ∀ t : RunState, (∀ call, t.starts call = base call) → ∀ call,
      RunState.starts { t with
        record := .started (.ofSolution name signature solution) plan false :: t.record } call =
      base call + if call ∈ [] ∧ call ∉ own ++ [.ofSolution name signature solution] then 1
        else 0 := by
    intro t ht call
    rw [(t.sameCalls_note (by simp)).starts, ht]
    simp
  have hbase : ∀ call, s.starts call = base call := fun call => by simp [h.starts call]
  by_cases hc : CallKey.ofSolution name signature solution ∈ s.calls
  · have hrec : RunM.recordCall (.ofSolution name signature solution) s = (false, s) := if_pos hc
    simp only [Run.enrollOne, bind_apply, hrec]
    refine ⟨fun call => ?_, h.named, hstarts s hbase⟩
    have hown := (h.calls _).mp hc
    show call ∈ s.calls ↔ _
    simp only [h.calls, List.not_mem_nil, or_false, List.mem_append, List.mem_singleton]
      at hown ⊢
    exact ⟨.inl, fun hcall => hcall.elim id fun he => he ▸ hown⟩
  · have hrec : RunM.recordCall (.ofSolution name signature solution) s =
        (true, { s with calls := .ofSolution name signature solution :: s.calls }) := if_neg hc
    simp only [Run.enrollOne, bind_apply, hrec]
    refine ⟨fun call => ?_, ?_, hstarts { s with calls := _ } hbase⟩
    · show call ∈ _ :: s.calls ↔ _
      simp only [List.mem_cons, h.calls, List.not_mem_nil, or_false, List.mem_append]
      exact or_comm
    · exact List.forall_mem_cons.mpr ⟨⟨registered, hr⟩, h.named⟩

theorem Tallies.enrollAll {name : Iri} {signature : Option (List Variable)}
    {plan registered : Plan} (solutions : List Solution) (h : Tallies own base [] s)
    (hr : s.registry.get? name = some registered) :
    Tallies (own ++ solutions.map (.ofSolution name signature)) base []
      (solutions.forM (Run.enrollOne name signature plan) s).2 := by
  induction solutions generalizing own s with
  | nil => simpa [pure_apply] using h
  | cons solution rest ih =>
    have hone : Tallies (own ++ [.ofSolution name signature solution]) base []
        (Run.enrollOne name signature plan solution s).2 := h.enrollOne solution hr
    have hall := ih hone (by rw [registry_enrollOne]; exact hr)
    rwa [List.append_assoc] at hall

theorem sameCalls_announce (c : Context) (plan : Plan) (s : RunState) :
    s.SameCalls (announce c plan s).2 := by
  have hstart := RunState.sameCalls_write (s := s) c .start
  have hprefixes := RunState.sameCalls_forM (f := fun (p : String × String) =>
    c.write (.prefixName p.1 p.2)) (fun _ _ => RunState.sameCalls_write c _) plan.prefixes
  have hboth := hstart.trans (hprefixes _)
  unfold announce
  cases plan.base with
  | none => exact hboth.trans ⟨rfl, rfl, fun _ => rfl⟩
  | some base => exact hboth.trans (RunState.sameCalls_write c _)

/-- A run starts with the calls of its own input. -/
theorem tallies_start (state : RunState) (limit : Nat) (plan : Plan) (input : Sequence) :
    Tallies (ownCalls state.registry plan input) state.starts []
      (start (state.renew limit) plan input).state := by
  obtain ⟨c, s, hs, hcalls⟩ : ∃ c s, start (state.renew limit) plan input =
      ⟨c, .ofPlan c plan input, (enroll plan input (announce c plan s).2).2⟩ ∧
      (state.renew limit).SameCalls s :=
    ⟨_, _, rfl, ⟨rfl, rfl, fun _ => rfl⟩⟩
  rw [hs]
  have hsame := hcalls.trans (sameCalls_announce c plan s)
  have hnone : Tallies [] state.starts [] (announce c plan s).2 := by
    have hempty : (announce c plan s).2.calls = [] := hsame.calls
    refine ⟨fun call => by simp [hempty], by simp [hempty], fun call => ?_⟩
    rw [hsame.starts]
    simp [RunState.starts, RunState.renew]
  unfold ownCalls
  cases hn : plan.name with
  | none =>
    have : enroll plan input (announce c plan s).2 = ((), (announce c plan s).2) := by
      rw [enroll, hn]
      rfl
    rwa [this]
  | some name =>
    rw [enroll_apply hn]
    have hreg : (announce c plan s).2.registry = state.registry := hsame.registry
    rw [hreg]
    have hset : Tallies [] state.starts [] { (announce c plan s).2 with
        registry := (state.registry.register name plan).2 } :=
      ⟨hnone.calls, fun call hcall => absurd ((hnone.calls call).mp hcall) (by simp),
        hnone.starts⟩
    exact hset.enrollAll input.solutions (state.registry.get?_register name plan)

/-! ### Moves -/

/-- The calls and what is known of them after a task acted. -/
theorem Tallies.act {t : Task} (h : Tallies own base requested s) :
    Tallies own base (requested ++ (t.request? setting s).toList) (t.act setting s).2 := by
  cases hr : t.request? setting s with
  | none =>
    obtain ⟨hcalls, hreg, hstarts⟩ := Task.calls_of_no_request hr
    rw [Option.toList_none, List.append_nil]
    refine ⟨fun call => by rw [hcalls, h.calls], fun call hcall => ?_, fun call => ?_⟩
    · obtain ⟨plan, hp⟩ := h.named call (hcalls ▸ hcall)
      exact ⟨plan, hreg _ _ hp⟩
    · rw [hstarts, h.starts]
  | some call =>
    obtain ⟨plan₀, plan, solution, scopes, events, hplan, -, hsilent, hact⟩ :=
      Task.act_of_request hr
    have hnamed : ∀ c ∈ s.calls,
        ∃ p, (s.registry.register call.name plan₀).2.get? c.name = some p := fun c hc => by
      obtain ⟨p, hp⟩ := h.named c hc
      exact ⟨p, QueryRegistry.get?_register_of_get? _ _ _ hp⟩
    rw [Option.toList_some]
    by_cases hc : call ∈ s.calls
    · rw [if_pos hc] at hact
      have hmem : ∀ c, c ∈ requested ++ [call] ∧ c ∉ own ↔ c ∈ requested ∧ c ∉ own := by
        intro c
        have := (h.calls call).mp hc
        simp only [List.mem_append, List.mem_singleton]
        grind
      rw [hact]
      refine ⟨fun c => ?_, hnamed, fun c => ?_⟩
      · show c ∈ s.calls ↔ _
        have := (h.calls call).mp hc
        simp only [h.calls, List.mem_append, List.mem_singleton]
        grind
      · simp only [hmem]
        exact (s.starts_silent hsilent c).trans (h.starts c)
    · rw [if_neg hc] at hact
      obtain ⟨c', hact⟩ := hact
      have hnew : call ∉ own ∧ call ∉ requested := by
        rw [h.calls] at hc
        exact not_or.mp hc
      rw [hact]
      refine ⟨fun c => ?_, ?_, fun c => ?_⟩
      · show c ∈ call :: s.calls ↔ _
        rw [List.mem_cons, h.calls, List.mem_append, List.mem_singleton, or_comm, or_assoc]
      · refine List.forall_mem_cons.mpr ⟨⟨plan, ?_⟩, hnamed⟩
        rw [hplan]
        exact s.registry.get?_register _ _
      · have hold := (s.starts_silent hsilent c).trans (h.starts c)
        simp only [RunState.starts, List.countP_cons] at hold ⊢
        rw [hold]
        by_cases he : c = call
        · simp [he, hnew]
        · simp [he, Ne.symm he]

theorem Tallies.of_sameCalls (h : Tallies own base requested s) (hs : s.SameCalls s') :
    Tallies own base requested s' :=
  ⟨fun call => by rw [hs.calls, h.calls], fun call hcall => by
    rw [hs.registry]
    exact h.named call (hs.calls ▸ hcall), fun call => by rw [hs.starts, h.starts]⟩

/-- A fetch or stream that can go on requests no call. -/
theorem request?_of_isItemReady {t : Task} {index : Nat}
    (h : t.isItemReady setting s index = true) : t.request? setting s = none := by
  cases t with
  | fetching | iterating => rfl
  | _ => simp [Task.isItemReady] at h

/-- Every move of a run keeps the tally, with the call it requests. -/
theorem Tallies.step {move : RunMove} (h : Tallies own base requested r.state)
    (hs : r.step setting move = some r') :
    Tallies own base (requested ++ (r.request? setting move).toList) r'.state := by
  cases move with
  | close =>
    obtain rfl : r.close = r' := by simpa [Run.step] using hs
    rw [request?, Option.toList_none, List.append_nil]
    exact h.of_sameCalls ⟨rfl, rfl, fun _ => rfl⟩
  | work move =>
    simp only [Run.step, Option.bind_eq_bind, Option.bind_eq_some_iff] at hs
    obtain ⟨⟨t', s'⟩, hstep, hr'⟩ := hs
    obtain rfl : { r with task := t', state := s' } = r' := by simpa using hr'
    obtain ⟨u, u', hu, hact⟩ := Task.actOn?_of_step hstep
    rw [request?, hu, Option.bind_some]
    unfold Task.actOn? at hact
    split at hact
    · split at hact
      · rw [Option.some.injEq] at hact
        have hu' : Tallies own base (requested ++ (u.request? setting r.state).toList)
            (u.act setting r.state).2 := h.act
        rwa [hact] at hu'
      · cases hact
    · next index _ =>
      split at hact
      · next hready =>
        rw [Option.some.injEq] at hact
        rw [request?_of_isItemReady hready, Option.toList_none, List.append_nil]
        have hplain := Task.isPlain_actItem setting index u r.state
        rw [hact] at hplain
        exact h.of_sameCalls hplain.sameCalls
      · cases hact

theorem Tallies.replay {moves : List RunMove} (h : Tallies own base requested r.state)
    (hs : r.replay setting moves = some r') :
    Tallies own base (requested ++ r.requests setting moves) r'.state := by
  induction moves generalizing r requested with
  | nil =>
    obtain rfl : r = r' := by simpa [Run.replay] using hs
    simpa [requests] using h
  | cons move moves ih =>
    simp only [Run.replay, Option.bind_eq_bind, Option.bind_eq_some_iff] at hs
    obtain ⟨r₁, hstep, hrest⟩ := hs
    have hall := ih (h.step hstep) hrest
    rw [requests, hstep]
    rwa [List.append_assoc] at hall

/-! ### What comes of a request -/

/-- A task that starts the plan of a call: the plan that the call's name has, for the parameters
that the call was made of. -/
def Starts (call : CallKey) (t : Task) (s : RunState) : Prop :=
  ∃ plan c solution earlier, s.registry.get? call.name = some plan ∧
    call = .ofSolution call.name plan.signature solution ∧
    t = .ofPlan c plan (.ofLists plan.parameters [solution]) ∧
    s.record = .started call plan true :: earlier

/-- A call that is recorded is left out: the task is over without an error, and nothing happens. -/
theorem Tallies.act_of_mem {t : Task} {call : CallKey} (h : Tallies own base requested s)
    (hr : t.request? setting s = some call) (hc : call ∈ s.calls) :
    (t.act setting s).1 = .finished none ∧ s.Quiet (t.act setting s).2 := by
  obtain ⟨plan₀, plan, solution, scopes, events, -, -, hsilent, hact⟩ := Task.act_of_request hr
  obtain ⟨p, hp⟩ := h.named call hc
  rw [if_pos hc, QueryRegistry.register_of_get? _ _ _ hp] at hact
  rw [hact]
  exact ⟨rfl, ⟨⟨rfl, rfl, s.starts_silent hsilent⟩, s.output_silent hsilent,
    s.evaluations_silent hsilent⟩⟩

/-- A call that is not recorded starts the plan of its name. -/
theorem starts_of_not_mem {t : Task} {call : CallKey}
    (hr : t.request? setting s = some call) (hc : call ∉ s.calls) :
    Starts call (t.act setting s).1 (t.act setting s).2 := by
  obtain ⟨plan₀, plan, solution, scopes, events, hplan, hcall, -, hact⟩ := Task.act_of_request hr
  rw [if_neg hc] at hact
  obtain ⟨c, hact⟩ := hact
  rw [hact]
  refine ⟨plan, c, solution, _, ?_, hcall, rfl, rfl⟩
  rw [hplan]
  exact s.registry.get?_register _ _

/-- A move that requests a call is the act of the task that requests it. -/
theorem state_of_request {move : Move} {t : Task} {call : CallKey}
    (hs : r.step setting (.work move) = some r') (ht : r.task.at? move = some t)
    (hr : t.request? setting r.state = some call) : r'.state = (t.act setting r.state).2 := by
  simp only [Run.step, Option.bind_eq_bind, Option.bind_eq_some_iff] at hs
  obtain ⟨⟨t', s'⟩, hstep, hr'⟩ := hs
  obtain rfl : { r with task := t', state := s' } = r' := by simpa using hr'
  obtain ⟨u, u', hu, hact⟩ := Task.actOn?_of_step hstep
  obtain rfl : t = u := Option.some.inj (ht.symm.trans hu)
  unfold Task.actOn? at hact
  split at hact
  · split at hact
    · rw [Option.some.injEq] at hact
      rw [hact]
    · cases hact
  · split at hact
    · next hready => rw [request?_of_isItemReady hready] at hr; cases hr
    · cases hact

/-- The name of a registered query. -/
def greeting : Iri := ⟨"urn:greeting"⟩

/-- A state in which a query without output is registered. -/
def greetingState : RunState :=
  { RunState.start 1 with
    registry := (QueryRegistry.empty.register greeting
      ⟨none, none, none, [], [], none, [], .generate []⟩).2 }

/-- A plan that calls the query for every solution. -/
def greetingCaller : Plan :=
  ⟨none, none, none, [], [], none, [], .generate [.call ⟨.iri greeting, none⟩]⟩

/-- The run of that plan for two solutions. -/
def greetingRun : Run :=
  start (greetingState.renew 1) greetingCaller (.ofLists [] [.empty, .empty])

/-- A setting that offers nothing. -/
def bareSetting : Setting := ⟨⟨fun _ _ => .never, .empty, none, none⟩, ⟨1, none, none⟩⟩

/-- The moves of that run: up to the calls, the calls, the called query, and the end. -/
def greetingMoves : List RunMove :=
  [.here, .here, .here, .inside 0 .here, .here, .inside 0 .here, .inside 1 .here,
    .inside 0 .here, .inside 0 .here, .inside 0 .here, .here, .here].map .work

end Run

end TripleLoom
