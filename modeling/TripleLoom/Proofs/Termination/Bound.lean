import TripleLoom.Proofs.Run.Skipping
import TripleLoom.Proofs.Termination.Effort

/-!
# TripleLoom.Proofs.Termination.Bound — recorded calls bound recursion

Plans that call each other in a circle come to an end because every call is made once and there are
finitely many of them.  Each move of a run of such plans spends effort (`Task.proceeds_step`), and a
run that is not over can always make one (`Task.exists_move`).  With the effort of the plans still to
be started added for every call that is not recorded, the effort of a run only goes down
(`Run.Spent`), which bounds its moves and the plans it starts (`Run.calls_bounded`).
-/

namespace TripleLoom

open RunM

variable {T : Finset Term} {r : QueryRegistry} {setting : Setting} {s : RunState}

/-! ### Forms -/

theorem length_eraseDups_le {α : Type} [BEq α] [LawfulBEq α] :
    ∀ l : List α, l.eraseDups.length ≤ l.length
  | [] => Nat.le_refl 0
  | a :: l => by
    have hle : (l.filter fun b => !b == a).length ≤ l.length := List.length_filter_le _ _
    have ih := length_eraseDups_le (l.filter fun b => !b == a)
    rw [List.eraseDups_cons, List.length_cons, List.length_cons]
    omega
termination_by l => l.length

namespace Generation

variable {g : Generation}

theorem efforts_nestedRuns (g : Generation) (plan : Plan) :
    Task.efforts (g.nestedRuns plan) ≤ g.input.size * plan.effort 1 := by
  have heach : ∀ t ∈ g.nestedRuns plan, t.effort ≤ plan.effort 1 := by
    intro t ht
    obtain ⟨⟨c, u⟩, -, rfl⟩ := List.mem_map.mp ht
    exact Nat.le_refl _
  have hlength : (g.nestedRuns plan).length ≤ g.input.size := by
    rw [nestedRuns, List.length_map, sites, List.length_zip]
    exact Nat.min_le_right _ _
  exact (Task.efforts_le heach).trans (Nat.mul_le_mul_right _ hlength)

theorem callWithin_nestedRuns {plan : Plan} (hplan : plan.CallsWithin T)
    (hinput : g.input.BindsWithin T) : Task.CallWithin r T (g.nestedRuns plan) := by
  refine Task.callWithin_iff.mpr fun t ht => ?_
  obtain ⟨⟨c, u⟩, hu, rfl⟩ := List.mem_map.mp ht
  refine Task.callsWithin_ofPlan c hplan fun v hv => ?_
  obtain rfl := List.mem_singleton.mp hv
  exact hinput v (List.of_mem_zip hu).2

theorem length_calls_le (g : Generation) (call : CallPlan) : (g.calls call).length ≤ g.input.size :=
  List.length_filterMap_le _ _

theorem bindsWithin_calls (hinput : g.input.BindsWithin T) (call : CallPlan) :
    ∀ c ∈ g.calls call, c.2.BindsWithin T := by
  intro c hc
  obtain ⟨u, hu, hname⟩ := List.mem_filterMap.mp hc
  obtain ⟨name, -, rfl⟩ := Option.map_eq_some_iff.mp hname
  exact hinput u hu

/-- Looking names up takes three steps each. -/
theorem efforts_entering {α : Type} (names : List α) (name : α → Iri) (purpose : α → Purpose) :
    Task.efforts (names.map fun a => .entering (name a) (purpose a)) ≤ names.length * 3 := by
  have heach : ∀ t ∈ names.map fun a => Task.entering (name a) (purpose a), t.effort ≤ 3 := by
    intro t ht
    obtain ⟨a, -, rfl⟩ := List.mem_map.mp ht
    exact Nat.le_refl _
  simpa using Task.efforts_le heach

/-- The next element of a form takes the place of its effort. -/
theorem proceeds_advance {nodes : List PlanNode} (hnodes : PlanNode.CallWithin T nodes)
    (hinput : g.input.BindsWithin T) (error : Outcome) :
    Proceeds r T s (PlanNode.efforts g.input.size nodes + 1) (g.advance error nodes s) := by
  cases nodes with
  | nil => exact .of_change (.refl s) trivial Nat.one_pos
  | cons node rest =>
    obtain ⟨hnode, hrest⟩ := hnodes
    cases node with
    | triples plan =>
      refine .of_change (plan.isPlain_writeAll g.fork 0 g.sites s)
        ⟨hrest, hinput, trivial, trivial⟩ ?_
      simp only [Task.effort, Task.efforts, Stage.effort, PlanNode.efforts, PlanNode.effort]
      omega
    | plan plan =>
      refine .of_change (.refl s) ⟨hrest, hinput, trivial, callWithin_nestedRuns hnode hinput⟩ ?_
      have hruns := g.efforts_nestedRuns plan
      simp only [Task.effort, Stage.effort, PlanNode.efforts, PlanNode.effort]
      omega
    | call call =>
      refine .of_change (.refl s)
        ⟨hrest, hinput, ⟨hnode, bindsWithin_calls hinput call⟩, ?_⟩ ?_
      · refine Task.callWithin_iff.mpr fun t ht => ?_
        obtain ⟨name, -, rfl⟩ := List.mem_map.mp ht
        trivial
      · have hcalls := g.length_calls_le call
        have hnames := length_eraseDups_le ((g.calls call).map (·.1))
        have hentering := efforts_entering ((g.calls call).map (·.1)).eraseDups id
          fun _ => .resolve
        rw [List.length_map] at hnames
        simp only [Task.effort, Stage.effort, PlanNode.efforts, PlanNode.effort, id] at hentering ⊢
        omega
    | clause | select | template => exact hnode.elim

theorem proceeds_collect {nodes : List PlanNode} {stage : Stage} (running : List Task)
    (hnodes : PlanNode.CallWithin T nodes) (hinput : g.input.BindsWithin T)
    (hstage : stage.CallsWithin T) (error : Outcome) :
    Proceeds r T s (PlanNode.efforts g.input.size nodes + stage.effort + 1)
      (g.collect nodes running error stage s) := by
  cases stage with
  | idle => exact proceeds_advance hnodes hinput error
  | nested | calling =>
    refine .of_change (.refl s) ⟨hnodes, hinput, trivial, trivial⟩ ?_
    simp only [Task.effort, Task.efforts, Stage.effort]
    omega
  | resolving call calls =>
    obtain ⟨harguments, hcalls⟩ := hstage
    refine .of_change (.refl s) ⟨hnodes, hinput, trivial, ?_⟩ ?_
    · refine Task.callWithin_iff.mpr fun t ht => ?_
      obtain ⟨c, hc, rfl⟩ := List.mem_map.mp ht
      exact ⟨rfl, harguments, hcalls c hc⟩
    · have hentering := efforts_entering calls (·.1) fun c => .call g.fork call.arguments c.2 true
      simp only [Task.effort, Stage.effort]
      omega

end Generation

/-! ### Moves -/

namespace Task

variable {t : Task}

theorem proceeds_act (hr : r.IsComplete setting T) (hs : s.registry = r)
    (h : t.CallsWithin r T) (hready : t.isReady setting s = true) :
    Proceeds r T s t.effort (t.act setting s) := by
  cases t with
  | finished => cases hready
  | clauses f nodes input =>
    obtain ⟨rfl, hplan, hinput⟩ := h
    rw [act, Frame.runClauses, hplan.parts.2.1, effort, Plan.effort_eq]
    exact .of_change (.refl s) ⟨hplan, hinput⟩ (by simp [effort])
  | assembling f input =>
    obtain ⟨hplan, hinput⟩ := h
    obtain ⟨-, -, hpost, houtput⟩ := hplan.parts
    rw [act, hpost, Frame.assemble, Frame.output, effort]
    cases hform : f.plan.output with
    | generate nodes =>
      rw [hform] at houtput
      refine .of_change (f.isPlain_generate nodes input s) ⟨houtput, hinput, trivial, trivial⟩ ?_
      show PlanNode.efforts input.size nodes + 0 + 0 + 1 < PlanNode.efforts input.size nodes + 2
      omega
    | template | rows => rw [hform] at houtput; exact houtput.elim
  | generating g nodes stage running error =>
    obtain ⟨hnodes, hinput, hstage, -⟩ := h
    refine (Generation.proceeds_collect running hnodes hinput hstage error).mono ?_
    rw [effort]
    omega
  | entering name purpose => exact Purpose.proceeds_enter hr hs h
  | asking name accept purpose => exact Purpose.proceeds_receive hr h.1 accept h.2
  | _ => exact h.elim

theorem callWithin_set {inner' : Task} (hinner : inner'.CallsWithin r T) {tasks : List Task}
    (h : CallWithin r T tasks) (index : Nat) : CallWithin r T (tasks.set index inner') := by
  rw [callWithin_iff] at h ⊢
  intro t ht
  rcases List.mem_or_eq_of_mem_set ht with ht | rfl
  · exact h t ht
  · exact hinner

/-- Every move of a task spends effort, and leaves the rest of the tree as it is. -/
theorem proceeds_step (hr : r.IsComplete setting T) : ∀ {move : Move} {t : Task} {s : RunState}
    {result : Task × RunState}, s.registry = r → t.CallsWithin r T →
      t.step setting move s = some result → Proceeds r T s t.effort result
  | .here, t, s, result, hs, h, hstep => by
    rw [step] at hstep
    split at hstep
    · next hready =>
      obtain rfl := Option.some.inj hstep
      exact proceeds_act hr hs h hready
    · cases hstep
  | .item index, t, s, result, hs, h, hstep => by
    cases t with
    | fetching | iterating => exact h.elim
    | _ => cases hstep
  | .inside index move, t, s, result, hs, h, hstep => by
    simp only [step, Option.bind_eq_bind, Option.bind_eq_some_iff] at hstep
    obtain ⟨inner, hi, ⟨inner', s'⟩, hinner, heq⟩ := hstep
    obtain rfl := Option.some.inj heq
    cases t with
    | generating g nodes stage running error =>
      obtain ⟨hnodes, hinput, hstage, hrunning⟩ := h
      have hproceeds := proceeds_step hr hs
        (callWithin_iff.mp hrunning inner (List.mem_of_getElem? hi)) hinner
      have hset := efforts_set inner' running hi
      refine ⟨⟨hnodes, hinput, hstage, callWithin_set hproceeds.within hrunning index⟩,
        hproceeds.registry, ?_⟩
      refine hproceeds.spends.frame ?_
      simp only [replaceInside, effort]
      omega
    | iterating | nesting => exact h.elim
    | _ => cases hi

/-! ### Progress -/

mutual

/-- A task that is not over can go on, or one below it can. -/
theorem exists_move (hr : r.IsComplete setting T) (s : RunState) : ∀ {t : Task},
    t.CallsWithin r T → t.isFinished = false → ∃ move, (t.step setting move s).isSome = true
  | .finished _, _, hover => nomatch hover
  | .clauses .., _, _ | .assembling .., _, _ | .entering .., _, _ => ⟨.here, rfl⟩
  | .asking name accept purpose, h, _ => by
    have hready : (asking name accept purpose).isReady setting s = true := by
      simp [isReady, hr.missing name accept h.1]
    exact ⟨.here, by rw [step, if_pos hready]; rfl⟩
  | .generating g nodes stage running error, h, _ => by
    cases hover : running.all isFinished with
    | true =>
      have hready : (generating g nodes stage running error).isReady setting s = true := hover
      exact ⟨.here, by rw [step, if_pos hready]; rfl⟩
    | false =>
      obtain ⟨index, inner, move, hi, hmove⟩ := exists_inner_move hr s h.2.2.2 hover
      obtain ⟨⟨inner', s'⟩, hstep⟩ := Option.isSome_iff_exists.mp hmove
      have hinside : (generating g nodes stage running error).inside? index = some inner := hi
      refine ⟨.inside index move, ?_⟩
      rw [step, hinside, Option.bind_eq_bind, Option.bind_some, hstep]
      rfl
  | .fetching .., h, _ | .iterating .., h, _ | .selecting .., h, _ | .evaluating .., h, _
  | .writing _, h, _ | .nesting .., h, _ => h.elim

theorem exists_inner_move (hr : r.IsComplete setting T) (s : RunState) : ∀ {tasks : List Task},
    Task.CallWithin r T tasks → tasks.all isFinished = false →
      ∃ (index : Nat) (inner : Task) (move : Move), tasks[index]? = some inner ∧
        (inner.step setting move s).isSome = true
  | [], _, hover => nomatch hover
  | t :: rest, h, hover => by
    cases ht : t.isFinished with
    | false =>
      obtain ⟨move, hmove⟩ := exists_move hr s h.1 ht
      exact ⟨0, t, move, rfl, hmove⟩
    | true =>
      rw [List.all_cons, ht, Bool.true_and] at hover
      obtain ⟨index, inner, move, hi, hmove⟩ := exists_inner_move hr s h.2 hover
      exact ⟨index + 1, inner, move, hi, hmove⟩

end

end Task

/-! ### Runs -/

/-- Whether a move of a run is a part of its work. -/
def RunMove.isWork : RunMove → Bool
  | .work _ => true
  | .close => false

/-- The number of calls among some calls that are not recorded. -/
def RunState.unrecorded (keys : Finset CallKey) (s : RunState) : Nat :=
  (keys.filter (· ∉ s.calls)).card

theorem RunState.unrecorded_congr {keys : Finset CallKey} {s s' : RunState}
    (h : s'.calls = s.calls) : s'.unrecorded keys = s.unrecorded keys := by
  rw [unrecorded, h]
  rfl

theorem RunState.unrecorded_cons {keys : Finset CallKey} {s s' : RunState} {call : CallKey}
    (hknown : call ∈ keys) (hfresh : call ∉ s.calls) (hcalls : s'.calls = call :: s.calls) :
    s'.unrecorded keys + 1 = s.unrecorded keys := by
  have herase : keys.filter (· ∉ s'.calls) = (keys.filter (· ∉ s.calls)).erase call := by
    ext c
    simp only [hcalls, Finset.mem_filter, Finset.mem_erase, List.mem_cons, not_or]
    tauto
  have hmem : call ∈ keys.filter (· ∉ s.calls) := Finset.mem_filter.mpr ⟨hknown, hfresh⟩
  rw [unrecorded, herase]
  exact Finset.card_erase_add_one hmem

namespace Run

/-- How much a run has still to do, with the plans that may be started for calls not recorded. -/
def effort (r : QueryRegistry) (T : Finset Term) (run : Run) : Nat :=
  run.task.effort + (r.effort + 1) * run.state.unrecorded (r.keys T)

/-- Whether a run is about plans that only write and call, within a set. -/
structure CallsWithin (r : QueryRegistry) (T : Finset Term) (run : Run) : Prop where
  task : run.task.CallsWithin r T
  registry : run.state.registry = r

/-- What a run has spent on some moves of its work. -/
structure Spent (r : QueryRegistry) (T : Finset Term) (first : Run) (moves : Nat) (last : Run) :
    Prop where
  within : last.CallsWithin r T
  effort : moves + last.effort r T ≤ first.effort r T
  starts : last.state.startCount + last.state.unrecorded (r.keys T) ≤
    first.state.startCount + first.state.unrecorded (r.keys T)

variable {first last : Run}

theorem Spent.trans {between : Run} {before after : Nat} (h : Spent r T first before between)
    (h' : Spent r T between after last) : Spent r T first (before + after) last := by
  have heffort := h.effort
  have heffort' := h'.effort
  exact ⟨h'.within, by omega, h'.starts.trans h.starts⟩

theorem spent_step (hr : r.IsComplete setting T) {move : RunMove} (h : first.CallsWithin r T)
    (hstep : first.step setting move = some last) :
    Spent r T first ([move].countP RunMove.isWork) last := by
  cases move with
  | close =>
    obtain rfl := Option.some.inj hstep
    exact ⟨⟨h.task, h.registry⟩, (Nat.zero_add _).le, Nat.le_refl _⟩
  | work move =>
    simp only [step, Option.bind_eq_bind, Option.bind_eq_some_iff] at hstep
    obtain ⟨⟨t, s⟩, hstep, hlast⟩ := hstep
    obtain rfl := Option.some.inj hlast
    obtain ⟨hwithin, hregistry, hspends⟩ := Task.proceeds_step hr h.registry h.task hstep
    have hwithin' : CallsWithin r T { first with task := t, state := s } :=
      ⟨hwithin, hregistry.trans h.registry⟩
    cases hspends with
    | work calls starts less =>
      have hless : t.effort < first.task.effort := less
      have hunrecorded : s.unrecorded (r.keys T) = first.state.unrecorded (r.keys T) :=
        RunState.unrecorded_congr calls
      refine ⟨hwithin', ?_, (congrArg₂ (· + ·) starts hunrecorded).le⟩
      show 1 + (t.effort + (r.effort + 1) * s.unrecorded (r.keys T)) ≤ first.effort r T
      rw [effort, hunrecorded]
      omega
    | start call known fresh calls starts bound =>
      have hbound : t.effort ≤ first.task.effort + r.effort := bound
      have hstarts : s.startCount = first.state.startCount + 1 := starts
      have hunrecorded : s.unrecorded (r.keys T) + 1 = first.state.unrecorded (r.keys T) :=
        RunState.unrecorded_cons known fresh calls
      refine ⟨hwithin', ?_, ?_⟩
      · -- the call that is recorded pays for the plan
        show 1 + (t.effort + (r.effort + 1) * s.unrecorded (r.keys T)) ≤ first.effort r T
        rw [effort, ← hunrecorded, Nat.mul_succ]
        omega
      · show s.startCount + s.unrecorded (r.keys T) ≤ _
        omega

theorem spent_replay (hr : r.IsComplete setting T) : ∀ {moves : List RunMove} {first : Run},
    first.CallsWithin r T → first.replay setting moves = some last →
      Spent r T first (moves.countP RunMove.isWork) last
  | [], first, h, hreplay => by
    obtain rfl := Option.some.inj hreplay
    exact ⟨h, (Nat.zero_add _).le, Nat.le_refl _⟩
  | move :: rest, first, h, hreplay => by
    simp only [replay, Option.bind_eq_bind, Option.bind_eq_some_iff] at hreplay
    obtain ⟨between, hstep, hrest⟩ := hreplay
    have hone := spent_step hr h hstep
    have hall := hone.trans (spent_replay hr hone.within hrest)
    rwa [← List.countP_append] at hall

/-! ### The start -/

/-- A run starts with the plans of the state and its own. -/
theorem get?_start {state : RunState} {limit : Nat} {plan : Plan} {input : Sequence} {name : Iri}
    {p : Plan} (h : (start (state.renew limit) plan input).state.registry.get? name = some p) :
    state.registry.get? name = some p ∨ p = plan := by
  cases hn : plan.name with
  | none =>
    rw [registry_start_unnamed state limit hn] at h
    exact .inl h
  | some own =>
    rw [registry_start state limit hn] at h
    exact QueryRegistry.of_get?_register _ _ _ h

/-- **Recorded calls bound recursion.**  Plans of the `GENERATE` form without clauses, select part
and bindings behind it, which pass constants and variables to the calls they make of each other, may
be recursive in any way: a run of them for any input comes to an end in a bounded number of moves,
whatever their order, and never gets stuck before.  It starts at most as many calls as there are
calls of the registered names with parameters among the terms of the plans' arguments and the
input, or unbound. -/
theorem calls_bounded {state : RunState} {limit : Nat} {plan : Plan} {input : Sequence}
    (hplan : plan.CallsWithin T) (hinput : input.BindsWithin T)
    (hregistry : ∀ name p, state.registry.get? name = some p → p.CallsWithin T)
    (hmissing : ∀ name accept,
      (start (state.renew limit) plan input).state.registry.get? name = none →
        setting.resolver name.text accept = .missing) :
    ∃ bound, ∀ moves last,
      (start (state.renew limit) plan input).replay setting moves = some last →
        moves.countP RunMove.isWork ≤ bound ∧
        (last.isOver = false → ∃ move, (last.step setting (.work move)).isSome = true) ∧
        last.state.startCount ≤ (start (state.renew limit) plan input).state.startCount +
          ∑ name ∈ (start (state.renew limit) plan input).state.registry.names.toFinset,
            (T.card + 1) ^ (start (state.renew limit) plan input).state.registry.arity name := by
  obtain ⟨first, hfirst⟩ : ∃ first, start (state.renew limit) plan input = first := ⟨_, rfl⟩
  rw [hfirst] at hmissing ⊢
  have hcomplete : first.state.registry.IsComplete setting T := by
    refine ⟨fun name p hp => ?_, hmissing⟩
    rw [← hfirst] at hp
    rcases get?_start hp with hp | rfl
    · exact hregistry name p hp
    · exact hplan
  have hwithin : first.CallsWithin first.state.registry T := by
    refine ⟨?_, rfl⟩
    rw [← hfirst]
    exact Task.callsWithin_ofPlan _ hplan hinput
  refine ⟨first.effort first.state.registry T, fun moves last hreplay => ?_⟩
  obtain ⟨hlast, heffort, hstarts⟩ := spent_replay hcomplete hwithin hreplay
  refine ⟨(Nat.le_add_right _ _).trans heffort, fun hover => ?_, ?_⟩
  · obtain ⟨move, hmove⟩ := Task.exists_move hcomplete last.state hlast.task hover
    obtain ⟨⟨t, s⟩, hstep⟩ := Option.isSome_iff_exists.mp hmove
    exact ⟨move, by rw [step, Option.bind_eq_bind, hstep]; rfl⟩
  · have hkeys := first.state.registry.card_keys_le T
    have hunrecorded : first.state.unrecorded (first.state.registry.keys T) ≤
        (first.state.registry.keys T).card := Finset.card_filter_le _ _
    omega

/-! ### Two queries that call each other -/

/-- The name of the one query. -/
def ping : Iri := ⟨"urn:ping"⟩

/-- The name of the other. -/
def pong : Iri := ⟨"urn:pong"⟩

/-- The query that calls the other with its parameter and with a constant. -/
def pingPlan : Plan :=
  ⟨some ping, some [⟨"x"⟩], none, [], [], none, [], .generate [
    .call ⟨.iri pong, some [.var ⟨"x"⟩]⟩, .call ⟨.iri pong, some [.iri ping]⟩]⟩

/-- The query that calls back from a nested one, by the name that its parameter is. -/
def pongPlan : Plan :=
  ⟨some pong, some [⟨"y"⟩], none, [], [], none, [], .generate [
    .plan ⟨none, none, none, [], [], none, [], .generate [
      .call ⟨.var ⟨"y"⟩, some [.var ⟨"y"⟩]⟩]⟩]⟩

/-- A state in which both are registered. -/
def rallyState : RunState :=
  { RunState.start 1 with
    registry := ((QueryRegistry.empty.register ping pingPlan).2.register pong pongPlan).2 }

/-- The name of the other, as the parameter of the one. -/
def rallyInput : Sequence := .ofLists [⟨"x"⟩] [.ofBindings [(⟨"x"⟩, .iri pong)]]

/-- The run of the one for that. -/
def rally : Run := start (rallyState.renew 1) pingPlan rallyInput

/-- The terms of the input and of the arguments. -/
def rallyTerms : Finset Term := {.iri ping, .iri pong}

/-- A setting that finds nothing. -/
def lostSetting : Setting := ⟨⟨fun _ _ => .missing, .empty, none, none⟩, ⟨1, none, none⟩⟩

theorem rally_bounded :
    ∃ bound, ∀ moves last, rally.replay lostSetting moves = some last →
      moves.countP RunMove.isWork ≤ bound ∧
      (last.isOver = false → ∃ move, (last.step lostSetting (.work move)).isSome = true) ∧
      last.state.startCount ≤ rally.state.startCount + 6 := by
  have hinput : rallyInput.BindsWithin rallyTerms := by
    intro s hs
    obtain rfl := List.mem_singleton.mp hs
    exact Solution.bindsWithin_ofBindings (by simp [rallyTerms])
  have hping : pingPlan.CallsWithin rallyTerms := by
    simp [pingPlan, Plan.CallsWithin, OutputPlan.CallsWithin, PlanNode.CallWithin,
      PlanNode.CallsWithin, ArgumentsWithin, Expression.IsArgument, rallyTerms]
  have hpong : pongPlan.CallsWithin rallyTerms := by
    simp [pongPlan, Plan.CallsWithin, OutputPlan.CallsWithin, PlanNode.CallWithin,
      PlanNode.CallsWithin, ArgumentsWithin, Expression.IsArgument]
  have hregistry : ∀ name p, rallyState.registry.get? name = some p →
      p.CallsWithin rallyTerms := by
    intro name p hp
    have hmem : (name, p) ∈ [(pong, pongPlan), (ping, pingPlan)] := mem_of_lookup hp
    rcases List.mem_pair.mp hmem with heq | heq <;> obtain ⟨-, rfl⟩ := Prod.mk.inj heq
    · exact hpong
    · exact hping
  have hmissing : ∀ name accept, rally.state.registry.get? name = none →
      lostSetting.resolver name.text accept = .missing := fun _ _ _ => rfl
  obtain ⟨bound, h⟩ := calls_bounded hping hinput hregistry hmissing
  have hsum : ∑ name ∈ rally.state.registry.names.toFinset,
      (rallyTerms.card + 1) ^ rally.state.registry.arity name = 6 := by
    decide +kernel
  exact ⟨bound, fun moves last hreplay => hsum ▸ h moves last hreplay⟩

end Run

end TripleLoom
