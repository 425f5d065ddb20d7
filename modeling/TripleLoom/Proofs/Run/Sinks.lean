import TripleLoom.Proofs.Run.Acts

/-!
# TripleLoom.Proofs.Run.Sinks — who writes into a sink

A task writes into the sinks of its contexts and into no others, and what it gathers on the way
goes into a sink that is new then.  So a tree of tasks that avoids a sink leaves alone what is in
there, and goes on to avoid it (`Task.Avoids.step`); that holds of a sink that is there already as of
one that is still to be made.  A run starts with a sink that is new too (`Run.start_sinks`).
-/

namespace TripleLoom

open RunM

/-! ### Computations -/

/-- Sinks may have been added, and some sinks hold what they held. -/
structure RunState.Spares (p : SinkId → Prop) (s t : RunState) : Prop where
  sinks : s.nextSink ≤ t.nextSink
  output : ∀ sink, p sink → t.output sink = s.output sink

theorem RunState.Spares.of_record_eq {p : SinkId → Prop} {s t : RunState}
    (hs : t.nextSink = s.nextSink) (h : t.record = s.record) : s.Spares p t :=
  ⟨Nat.le_of_eq hs.symm, fun sink _ => by rw [RunState.output, RunState.output, h]⟩

/-- Leaves alone what is in some sinks. -/
def RunM.Spares {α : Type} (p : SinkId → Prop) (m : RunM α) : Prop :=
  ∀ s : RunState, s.Spares p (m s).2

namespace RunM.Spares

variable {α β : Type} {p : SinkId → Prop} {m : RunM α}

theorem pure (a : α) : Spares p (Pure.pure a) := fun _ => .of_record_eq rfl rfl

theorem bind {f : α → RunM β} (hm : Spares p m) (hf : ∀ a, Spares p (f a)) :
    Spares p (m >>= f) := fun s =>
  ⟨Nat.le_trans (hm s).sinks (hf _ _).sinks,
    fun sink h => ((hf _ _).output sink h).trans ((hm s).output sink h)⟩

theorem get : Spares p (MonadState.get : RunM RunState) := fun _ => .of_record_eq rfl rfl

theorem of_isScoped (hm : IsScoped m) : Spares p m := by
  intro s
  obtain ⟨scopes, hs⟩ := hm s
  rw [hs]
  exact .of_record_eq rfl rfl

theorem note {e : Event} (h : ∀ sink, p sink → e.writtenTo? sink = none) : Spares p (note e) := by
  refine fun s => ⟨Nat.le_refl _, fun sink hp => ?_⟩
  show ((e :: s.record).filterMap (·.writtenTo? sink)).reverse = _
  rw [List.filterMap_cons_none (h sink hp)]
  rfl

theorem newSink : Spares p newSink := fun _ => ⟨Nat.le_succ _, fun _ _ => rfl⟩

theorem lifecycle (f : Lifecycle → α × Lifecycle) : Spares p (lifecycle f) :=
  fun _ => .of_record_eq rfl rfl

theorem register (name : Iri) (plan : Plan) : Spares p (register name plan) :=
  fun _ => .of_record_eq rfl rfl

theorem recordCall (call : CallKey) : Spares p (recordCall call) := by
  intro s
  unfold RunM.recordCall
  split <;> exact .of_record_eq rfl rfl

theorem forM {f : α → RunM Unit} (hf : ∀ a, Spares p (f a)) : ∀ l : List α, Spares p (l.forM f)
  | [] => .pure _
  | a :: l => .bind (hf a) fun _ => Spares.forM hf l

end RunM.Spares

/-! ### Clauses and the select part -/

section

variable {p : SinkId → Prop} (setting : Setting)

theorem Fetch.spares_advance (resolver : Resolver) (v : Variable) (f : Fetch) :
    Spares p (f.advance resolver v) := by
  have hfinish (u : Solution) (permit : Nat) : Spares p (Fetch.finish u permit) :=
    .bind (.lifecycle _) fun _ => .pure _
  cases f with
  | waiting u uri accept =>
    refine .bind (.lifecycle _) fun acquired => ?_
    split
    · exact .bind (.note fun _ _ => rfl) fun _ => .pure _
    · exact .pure _
    · exact .pure _
  | asked u uri accept permit =>
    refine .bind .get fun state => ?_
    split
    · exact hfinish u permit
    · split
      · exact hfinish _ permit
      · exact .bind (.note fun _ _ => rfl) fun _ => .pure _
      · exact hfinish u permit
      · exact .pure _
  | done u => exact .pure _

theorem Iteration.spares_invokeAll (c : Context) (functions : FunctionRegistry) (name : Iri)
    (f : IteratorFunction) (arguments : List Expression) :
    ∀ (input : Nat) (solutions : List Solution) (batches : Batches Solution),
      Spares p (invokeAll c functions name f arguments input solutions batches)
  | _, [], _ => .pure _
  | input, u :: rest, batches => by
    have ih := spares_invokeAll c functions name f arguments (input + 1) rest
    refine .bind (.of_isScoped (c.isScoped_evalAll? functions u arguments)) fun values => ?_
    split
    · exact ih _
    · refine .bind .get fun state => .bind (.note fun _ _ => rfl) fun _ => ?_
      split
      · exact ih _
      · exact .bind (ih _) fun _ => .pure _

namespace Frame

variable (f : Frame)

/-- No clause writes anything. -/
theorem spares_runClauses (input : Sequence) (nodes : List PlanNode) :
    Spares p (f.runClauses setting input nodes) := by
  unfold runClauses
  split
  · exact .bind (.of_isScoped (f.context.isScoped_bindAll _ _ _ input)) fun _ => .pure _
  · exact .pure _
  · split
    · exact .pure _
    · refine .bind .get fun state => ?_
      split
      · exact .pure _
      · exact .bind (.bind (Iteration.spares_invokeAll f.context _ _ _ _ _ _ _) fun _ => .pure _)
          fun _ => .pure _
  · exact .pure _
  · split
    · exact .pure _
    · split <;> exact .pure _
    · exact .pure _

theorem spares_evaluate (select : Select) (input : Sequence) (permit : Option Nat) :
    Spares p (f.evaluate setting select input permit) := by
  unfold evaluate
  split
  · exact .pure _
  · refine .bind .get fun state => .bind (.note fun _ _ => rfl) fun _ =>
      .bind (.lifecycle _) fun _ => ?_
    split <;> exact .pure _

theorem isScoped_bindAfter : ∀ (nodes : List PlanNode) (input : Sequence),
    IsScoped (f.bindAfter setting nodes input)
  | [], _ => .pure _
  | .clause (.bind e v) :: rest, input =>
    .bind (f.context.isScoped_bindAll _ e v input) fun bound => isScoped_bindAfter rest bound
  | .clause (.iterator ..) :: _, _ | .clause (.source ..) :: _, _ | .select _ :: _, _
  | .triples _ :: _, _ | .call _ :: _, _ | .template _ :: _, _ | .plan _ :: _, _ => .pure _

end Frame

/-! ### Output -/

theorem Context.spares_write {c : Context} (hc : ¬p c.sink) (call : SinkCall) :
    Spares p (c.write call) :=
  .note fun _ hp => if_neg fun heq : c.sink = _ => hc (heq ▸ hp)

theorem Context.output_write (c : Context) (call : SinkCall) (s : RunState) :
    (c.write call s).2.output c.sink = s.output c.sink ++ [call] := by
  show (List.filterMap _ (_ :: s.record)).reverse = _
  rw [List.filterMap_cons_some (b := call) (by simp [Event.writtenTo?]), List.reverse_cons]
  rfl

theorem Context.spares_listNodes (c : Context) (list : Nat) : Spares p (c.listNodes list) := by
  intro s
  unfold listNodes
  split <;> exact .of_record_eq rfl rfl

theorem ListTemplate.spares_instantiate (fork c : Context) (index : Nat) (u : Solution)
    (t : ListTemplate) : Spares p (t.instantiate fork c index u) := by
  refine .bind (fork.spares_listNodes t.id) fun nodes => ?_
  split
  · have helement := t.element.isScoped_instantiate c u
    dsimp only
    split
    · exact .bind (.of_isScoped (t.isScoped_head c u _)) fun _ =>
        .bind (.of_isScoped helement) fun _ => .pure _
    · exact .bind (.pure _) fun _ => .bind (.of_isScoped helement) fun _ => .pure _
  · exact .pure _

theorem TriplesPlan.spares_writeAll (plan : TriplesPlan) {fork : Context} (h : ¬p fork.sink) :
    ∀ (index : Nat) (sites : List (Context × Solution)), Spares p (plan.writeAll fork index sites)
  | _, [] => .pure _
  | index, (c, u) :: rest => by
    refine .bind (.bind (.forM (fun t => ?_) _) fun _ => .forM (fun t => ?_) _) fun _ =>
      plan.spares_writeAll h (index + 1) rest
    · refine .bind (.of_isScoped (t.isScoped_instantiate c u)) fun triple => ?_
      split
      · exact Context.spares_write h _
      · exact .pure _
    · exact .bind (t.spares_instantiate fork c index u) fun triples =>
        .forM (fun _ => Context.spares_write h _) _

theorem Frame.spares_generate (f : Frame) (nodes : List PlanNode) (input : Sequence) :
    Spares p (f.generate nodes input) :=
  .bind (.bind (.of_isScoped (.scopes _)) fun _ _ => .of_record_eq rfl rfl) fun _ =>
    .bind (.of_isScoped (.scopes _)) fun _ => .pure _

theorem Frame.spares_assemble {f : Frame} (h : ¬p f.context.sink) (input : Sequence) :
    Spares p (f.assemble setting input f.plan.postSelect) := by
  rw [f.assemble_eq]
  refine .bind (.of_isScoped (f.isScoped_bindAfter setting _ input)) fun bound => ?_
  split
  · unfold output
    split
    · exact f.spares_generate _ _
    · exact .pure _
    · exact .pure _
    · exact .bind (.forM (fun _ => Context.spares_write h _) _) fun _ => .pure _
  · exact .pure _

theorem Generation.spares_collect {g : Generation} (h : ¬p g.fork.sink) (nodes : List PlanNode)
    (running : List Task) (error : Outcome) (stage : Stage) :
    Spares p (g.collect nodes running error stage) := by
  cases stage with
  | idle =>
    cases nodes with
    | nil => exact .pure _
    | cons node rest =>
      cases node with
      | triples plan => exact .bind (plan.spares_writeAll h 0 g.sites) fun _ => .pure _
      | _ => exact .pure _
  | nested | resolving | calling => exact .pure _

theorem Writing.spares_advance {w : Writing} (h : ¬p w.context.sink) :
    Spares p (w.advance setting) := by
  have htext (e : Option Expression) (u : Solution) :
      Spares p (w.context.textOf setting.functions e u) := .of_isScoped (w.context.isScoped_textOf _ u e)
  unfold advance
  split
  · exact .pure _
  · exact .bind (htext _ _) fun _ => .pure _
  · dsimp only
    split
    · exact .bind (htext _ _) fun _ => .bind (Context.spares_write h _) fun _ => .pure _
    · exact .bind (.pure _) fun _ => .bind (Context.spares_write h _) fun _ => .pure _
  · exact .bind (htext _ _) fun _ => .pure _
  · exact .bind .newSink fun _ => .pure _
  · split
    · exact .pure _
    · exact .bind .newSink fun _ => .pure _

theorem Writing.spares_collect (w : Writing) (sink : SinkId) (outcome : Outcome) :
    Spares p (w.collect sink outcome) := by
  unfold collect
  split
  · exact .pure _
  · exact .bind .get fun _ => .pure _

/-! ### Named queries -/

namespace Purpose

variable (purpose : Purpose) (name : Iri)

theorem spares_serve (plan : Plan) : Spares p (purpose.serve setting name plan) := by
  cases purpose with
  | resolve => exact .pure _
  | call c arguments caller once =>
    have hstart (call : CallKey) (u : Solution) (once : Bool) :
        Spares p (c.startCall call plan u once) :=
      .bind (.note fun _ _ => rfl) fun _ => .bind (.bind (.of_isScoped (.scopes _)) fun _ => .pure _)
        fun _ => .pure _
    refine .bind (.of_isScoped (c.isScoped_parameters _ caller name plan arguments)) fun parameters => ?_
    split
    · exact .pure _
    · dsimp only
      split
      · exact hstart _ _ _
      · refine .bind (.recordCall _) fun isNew => ?_
        split
        · exact hstart _ _ _
        · exact .bind (.note fun _ _ => rfl) fun _ => .pure _

theorem spares_enter : Spares p (purpose.enter setting name) := by
  refine .bind .get fun state => ?_
  split
  · exact purpose.spares_serve setting name _
  · exact .bind (.note fun _ _ => rfl) fun _ => .pure _

theorem spares_receive (accept : Option String) :
    Spares p (purpose.receive setting name accept) := by
  unfold receive
  split
  · refine .bind ?_ fun plan => ?_
    · unfold Document.toPlan
      split
      · exact .pure _
      · refine .bind (.note fun _ _ => rfl) fun _ => ?_
        split
        · exact .pure _
        · split <;> exact .pure _
    · split
      · exact .pure _
      · exact .bind (.register name _) fun plan => purpose.spares_serve setting name plan
  · exact .bind (.note fun _ _ => rfl) fun _ => .pure _
  · exact .pure _
  · exact .pure _

end Purpose

/-! ### Tasks -/

namespace Task

variable {t t' : Task} {s s' : RunState}

/-- A task writes into the sinks of its contexts at most. -/
theorem spares_act (h : ∀ c ∈ t.contexts, ¬p c.sink) : Spares p (t.act setting) := by
  cases t with
  | finished o => exact .pure _
  | clauses f nodes input => exact f.spares_runClauses setting input nodes
  | fetching f nodes v input fetches => exact .pure _
  | iterating f nodes i branches error =>
    refine .bind .get fun state => ?_
    split <;> exact .pure _
  | selecting f select input =>
    refine .bind (.lifecycle _) fun acquired => ?_
    split <;> exact .pure _
  | evaluating f select input permit => exact f.spares_evaluate setting select input permit
  | assembling f input => exact Frame.spares_assemble setting (h _ List.mem_cons_self) input
  | generating g nodes stage running error =>
    exact Generation.spares_collect (h _ List.mem_cons_self) nodes running error stage
  | writing w => exact Writing.spares_advance setting (h _ List.mem_cons_self)
  | nesting w sink inner => exact w.spares_collect sink _
  | entering name purpose => exact purpose.spares_enter setting name
  | asking name accept purpose => exact purpose.spares_receive setting name accept

/-- No fetch and no stream writes anything. -/
theorem spares_actItem (index : Nat) (t : Task) : Spares p (t.actItem setting index) := by
  unfold actItem
  split
  · split
    · exact .bind (Fetch.spares_advance _ _ _) fun _ => .pure _
    · exact .pure _
  · exact .pure _
  · exact .pure _

variable {setting}

theorem spares_actOn? {item? : Option Nat} (h : t.actOn? setting item? s = some (t', s'))
    (hc : ∀ c ∈ t.contexts, ¬p c.sink) : s.Spares p s' := by
  unfold actOn? at h
  split at h
  · split at h
    · have hspares := spares_act setting hc s
      rwa [Option.some.inj h] at hspares
    · cases h
  · next index =>
    split at h
    · have hspares : s.Spares p _ := spares_actItem setting index t s
      rwa [Option.some.inj h] at hspares
    · cases h

end Task

end

/-! ### Trees of tasks -/

namespace Task

variable {setting : Setting} {sink : SinkId} {t t' u v : Task} {s s' : RunState} {move : Move}

/-- No task in the tree writes into the sink. -/
def Avoids (sink : SinkId) (t : Task) : Prop :=
  ∀ u : Task, u.Within t → ∀ c ∈ u.contexts, c.sink ≠ sink

theorem Avoids.inside {index : Nat} {inner : Task} (h : t.Avoids sink)
    (hi : t.inside? index = some inner) : inner.Avoids sink :=
  fun u hu => h u (.inside hi hu)

/-- A task that has nothing below it. -/
theorem Avoids.of_contexts (h : ∀ c ∈ t.contexts, c.sink ≠ sink)
    (hnone : ∀ index, t.inside? index = none) : t.Avoids sink := by
  intro u hu
  cases hu with
  | self => exact h
  | inside hi => rw [hnone] at hi; cases hi

/-- A task has a context with the sink, or the sink is new. -/
def MayWrite (s s' : RunState) (t : Task) (c : Context) : Prop :=
  c.sink ∈ t.contexts.map (·.sink) ∨ s.nextSink ≤ c.sink ∧ c.sink < s'.nextSink

/-- A task keeps the sinks of its contexts. -/
theorem Turns.sink_mem (h : Turns setting s t t' s') :
    ∀ c ∈ t'.contexts, c.sink ∈ t.contexts.map (·.sink) := by
  intro c hc
  cases h with
  | @generate f input bound s₁ nodes hb hs ho =>
    rcases List.mem_cons.mp hc with rfl | hc
    · exact List.mem_cons_self
    · obtain ⟨scope, -, rfl⟩ := List.mem_map.mp hc
      exact List.mem_cons_self
  | finish | generated => cases hc
  | resume hw | collect hw | embed hw | embedCall hw =>
    obtain rfl := List.mem_singleton.mp hc
    rw [hw.context]
    exact List.mem_cons_self
  | ask name accept accept' purpose ht =>
    rcases ht with rfl | rfl <;> exact List.mem_map_of_mem hc
  | call _ d plan hu hnew hpath hd hsink =>
    obtain rfl := List.mem_singleton.mp hc
    exact hsink
  | _ => exact List.mem_map_of_mem hc

/-- What a task starts has the task's sinks, unless it is there to gather text. -/
theorem Begets.sink_mem (h : t.Begets u) :
    (∀ c ∈ u.contexts, c.sink ∈ t.contexts.map (·.sink)) ∨ ∃ w, t = .writing w := by
  cases h with
  | branch => exact .inl fun c hc => List.mem_map_of_mem hc
  | nested hs =>
    refine .inl fun c hc => ?_
    obtain rfl := List.mem_singleton.mp hc
    exact List.mem_map.mpr ⟨_, List.mem_cons_of_mem _ (List.of_mem_zip hs).1, rfl⟩
  | resolve => exact .inl fun c hc => by cases hc
  | call =>
    refine .inl fun c hc => ?_
    obtain rfl := List.mem_singleton.mp hc
    exact List.mem_cons_self
  | @embedded w => exact .inr ⟨w, rfl⟩
  | @embeddedCall w => exact .inr ⟨w, rfl⟩

/-- What a task starts writes into one of the task's own sinks or into a new one. -/
theorem Turns.mayWrite_inside (h : Turns setting s t t' s') {index : Nat} {inner : Task}
    (hi : t'.inside? index = some inner) :
    (∃ j, t.inside? j = some inner) ∨
      (∀ j, inner.inside? j = none) ∧ ∀ c ∈ inner.contexts, t.MayWrite s s' c := by
  rcases h.inside hi with hold | hb
  · exact .inl hold
  refine .inr ⟨hb.inside?_eq_none, ?_⟩
  rcases hb.sink_mem with hmem | ⟨w, rfl⟩
  · exact fun c hc => .inl (hmem c hc)
  · have hnew (c : Context) (hc : s.nextSink ≤ c.sink ∧ c.sink < s'.nextSink) (v : Task)
        (hv : v.contexts.map (·.sink) = [c.sink])
        (hin : (if index = 0 then some v else none) = some inner) :
        ∀ c ∈ inner.contexts, (Task.writing w).MayWrite s s' c := by
      obtain ⟨-, rfl⟩ : index = 0 ∧ v = inner := by simpa using hin
      intro d hd
      have hsink : d.sink = c.sink := by
        rw [← List.mem_singleton, ← hv]
        exact List.mem_map_of_mem hd
      exact .inr (hsink ▸ hc)
    cases h with
    | embed _ sink _ _ _ hsink => exact hnew { w.context with sink } hsink _ rfl hi
    | embedCall _ sink _ _ _ _ hsink => exact hnew { w.context with sink } hsink _ rfl hi
    | _ => cases hi

/-- What a task turns into avoids what it has avoided, but for the sinks that are new. -/
theorem Avoids.turns (h : t.Avoids sink) (hturns : Turns setting s t t' s')
    (hsink : sink < s.nextSink ∨ s'.nextSink ≤ sink) : t'.Avoids sink := by
  have hown (c : Context) (hc : c.sink ∈ t.contexts.map (·.sink)) : c.sink ≠ sink := by
    obtain ⟨d, hd, heq⟩ := List.mem_map.mp hc
    exact heq ▸ h t .self d hd
  intro u hu
  cases hu with
  | self => exact fun c hc => hown c (hturns.sink_mem c hc)
  | @inside _ inner _ hi hu =>
    rcases hturns.mayWrite_inside hi with ⟨j, hj⟩ | ⟨hnone, hmay⟩
    · exact h.inside hj u hu
    · refine Avoids.of_contexts (fun c hc => ?_) hnone u hu
      rcases hmay c hc with hmem | ⟨hge, hlt⟩
      · exact hown c hmem
      · rintro rfl
        exact hsink.elim (Nat.not_lt.mpr hge) fun hle => Nat.not_lt.mpr hle hlt

theorem Avoids.replaceInside {index : Nat} {inner : Task} (h : t.Avoids sink)
    (hinner : inner.Avoids sink) : (replaceInside index inner t).Avoids sink := by
  intro u hu
  cases hu with
  | self =>
    rw [contexts_replaceInside]
    exact h t .self
  | inside hi hu =>
    rcases inside?_replaceInside hi with rfl | ⟨j, hj⟩
    · exact hinner u hu
    · exact h.inside hj u hu

/-- **A tree of tasks goes on to avoid a sink.**  Sinks that are still to be made it avoids too, and
those that it makes are new. -/
theorem Avoids.step : ∀ {move : Move} {t t' : Task} {s s' : RunState}, t.Avoids sink → t.AreIn s →
    t.step setting move s = some (t', s') → sink < s.nextSink ∨ s'.nextSink ≤ sink →
    t'.Avoids sink
  | .here, t, t', s, s', ht, hin, h, hsink =>
    have hact : t.actOn? setting none s = some (t', s') := h
    ht.turns (turns_actOn? hact (hin t .self)) hsink
  | .item index, t, t', s, s', ht, hin, h, hsink =>
    have hact : t.actOn? setting (some index) s = some (t', s') := h
    ht.turns (turns_actOn? hact (hin t .self)) hsink
  | .inside index move, t, t', s, s', ht, hin, h, hsink => by
    simp only [Task.step, Option.bind_eq_bind, Option.bind_eq_some_iff] at h
    obtain ⟨inner, hi, ⟨inner', s₁⟩, hstep, heq⟩ := h
    obtain ⟨rfl, rfl⟩ := Prod.mk.inj (Option.some.inj heq)
    exact ht.replaceInside ((ht.inside hi).step (hin.inside hi) hstep hsink)

/-- What a move leaves in the sinks. -/
theorem spares_step {p : SinkId → Prop} (h : t.step setting move s = some (t', s'))
    (hp : ∀ sink, p sink → t.Avoids sink) : s.Spares p s' := by
  obtain ⟨u, u', hat, hact⟩ := actOn?_of_step h
  exact spares_actOn? hact fun c hc hsink => hp c.sink hsink u (within_at? hat) c hc rfl

theorem nextSink_le_of_step (h : t.step setting move s = some (t', s')) :
    s.nextSink ≤ s'.nextSink := by
  have hspares : s.Spares (fun _ => False) s' := spares_step h fun _ hfalse => hfalse.elim
  exact hspares.sinks

end Task

/-! ### The start of a run -/

namespace Run

theorem spares_announce {p : SinkId → Prop} {c : Context} (hc : ¬p c.sink) (plan : Plan) :
    Spares p (announce c plan) := by
  refine .bind (c.spares_write hc _) fun _ =>
    .bind (.forM (fun _ => c.spares_write hc _) _) fun _ => ?_
  split
  · exact c.spares_write hc _
  · exact .pure _

theorem spares_enroll {p : SinkId → Prop} (plan : Plan) (input : Sequence) :
    Spares p (enroll plan input) := by
  unfold enroll
  split
  · exact .pure _
  · exact .bind (.register _ _) fun _ => .forM (fun _ => .bind (.recordCall _) fun _ =>
      .note fun _ _ => rfl) _

/-- A run starts with a sink of its own, and writes nothing into any other. -/
theorem start_sinks (state : RunState) (plan : Plan) (input : Sequence) :
    state.nextSink < (start state plan input).state.nextSink ∧
      ∀ sink ≠ state.nextSink, (start state plan input).state.output sink = state.output sink := by
  let c : Context := ⟨state.nextSink, state.scopes.root.1, none, state.nextFork, 1⟩
  let s : RunState := { state with
    scopes := state.scopes.root.2
    nextSink := state.nextSink + 1
    nextFork := state.nextFork + 1 }
  have hannounce : s.Spares (· ≠ state.nextSink) (announce c plan s).2 :=
    spares_announce (c := c) (fun hne => hne rfl) plan s
  have henroll : (announce c plan s).2.Spares (· ≠ state.nextSink) (start state plan input).state :=
    spares_enroll plan input _
  exact ⟨Nat.le_trans hannounce.sinks henroll.sinks, fun sink hne =>
    (henroll.output sink hne).trans (hannounce.output sink hne)⟩

end Run

end TripleLoom
