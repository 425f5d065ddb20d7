import TripleLoom.Proofs.Run.Evolution

/-!
# TripleLoom.Proofs.Run.Turns — what a task turns into

When a task acts it turns into another task, of a kind that its own kind and its plan determine.
`Task.Turns` lists all that can happen, with what is needed to know about the contexts, the sequences
and the plans of the new task; whatever the services answer, nothing else happens
(`Task.turns_actOn?`).  What a step of a run can do is read off from here and not from the acts.
-/

namespace TripleLoom

open RunM

variable (setting : Setting)

/-! ### The bindings behind the select part -/

/-- The solutions after some bindings behind the select part. -/
def Frame.bindAfter (f : Frame) : List PlanNode → Sequence → RunM (Except RunError Sequence)
  | .clause (.bind e v) :: rest, input => do
    f.bindAfter rest (← f.context.bindAll setting.functions e v input)
  | node :: _, _ => return .error (.unexpectedPlanNode node.kind)
  | [], input => return .ok input

theorem Frame.assemble_eq (f : Frame) : ∀ (nodes : List PlanNode) (input : Sequence),
    f.assemble setting input nodes = do
      match ← f.bindAfter setting nodes input with
      | .ok bound => f.output bound
      | .error e => return .failed e
  | [], _ => rfl
  | .clause (.bind e v) :: rest, input => by
    rw [assemble, bindAfter, bind_assoc]
    exact congrArg _ (funext fun bound => f.assemble_eq rest bound)
  | .clause (.iterator ..) :: _, _ | .clause (.source ..) :: _, _ | .select _ :: _, _
  | .triples _ :: _, _ | .call _ :: _, _ | .template _ :: _, _ | .plan _ :: _, _ => rfl

theorem Frame.keepsTo_bindAfter {p : Footprint} {base : RunState} {f : Frame}
    (hf : f.context.IsIn base) (h : p.mints f.context.scope) : ∀ (nodes : List PlanNode)
    (input : Sequence), KeepsTo p base (f.bindAfter setting nodes input)
  | [], _ => .pure _
  | .clause (.bind _ v) :: rest, input =>
    .bind (f.context.keepsTo_bindAll _ hf (fun _ => h) v input) fun bound =>
      keepsTo_bindAfter hf h rest bound
  | .clause (.iterator ..) :: _, _ | .clause (.source ..) :: _, _ | .select _ :: _, _
  | .triples _ :: _, _ | .call _ :: _, _ | .template _ :: _, _ | .plan _ :: _, _ => .pure _

/-! ### Forms -/

/-- The generation of a form that starts in a state: its fork gets the next scope, and each solution
one behind that. -/
def Frame.generation (f : Frame) (s : RunState) (input : Sequence) : Generation :=
  let fork : Context :=
    { f.context with scope := s.scopes.count, fork := s.nextFork, size := input.size }
  ⟨fork, (List.range' (s.scopes.count + 1) input.size).map fun scope => { fork with scope }, input⟩

theorem Generation.map_snd_sites (f : Frame) (s : RunState) (input : Sequence) :
    (f.generation s input).sites.map (·.2) = input.solutions := by
  refine List.map_snd_zip (Nat.le_of_eq ?_)
  rw [Frame.generation, List.length_map, List.length_range']
  rfl

/-- The state behind the start of a form: its scopes lie one below the other. -/
structure Frame.Generates (f : Frame) (s : RunState) (input : Sequence) (s' : RunState) :
    Prop where
  count : s'.scopes.count = s.scopes.count + 1 + input.size
  forks : s'.nextFork = s.nextFork + 1
  minted : s'.scopes.minted = s.scopes.minted
  lists : s'.lists = s.lists
  fork : s'.scopes.path (f.generation s input).fork.scope =
    s.scopes.count :: s.scopes.path f.context.scope
  sites : ∀ c ∈ (f.generation s input).contexts, s.scopes.count < c.scope ∧
    c.scope < s'.scopes.count ∧
    s'.scopes.path c.scope = c.scope :: s.scopes.count :: s.scopes.path f.context.scope

theorem Frame.generate_spec (f : Frame) (nodes : List PlanNode) (input : Sequence)
    (s : RunState) :
    (f.generate nodes input s).1 = .generating (f.generation s input) nodes .idle [] none ∧
      f.Generates s input (f.generate nodes input s).2 := by
  have hsize : (s.scopes.child f.context.scope).2.ancestors.size = s.scopes.count + 1 :=
    Array.size_push _
  obtain ⟨hids, hminted, -, hcount, hkeep, hpath⟩ := Scopes.children_spec s.scopes.count input.size
    (s.scopes.child f.context.scope).2 (hsize ▸ Nat.lt_succ_self _)
  rw [hsize] at hids hcount hkeep
  have hfork : (s.scopes.child f.context.scope).2.path s.scopes.count =
      s.scopes.count :: s.scopes.path f.context.scope := by
    rw [Scopes.path]
    show _ :: (s.scopes.ancestors.push _).getD s.scopes.ancestors.size [] = _
    simp [Array.getD_eq_getD_getElem?]
  constructor
  · show Task.generating ⟨_, ((s.scopes.child f.context.scope).2.children s.scopes.count
      input.size).1.map _, input⟩ nodes .idle [] none = _
    rw [hids]
    rfl
  · refine ⟨hcount, rfl, hminted, rfl, ?_, fun c hc => ?_⟩
    · rw [← hfork]
      exact congrArg (_ :: ·) (hkeep _ (Nat.lt_succ_self _))
    · obtain ⟨scope, hs, rfl⟩ := List.mem_map.mp hc
      have hrange := List.mem_range'_1.mp hs
      refine ⟨hrange.1, hrange.2.trans_eq hcount.symm, ?_⟩
      rw [← hfork, ← hpath scope (hids ▸ hs)]
      rfl

/-! ### Texts -/

/-- The parts of a text that may still have to be written. -/
def Writing.parts (w : Writing) : List TemplatePart :=
  w.plan.parts ++ (w.current.map (·.2)).getD []

/-- A text that has gone on. -/
structure Writing.Continues (w w' : Writing) : Prop where
  context : w'.context = w.context
  plan : w'.plan = w.plan
  input : w'.input = w.input
  solutions : w'.solutions ⊆ w.solutions
  parts : w'.parts ⊆ w.parts

/-! ### Turns -/

/-- The triples of an element of a form. -/
def PlanNode.triples? : PlanNode → Option TriplesPlan
  | .triples p => some p
  | _ => none

variable {setting}

/-- What a task can turn into in a state, and the state after that. -/
inductive Task.Turns (setting : Setting) (s : RunState) : Task → Task → RunState → Prop where
  | stay {t : Task} (s' : RunState) (h : t.generation? = none) : Turns setting s t t s'
  | finish {t : Task} (o : Outcome) (s' : RunState) (h : t.generation? = none) :
    Turns setting s t (.finished o) s'
  | bind (f : Frame) (e : Expression) (v : Variable) (nodes : List PlanNode) (input : Sequence)
      (s' : RunState) :
    Turns setting s (.clauses f (.clause (.bind e v) :: nodes) input)
      (.clauses f nodes (f.context.bindAll setting.functions e v input s).1) s'
  | source (f : Frame) (document : IriPattern) (accept : Option IriPattern) (v : Variable)
      (nodes : List PlanNode) (input : Sequence) (s' : RunState) :
    Turns setting s (.clauses f (.clause (.source document accept v) :: nodes) input)
      (.fetching f nodes v (input.declare v)
        (input.solutions.map (Fetch.ofSolution document accept))) s'
  | iterate (f : Frame) (name : Iri) (function : IteratorFunction) (arguments : List Expression)
      (vars : List Variable) (nodes : List PlanNode) (input : Sequence) (s' : RunState) :
    Turns setting s (.clauses f (.clause (.iterator name arguments vars) :: nodes) input)
      (.iterating f nodes (Iteration.start f.context setting.functions name function arguments vars
        input s).1 [] none) s'
  | assemble (f : Frame) (input : Sequence) (s' : RunState) :
    Turns setting s (.clauses f [] input) (.assembling f input) s'
  | select (f : Frame) (select : Select) (input : Sequence) (s' : RunState) :
    Turns setting s (.clauses f [] input)
      (.selecting f select (if input.isEmpty then .unit else input)) s'
  | fetch (f : Frame) (nodes : List PlanNode) (v : Variable) (input : Sequence)
      {fetches : List Fetch} {index : Nat} {fetch : Fetch} (h : fetches[index]? = some fetch)
      (s' : RunState) :
    Turns setting s (.fetching f nodes v input fetches) (.fetching f nodes v input
      (fetches.set index (fetch.advance setting.resolver v s).1)) s'
  | fetched (f : Frame) (nodes : List PlanNode) (v : Variable) (input : Sequence)
      (fetches : List Fetch) (s' : RunState) :
    Turns setting s (.fetching f nodes v input fetches)
      (.clauses f nodes (input.withSolutions (fetches.map Fetch.solution))) s'
  | tell (f : Frame) (nodes : List PlanNode) (i : Iteration) (branches : List Task)
      (error : Outcome) (index : Nat) (s' : RunState) :
    Turns setting s (.iterating f nodes i branches error)
      (.iterating f nodes (i.tell index) branches error) s'
  | hear (f : Frame) (nodes : List PlanNode) (i : Iteration) (branches : List Task)
      (error : Outcome) (wantsEmpty : Bool) (s' : RunState) :
    Turns setting s (.iterating f nodes i branches error)
      (.iterating f nodes (i.hear.takeSequences wantsEmpty).2
        (branches ++ (i.hear.takeSequences wantsEmpty).1.map (.clauses f nodes)) error) s'
  | permit (f : Frame) (select : Select) (input : Sequence) (permit : Option Nat) (s' : RunState) :
    Turns setting s (.selecting f select input) (.evaluating f select input permit) s'
  | evaluated (f : Frame) (select : Select) (input : Sequence) (permit : Option Nat)
      {engine : PatternEngine} (he : setting.engine = some engine) {earlier : Nat}
      {result : Sequence} (hr : engine earlier select input = .solutions result) (s' : RunState) :
    Turns setting s (.evaluating f select input permit) (.assembling f result.restoreBlanks) s'
  | generate (f : Frame) (input : Sequence) {bound : Sequence} {s₁ : RunState}
      {nodes : List PlanNode}
      (hb : f.bindAfter setting f.plan.postSelect input s = (.ok bound, s₁))
      (hs : s.Evolves (.minting [f.context.scope]) s₁) (ho : f.plan.output = .generate nodes) :
    Turns setting s (.assembling f input) (.generating (f.generation s₁ bound) nodes .idle [] none)
      (f.generate nodes bound s₁).2
  | write (f : Frame) (input : Sequence) {bound : Sequence} {s₁ : RunState} {plan : TemplatePlan}
      (hb : f.bindAfter setting f.plan.postSelect input s = (.ok bound, s₁))
      (ho : f.plan.output = .template (.template plan)) (s' : RunState) :
    Turns setting s (.assembling f input)
      (.writing ⟨f.context, plan, bound, true, bound.solutions, none⟩) s'
  | generated (g : Generation) (running : List Task) (error : Outcome) :
    Turns setting s (.generating g [] .idle running error) (.finished error) s
  | triples (g : Generation) (p : TriplesPlan) (nodes : List PlanNode) (running : List Task)
      (error : Outcome) :
    Turns setting s (.generating g (.triples p :: nodes) .idle running error)
      (.generating g nodes .idle [] error) (p.writeAll g.fork 0 g.sites s).2
  | nest (g : Generation) (plan : Plan) (nodes : List PlanNode) (running : List Task)
      (error : Outcome) :
    Turns setting s (.generating g (.plan plan :: nodes) .idle running error)
      (.generating g nodes .nested (g.nestedRuns plan) error) s
  | resolve (g : Generation) (call : CallPlan) (nodes : List PlanNode) (running : List Task)
      (error : Outcome) :
    Turns setting s (.generating g (.call call :: nodes) .idle running error)
      (.generating g nodes (.resolving call (g.calls call))
        (((g.calls call).map (·.1)).eraseDups.map fun name => .entering name .resolve) error) s
  | refuse (g : Generation) {node : PlanNode} (h : node.triples? = none) (nodes : List PlanNode)
      (running : List Task) (error error' : Outcome) :
    Turns setting s (.generating g (node :: nodes) .idle running error)
      (.generating g nodes .idle [] error') s
  | nested (g : Generation) (nodes : List PlanNode) (running : List Task) (error error' : Outcome) :
    Turns setting s (.generating g nodes .nested running error)
      (.generating g nodes .idle [] error') s
  | resolved (g : Generation) (nodes : List PlanNode) (call : CallPlan)
      (calls : List (Iri × Solution)) (running : List Task) (error resolved : Outcome) :
    Turns setting s (.generating g nodes (.resolving call calls) running error)
      (.generating g nodes (.calling resolved)
        (calls.map fun (name, u) => .entering name (.call g.fork call.arguments u true)) error) s
  | called (g : Generation) (nodes : List PlanNode) (resolved : Outcome) (running : List Task)
      (error error' : Outcome) :
    Turns setting s (.generating g nodes (.calling resolved) running error)
      (.generating g nodes .idle [] error') s
  | resume {w w' : Writing} (h : w.Continues w') (s' : RunState) :
    Turns setting s (.writing w) (.writing w') s'
  | collect {w w' : Writing} (h : w.Continues w') (sink : SinkId) (inner : Task) (s' : RunState) :
    Turns setting s (.nesting w sink inner) (.writing w') s'
  | embed {w w' : Writing} (h : w.Continues w') (sink : SinkId) {plan : Plan} {u : Solution}
      (hp : .plan plan ∈ w.parts) (hu : u ∈ w.solutions) (s' : RunState)
      (hsink : s.nextSink ≤ sink ∧ sink < s'.nextSink) :
    Turns setting s (.writing w) (.nesting w' sink
      (.ofPlan { w.context with sink } plan (w.input.withSolutions [u]))) s'
  | embedCall {w w' : Writing} (h : w.Continues w') (sink : SinkId) (name : Iri)
      (call : CallPlan) (u : Solution) (s' : RunState)
      (hsink : s.nextSink ≤ sink ∧ sink < s'.nextSink) (hcall : .call call ∈ w.parts) :
    Turns setting s (.writing w) (.nesting w' sink
      (.entering name (.call { w.context with sink } call.arguments u false))) s'
  | ask (name : Iri) (accept accept' : Option String) (purpose : Purpose) {t : Task}
      (h : t = .entering name purpose ∨ t = .asking name accept purpose) (s' : RunState) :
    Turns setting s t (.asking name accept' purpose) s'
  | call {t : Task} (h : t.generation? = none) (c : Context) (plan : Plan) {u : Solution}
      (hu : u.IsUnder plan.parameters) {s' : RunState} (hnew : s.scopes.count ≤ c.scope)
      (hpath : s'.scopes.path c.scope = [c.scope]) (hc : c.IsIn s')
      (hsink : c.sink ∈ t.contexts.map (·.sink)) :
    Turns setting s t (.ofPlan c plan (.ofLists plan.parameters [u])) s'

variable {s : RunState}

/-! ### Clauses and the select part -/

theorem Frame.turns_runClauses (f : Frame) (nodes : List PlanNode) (input : Sequence) :
    Task.Turns setting s (.clauses f nodes input) (f.runClauses setting input nodes s).1
      (f.runClauses setting input nodes s).2 := by
  cases nodes with
  | nil =>
    unfold runClauses
    split
    · exact .assemble f input _
    · next select _ =>
      split
      · exact .finish _ _ rfl
      · exact .select f select input _
    · exact .finish _ _ rfl
  | cons node rest =>
    cases node with
    | clause clause =>
      cases clause with
      | bind e v => exact .bind f e v rest input _
      | source document accept v => exact .source f document accept v rest input _
      | iterator name arguments vars =>
        simp only [runClauses]
        cases setting.functions.iterator? name with
        | none => exact .finish _ _ rfl
        | some function =>
          by_cases hc : s.isClosed = true
          · simp only [bind_apply, get_apply, hc, if_true]
            exact .finish _ _ rfl
          · simp only [bind_apply, get_apply, hc]
            exact .iterate f name function arguments vars rest input _
    | select | triples | call | template | plan => exact .finish _ _ rfl

theorem Frame.turns_evaluate (f : Frame) (select : Select) (input : Sequence)
    (permit : Option Nat) : Task.Turns setting s (.evaluating f select input permit)
      (f.evaluate setting select input permit s).1 (f.evaluate setting select input permit s).2 := by
  unfold evaluate
  cases he : setting.engine with
  | none => exact .finish _ _ rfl
  | some engine =>
    simp only [bind_apply, get_apply]
    cases hr : engine s.evaluations select input with
    | solutions result => exact .evaluated f select input permit he hr _
    | failed | crashed => exact .finish _ _ rfl

theorem Frame.turns_assemble {f : Frame} (hf : f.context.IsIn s) (input : Sequence) :
    Task.Turns setting s (.assembling f input) (f.assemble setting input f.plan.postSelect s).1
      (f.assemble setting input f.plan.postSelect s).2 := by
  have hkeeps : s.Evolves (.minting [f.context.scope])
      (f.bindAfter setting f.plan.postSelect input s).2 :=
    keepsTo_bindAfter setting hf List.mem_cons_self _ input s (.refl s)
  rw [assemble_eq, bind_apply]
  rcases hb : f.bindAfter setting f.plan.postSelect input s with ⟨_ | bound, s₁⟩
  · exact .finish _ _ rfl
  · rw [hb] at hkeeps
    dsimp only
    unfold output
    cases ho : f.plan.output with
    | generate nodes =>
      dsimp only
      rw [(f.generate_spec nodes bound s₁).1]
      exact .generate f input hb hkeeps ho
    | template node =>
      cases node with
      | template plan => exact .write f input hb ho _
      | clause | select | triples | call | plan => exact .finish _ _ rfl
    | rows vars => exact .finish _ _ rfl

/-! ### Output -/

theorem Generation.turns_collect (g : Generation) (nodes : List PlanNode) (stage : Stage)
    (running : List Task) (error : Outcome) :
    Task.Turns setting s (.generating g nodes stage running error)
      (g.collect nodes running error stage s).1 (g.collect nodes running error stage s).2 := by
  cases stage with
  | idle =>
    cases nodes with
    | nil => exact .generated g running error
    | cons node rest =>
      cases node with
      | triples p => exact .triples g p rest running error
      | plan plan => exact .nest g plan rest running error
      | call call => exact .resolve g call rest running error
      | clause | select | template => exact .refuse g rfl rest running error _
  | nested => exact .nested g nodes running error _
  | resolving call calls => exact .resolved g nodes call calls running error _
  | calling resolved => exact .called g nodes resolved running error _

namespace Writing

theorem parts_resume {w : Writing} (text : String) {parts : List TemplatePart}
    (h : parts ⊆ w.parts) : w.Continues { w with current := some (text, parts) } :=
  ⟨rfl, rfl, rfl, fun _ hu => hu, fun _ hp => (List.mem_append.mp hp).elim
    (List.mem_append_left _) fun hp => h hp⟩

theorem turns_advance (w : Writing) :
    Task.Turns setting s (.writing w) (w.advance setting s).1 (w.advance setting s).2 := by
  obtain ⟨context, plan, input, isFirst, solutions, current⟩ := w
  unfold advance
  cases solutions with
  | nil => exact .finish _ _ rfl
  | cons u rest =>
    cases current with
    | none =>
      exact .resume (parts_resume _ fun _ hp => List.mem_append_left _ hp) _
    | some now =>
      obtain ⟨text, parts⟩ := now
      cases parts with
      | nil =>
        have hnext : Continues ⟨context, plan, input, isFirst, u :: rest, some (text, [])⟩
            ⟨context, plan, input, false, rest, none⟩ :=
          ⟨rfl, rfl, rfl, List.subset_cons_self _ _, fun _ hp => hp⟩
        -- only behind the last solution there is a closing text
        cases rest <;> exact .resume hnext _
      | cons part parts =>
        have hrest : ∀ next : String,
            Continues ⟨context, plan, input, isFirst, u :: rest, some (text, part :: parts)⟩
              ⟨context, plan, input, isFirst, u :: rest, some (next, parts)⟩ := fun next =>
          parts_resume next fun _ hp => List.mem_append_right _ (List.mem_cons_of_mem _ hp)
        cases part with
        | expression e => exact .resume (hrest _) _
        | plan q =>
          exact .embed (hrest _) _ (List.mem_append_right _ List.mem_cons_self) List.mem_cons_self _
            ⟨Nat.le_refl _, Nat.lt_succ_self _⟩
        | call call =>
          simp only
          cases call.name? u with
          | none => exact .resume (hrest _) _
          | some name =>
            exact .embedCall (hrest _) _ name call u _ ⟨Nat.le_refl _, Nat.lt_succ_self _⟩
              (List.mem_append_right _ List.mem_cons_self)

theorem turns_collect (w : Writing) (sink : SinkId) (inner : Task) :
    Task.Turns setting s (.nesting w sink inner) (w.collect sink inner.outcome s).1
      (w.collect sink inner.outcome s).2 := by
  unfold collect
  cases inner.outcome with
  | some e => exact .finish _ _ rfl
  | none =>
    have hw : ∀ more : String, w.Continues
        { w with current := w.current.map fun p => (p.1 ++ more, p.2) } := fun more => by
      refine ⟨rfl, rfl, rfl, fun _ hu => hu, ?_⟩
      rw [parts, parts, Option.map_map]
      exact fun _ hp => hp
    exact .collect (hw _) sink inner _

end Writing

/-! ### Named queries -/

theorem Context.isUnder_bindArguments (c : Context) (functions : FunctionRegistry)
    (caller : Solution) {vars : List Variable} : ∀ {pairs : List (Variable × Expression)}
    (_ : ∀ b ∈ pairs, b.1 ∈ vars) (s : RunState),
    ∀ b ∈ (c.bindArguments functions caller pairs s).1, b.1 ∈ vars
  | [], _, _ => fun b hb => nomatch hb
  | (v, e) :: rest, h, s => by
    obtain ⟨hv, hrest⟩ := List.forall_mem_cons.mp h
    rw [bindArguments, bind_apply]
    rcases c.eval? functions e caller s with ⟨_ | value, s₁⟩
    · exact isUnder_bindArguments c functions caller hrest s₁
    · exact List.forall_mem_cons.mpr ⟨hv, isUnder_bindArguments c functions caller hrest s₁⟩

theorem Context.isUnder_parameters (c : Context) (functions : FunctionRegistry) (name : Iri)
    (plan : Plan) (arguments : Option (List Expression)) (caller : Solution) (s : RunState)
    {u : Solution} (h : (c.parameters functions name plan arguments caller s).1 = .ok u) :
    u.IsUnder plan.parameters := by
  rcases c.of_parameters functions name plan h with rfl | ⟨signature, es, hs, -, rfl⟩
  · exact Solution.isUnder_empty
  · rw [Plan.parameters, hs]
    exact Solution.isUnder_ofBindings (c.isUnder_bindArguments functions caller
      (fun b hb => (List.of_mem_zip hb).1) s)

theorem Context.turns_startCall {base : RunState} {t : Task} (ht : t.generation? = none)
    {c : Context} (hc : c.fork < s.nextFork) (hbase : base.Grows s) (call : CallKey) {plan : Plan}
    {u : Solution} (hu : u.IsUnder plan.parameters) (once : Bool)
    (hsink : c.sink ∈ t.contexts.map (·.sink)) :
    Task.Turns setting base t (c.startCall call plan u once s).1
      (c.startCall call plan u once s).2 := by
  refine .call ht { c with scope := s.scopes.count } plan hu hbase.scopes ?_ ⟨?_, hc⟩ hsink
  · show s.scopes.count :: (s.scopes.ancestors.push []).getD s.scopes.ancestors.size [] = _
    simp [Array.getD_eq_getD_getElem?]
  · show s.scopes.ancestors.size < (s.scopes.ancestors.push []).size
    simp

namespace Purpose

variable {t : Task} {purpose : Purpose} {base : RunState}

theorem turns_serve (hc : ∀ c ∈ purpose.contexts, c.IsIn s) (hbase : base.Grows s)
    (ht : t.generation? = none) (hsub : purpose.contexts ⊆ t.contexts) (name : Iri)
    (plan : Plan) : Task.Turns setting base t (purpose.serve setting name plan s).1
      (purpose.serve setting name plan s).2 := by
  cases purpose with
  | resolve => exact .finish _ _ ht
  | call c arguments caller once =>
    have hunder : ∀ u, (c.parameters setting.functions name plan arguments caller s).1 = .ok u →
        u.IsUnder plan.parameters := fun u =>
      c.isUnder_parameters setting.functions name plan arguments caller s
    have hkeeps : s.Evolves ⟨fun _ => True, fun _ _ => False, fun _ _ => False⟩
        (c.parameters setting.functions name plan arguments caller s).2 :=
      c.keepsTo_parameters _ caller (hc c List.mem_cons_self) name plan (fun _ => trivial) s
        (.refl s)
    simp only [serve, bind_apply]
    have hsink : c.sink ∈ t.contexts.map (·.sink) :=
      List.mem_map_of_mem (hsub List.mem_cons_self)
    rcases hp : c.parameters setting.functions name plan arguments caller s with ⟨_ | u, s₁⟩
    · exact .finish _ _ ht
    · rw [hp] at hunder hkeeps
      have hgrown : base.Grows s₁ := hbase.trans hkeeps.grows
      have hfork : c.fork < s₁.nextFork := ((hc c List.mem_cons_self).grows hkeeps.grows).fork
      cases once with
      | false => exact c.turns_startCall ht hfork hgrown _ (hunder u rfl) false hsink
      | true =>
        have hrecord : s₁.Evolves .none
            (recordCall (.ofSolution name plan.signature u) s₁).2 :=
          KeepsTo.recordCall _ s₁ (.refl s₁)
        simp only [Bool.not_true, Bool.false_eq_true, if_false, bind_apply]
        rcases hr : recordCall (.ofSolution name plan.signature u) s₁ with ⟨_ | _, s₂⟩
        · exact .finish _ _ ht
        · rw [hr] at hrecord
          have hfork₂ := Nat.lt_of_lt_of_le hfork hrecord.grows.forks
          exact c.turns_startCall ht hfork₂ (hgrown.trans hrecord.grows) _ (hunder u rfl) true hsink

theorem turns_enter (hc : ∀ c ∈ purpose.contexts, c.IsIn s) (name : Iri) :
    Task.Turns setting s (.entering name purpose) (purpose.enter setting name s).1
      (purpose.enter setting name s).2 := by
  simp only [enter, bind_apply, get_apply]
  cases s.registry.get? name with
  | some plan => exact turns_serve hc (.refl s) rfl (List.Subset.refl _) name plan
  | none => exact .ask name none _ purpose (.inl rfl) _

theorem turns_receive (hc : ∀ c ∈ purpose.contexts, c.IsIn s) (name : Iri)
    (accept : Option String) :
    Task.Turns setting s (.asking name accept purpose) (purpose.receive setting name accept s).1
      (purpose.receive setting name accept s).2 := by
  unfold receive
  cases setting.resolver name.text accept with
  | found document =>
    have hkeeps : s.Evolves .none (document.toPlan setting name s).2 :=
      document.keepsTo_toPlan setting name s (.refl s)
    simp only [bind_apply]
    rcases hp : document.toPlan setting name s with ⟨_ | plan, s₁⟩
    · exact .finish _ _ rfl
    · rw [hp] at hkeeps
      have hgrown : s.Grows (RunM.register name plan s₁).2 :=
        hkeeps.grows.trans ⟨Nat.le_refl _, Nat.le_refl _, Nat.le_refl _⟩
      exact turns_serve (fun c hmem => (hc c hmem).grows hgrown) hgrown rfl (List.Subset.refl _)
        name _
  | missing =>
    cases accept with
    | none => exact .finish _ _ rfl
    | some accept => exact .ask name _ none purpose (.inr rfl) _
  | never => exact .ask name accept accept purpose (.inr rfl) _

end Purpose

/-! ### Tasks -/

namespace Task

variable {t t' : Task} {s' : RunState}

theorem turns_act (hc : ∀ c ∈ t.contexts, c.IsIn s) :
    Turns setting s t (t.act setting s).1 (t.act setting s).2 := by
  cases t with
  | finished o => exact .stay s rfl
  | clauses f nodes input => exact f.turns_runClauses nodes input
  | fetching f nodes v input fetches => exact .fetched f nodes v input fetches s
  | iterating f nodes i branches error =>
    by_cases hi : i.isAudible s.isClosed = true
    · simp only [act, bind_apply, get_apply, hi, if_true]
      exact .hear f nodes i branches error _ s
    · simp only [act, bind_apply, get_apply, hi]
      exact .finish _ _ rfl
  | selecting f select input =>
    simp only [act, bind_apply]
    cases (RunM.lifecycle Lifecycle.acquire s).1 with
    | granted permit => exact .permit f select input _ _
    | pending => exact .stay _ rfl
    | refused => exact .permit f select input _ _
  | evaluating f select input permit => exact f.turns_evaluate select input permit
  | assembling f input => exact Frame.turns_assemble (hc _ List.mem_cons_self) input
  | generating g nodes stage running error => exact g.turns_collect nodes stage running error
  | writing w => exact w.turns_advance
  | nesting w sink inner => exact w.turns_collect sink inner
  | entering name purpose => exact Purpose.turns_enter hc name
  | asking name accept purpose => exact Purpose.turns_receive hc name accept

theorem turns_actItem {index : Nat} (hready : t.isItemReady setting s index = true) :
    Turns setting s t (t.actItem setting index s).1 (t.actItem setting index s).2 := by
  cases t with
  | fetching f nodes v input fetches =>
    simp only [actItem]
    cases hf : fetches[index]? with
    | some fetch => exact .fetch f nodes v input hf _
    | none => exact .stay _ rfl
  | iterating f nodes i branches error => exact .tell f nodes i branches error index s
  | _ => simp [isItemReady] at hready

/-- A task that acts turns into one of what its kind and its plan determine. -/
theorem turns_actOn? {item? : Option Nat} (h : t.actOn? setting item? s = some (t', s'))
    (hc : ∀ c ∈ t.contexts, c.IsIn s) : Turns setting s t t' s' := by
  unfold actOn? at h
  split at h
  · split at h
    · have hturns : Turns setting s t (t.act setting s).1 (t.act setting s).2 := turns_act hc
      rwa [Option.some.inj h] at hturns
    · cases h
  · split at h
    · next hready =>
      have := turns_actItem hready
      rwa [Option.some.inj h] at this
    · cases h

/-! ### Tasks that are started below others -/

/-- A task that another one starts below itself when it acts. -/
inductive Begets : Task → Task → Prop where
  | branch {f : Frame} {nodes : List PlanNode} {i : Iteration} {branches : List Task}
      {error : Outcome} {wantsEmpty : Bool} {q : Sequence}
      (hq : q ∈ (i.hear.takeSequences wantsEmpty).1) :
    Begets (.iterating f nodes i branches error) (.clauses f nodes q)
  | nested {g : Generation} {plan : Plan} {nodes : List PlanNode} {running : List Task}
      {error : Outcome} {c : Context} {u : Solution} (hs : (c, u) ∈ g.sites) :
    Begets (.generating g (.plan plan :: nodes) .idle running error)
      (.ofPlan c plan (g.input.withSolutions [u]))
  | resolve (t : Task) (name : Iri) : Begets t (.entering name .resolve)
  | call {g : Generation} {nodes : List PlanNode} {plan : CallPlan} {calls : List (Iri × Solution)}
      {running : List Task} {error : Outcome} {name : Iri} {u : Solution} :
    Begets (.generating g nodes (.resolving plan calls) running error)
      (.entering name (.call g.fork plan.arguments u true))
  | embedded {w : Writing} {sink : SinkId} {plan : Plan} {u : Solution}
      (hp : .plan plan ∈ w.parts) (hu : u ∈ w.solutions) :
    Begets (.writing w) (.ofPlan { w.context with sink } plan (w.input.withSolutions [u]))
  | embeddedCall {w : Writing} {sink : SinkId} {name : Iri} {call : CallPlan} {u : Solution}
      (hcall : .call call ∈ w.parts) :
    Begets (.writing w) (.entering name (.call { w.context with sink } call.arguments u false))

/-- Below a task that has just been started there is none yet. -/
theorem Begets.inside?_eq_none (h : t.Begets t') (k : Nat) : t'.inside? k = none := by
  cases h <;> rfl

/-- Below a task that has acted there is what was there before, and what it has started. -/
theorem Turns.inside (h : Turns setting s t t' s') {k : Nat} {inner : Task}
    (hi : t'.inside? k = some inner) :
    (∃ j, t.inside? j = some inner) ∨ t.Begets inner := by
  cases h with
  | stay => exact .inl ⟨k, hi⟩
  | tell => exact .inl ⟨k, hi⟩
  | hear f nodes i branches error wantsEmpty =>
    rcases List.mem_append.mp (List.mem_of_getElem? hi) with hold | hnew
    · exact .inl (List.getElem?_of_mem hold)
    · obtain ⟨q, hq, rfl⟩ := List.mem_map.mp hnew
      exact .inr (.branch hq)
  | nest g plan =>
    obtain ⟨⟨c, u⟩, hs, rfl⟩ := List.mem_map.mp (List.mem_of_getElem? hi)
    exact .inr (.nested hs)
  | resolve g call =>
    obtain ⟨name, -, rfl⟩ := List.mem_map.mp (List.mem_of_getElem? hi)
    exact .inr (.resolve _ name)
  | resolved g nodes call calls =>
    obtain ⟨⟨name, u⟩, -, rfl⟩ := List.mem_map.mp (List.mem_of_getElem? hi)
    exact .inr .call
  | embed hw sink hp hu =>
    rw [inside?] at hi
    split at hi
    · obtain rfl := Option.some.inj hi
      exact .inr (.embedded hp hu)
    · cases hi
  | embedCall hw sink name call u _ _ hcall =>
    rw [inside?] at hi
    split at hi
    · obtain rfl := Option.some.inj hi
      exact .inr (.embeddedCall hcall)
    · cases hi
  | generate | generated | triples | refuse | nested | called => simp [inside?] at hi
  | _ => cases hi

end Task

end TripleLoom
