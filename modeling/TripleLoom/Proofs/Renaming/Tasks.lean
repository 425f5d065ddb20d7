import TripleLoom.Proofs.Renaming.Outputs
import TripleLoom.Run.Execution

/-!
# TripleLoom.Proofs.Renaming.Tasks — two runs side by side

Two tasks are alike if they are at the same point of the same plans, in contexts, solutions and
permits that are alike (`Task.Like`).  Tasks that are alike can make the same moves, and are alike
after each of them (`Task.rel_step`), and so runs that are alike stay so whatever moves they make
(`Run.rel_replay`).
-/

namespace TripleLoom

open List (Forall₂)
open RunM (Matches)

variable {A : Alignment}

/-! ### Tasks -/

/-- Frames of one plan. -/
inductive Frame.Like (A : Alignment) : Frame → Frame → Prop where
  | mk (plan : Plan) {c c' : Context} (hc : Context.Like A c c') : Like A ⟨plan, c⟩ ⟨plan, c'⟩

/-- Purposes of the same kind. -/
inductive Purpose.Like (A : Alignment) : Purpose → Purpose → Prop where
  | resolve : Like A .resolve .resolve
  | call {c c' : Context} (hc : Context.Like A c c') (arguments : Option (List Expression))
    {s s' : Solution} (hs : Solution.Like A.pairing s s') (once : Bool) :
    Like A (.call c arguments s once) (.call c' arguments s' once)

/-- Generations for solutions that are alike. -/
structure Generation.Like (A : Alignment) (g g' : Generation) : Prop where
  fork : Context.ForkLike A g.fork g'.fork
  contexts : Forall₂ (Context.Like A) g.contexts g'.contexts
  input : Sequence.Like A.pairing g.input g'.input

/-- Calls of the same names for solutions that are alike. -/
abbrev CallsLike (p : Pairing) : List (Iri × Solution) → List (Iri × Solution) → Prop :=
  Forall₂ fun x y => x.1 = y.1 ∧ Solution.Like p x.2 y.2

/-- The same stages. -/
inductive Stage.Like (p : Pairing) : Stage → Stage → Prop where
  | idle : Like p .idle .idle
  | nested : Like p .nested .nested
  | resolving (call : CallPlan) {calls calls' : List (Iri × Solution)}
    (h : CallsLike p calls calls') : Like p (.resolving call calls) (.resolving call calls')
  | calling (resolved : Outcome) : Like p (.calling resolved) (.calling resolved)

/-- Texts at the same point. -/
inductive Writing.Like (A : Alignment) : Writing → Writing → Prop where
  | mk {c c' : Context} (hc : Context.Like A c c') (plan : TemplatePlan) {q q' : Sequence}
    (hq : Sequence.Like A.pairing q q') (isFirst : Bool) {solutions solutions' : List Solution}
    (hs : Forall₂ (Solution.Like A.pairing) solutions solutions')
    (current : Option (String × List TemplatePart)) :
    Like A ⟨c, plan, q, isFirst, solutions, current⟩ ⟨c', plan, q', isFirst, solutions', current⟩

/-- Tasks at the same point of the same plans. -/
inductive Task.Like (A : Alignment) : Task → Task → Prop where
  | finished (outcome : Outcome) : Like A (.finished outcome) (.finished outcome)
  | clauses {f f' : Frame} (hf : Frame.Like A f f') (nodes : List PlanNode) {q q' : Sequence}
    (hq : Sequence.Like A.pairing q q') : Like A (.clauses f nodes q) (.clauses f' nodes q')
  | fetching {f f' : Frame} (hf : Frame.Like A f f') (nodes : List PlanNode) (v : Variable)
    {q q' : Sequence} (hq : Sequence.Like A.pairing q q') {fetches fetches' : List Fetch}
    (h : Forall₂ (Fetch.Like A) fetches fetches') :
    Like A (.fetching f nodes v q fetches) (.fetching f' nodes v q' fetches')
  | iterating {f f' : Frame} (hf : Frame.Like A f f') (nodes : List PlanNode) {i i' : Iteration}
    (hi : Iteration.Like A.pairing i i') {branches branches' : List Task}
    (h : Forall₂ (Like A) branches branches') (error : Outcome) :
    Like A (.iterating f nodes i branches error) (.iterating f' nodes i' branches' error)
  | selecting {f f' : Frame} (hf : Frame.Like A f f') (select : Select) {q q' : Sequence}
    (hq : Sequence.Like A.pairing q q') : Like A (.selecting f select q) (.selecting f' select q')
  | evaluating {f f' : Frame} (hf : Frame.Like A f f') (select : Select) {q q' : Sequence}
    (hq : Sequence.Like A.pairing q q') {permit permit' : Option Nat}
    (hp : Option.Rel A.permits permit permit') :
    Like A (.evaluating f select q permit) (.evaluating f' select q' permit')
  | assembling {f f' : Frame} (hf : Frame.Like A f f') {q q' : Sequence}
    (hq : Sequence.Like A.pairing q q') : Like A (.assembling f q) (.assembling f' q')
  | generating {g g' : Generation} (hg : Generation.Like A g g') (nodes : List PlanNode)
    {stage stage' : Stage} (hs : Stage.Like A.pairing stage stage') {running running' : List Task}
    (h : Forall₂ (Like A) running running') (error : Outcome) :
    Like A (.generating g nodes stage running error) (.generating g' nodes stage' running' error)
  | writing {w w' : Writing} (hw : Writing.Like A w w') : Like A (.writing w) (.writing w')
  | nesting {w w' : Writing} (hw : Writing.Like A w w') {sink sink' : SinkId}
    (hs : Shifted A.first.nextSink A.second.nextSink sink sink') {inner inner' : Task}
    (h : Like A inner inner') : Like A (.nesting w sink inner) (.nesting w' sink' inner')
  | entering (name : Iri) {p p' : Purpose} (hp : Purpose.Like A p p') :
    Like A (.entering name p) (.entering name p')
  | asking (name : Iri) (accept : Option String) {p p' : Purpose} (hp : Purpose.Like A p p') :
    Like A (.asking name accept p) (.asking name accept p')

namespace Task

theorem Like.failed (e : RunError) : Like A (.failed e) (.failed e) := .finished _

theorem Like.isFinished {t t' : Task} (h : Like A t t') : t.isFinished = t'.isFinished := by
  cases h <;> rfl

theorem Like.outcome {t t' : Task} (h : Like A t t') : t.outcome = t'.outcome := by
  cases h <;> rfl

theorem firstError_eq {tasks tasks' : List Task} (h : Forall₂ (Like A) tasks tasks') :
    firstError tasks = firstError tasks' :=
  eq_of_rel <| rel_findSome? h fun t t' ht => by
    rw [ht.outcome]
    exact rel_option_refl fun _ _ => rfl

theorem like_ofPlan {c c' : Context} (hc : Context.Like A c c') (plan : Plan) {q q' : Sequence}
    (hq : Sequence.Like A.pairing q q') : Like A (.ofPlan c plan q) (.ofPlan c' plan q') :=
  .clauses (.mk plan (hc.withBase plan.base)) plan.bindings hq

end Task

/-! ### Clauses and the select part -/

variable {setting : Setting}

namespace Frame.Like

variable {f f' : Frame} (hf : Like A f f')

include hf

theorem runClauses (hsetting : setting.IsGeneric A.pairing) {q q' : Sequence}
    (hq : Sequence.Like A.pairing q q') : ∀ nodes : List PlanNode,
    Matches A (Task.Like A) (f.runClauses setting q nodes) (f'.runClauses setting q' nodes)
  | .clause (.bind e v) :: rest => by
    obtain ⟨plan, hc⟩ := hf
    exact .bind (hc.bindAll hsetting.functions e v hq) fun _ _ h =>
      .pure (.clauses (.mk plan hc) rest h)
  | .clause (.source document accept v) :: rest =>
    .pure (.fetching hf rest v (hq.declare v)
      (List.rel_map (fun _ _ h => .ofSolution document accept h) hq.solutions))
  | .clause (.iterator name arguments vars) :: rest => by
    obtain ⟨plan, hc⟩ := hf
    unfold Frame.runClauses
    cases hfunction : setting.functions.iterator? name with
    | none =>
      simp only [hfunction]
      exact .pure (.failed _)
    | some function =>
      simp only [hfunction]
      refine .bind .get fun state state' hstate => ?_
      rw [hstate.isClosed]
      split
      · exact .pure (.finished none)
      · exact .bind (Iteration.matches_start hsetting.functions hc
          (hsetting.functions.iterator name function hfunction) name arguments vars hq)
          fun _ _ h => .pure (.iterating (.mk plan hc) rest h .nil none)
  | [] => by
    obtain ⟨plan, hc⟩ := hf
    unfold Frame.runClauses
    dsimp only
    split
    · exact .pure (.assembling (.mk plan hc) hq)
    · rw [hq.isEmpty]
      split
      · exact .pure (.failed _)
      · refine .pure (.selecting (.mk plan hc) _ ?_)
        split
        · exact .unit
        · exact hq
    · exact .pure (.failed _)
  | .select _ :: _ | .triples _ :: _ | .call _ :: _ | .template _ :: _ | .plan _ :: _ =>
    .pure (.failed _)

theorem evaluate (hsetting : setting.IsGeneric A.pairing) (select : Select) {q q' : Sequence}
    (hq : Sequence.Like A.pairing q q') {permit permit' : Option Nat}
    (hp : Option.Rel A.permits permit permit') :
    Matches A (Task.Like A) (f.evaluate setting select q permit)
      (f'.evaluate setting select q' permit') := by
  unfold Frame.evaluate
  cases hengine : setting.engine with
  | none => exact .pure (.failed _)
  | some engine =>
    have hrelease : InStep (Lifecycle.Like A) Eq (fun l => ((), (permit.map l.release).getD l))
        fun l => ((), (permit'.map l.release).getD l) := by
      intro l l' hl
      cases hp with
      | none => exact ⟨rfl, hl⟩
      | some hp => exact ⟨rfl, hl.release hp⟩
    refine .bind .get fun state state' _ => .bind (.note (.evaluated select hq)) fun _ _ _ =>
      .bind (.lifecycle hrelease) fun _ _ _ => ?_
    have hreply := hsetting.engine engine hengine state.evaluations state'.evaluations select _ _ hq
    generalize engine state.evaluations select q = reply at hreply ⊢
    generalize engine state'.evaluations select q' = reply' at hreply ⊢
    cases hreply with
    | solutions h => exact .pure (.assembling hf h)
    | failed e => exact .pure (.failed _)
    | crashed => exact .pure (.failed _)

/-! ### Output -/

theorem generate (nodes : List PlanNode) {q q' : Sequence} (hq : Sequence.Like A.pairing q q') :
    Matches A (Task.Like A) (f.generate nodes q) (f'.generate nodes q') := by
  obtain ⟨plan, hc⟩ := hf
  unfold Frame.generate
  rw [hq.size]
  refine .bind (hc.forkFor q'.size) fun fork fork' hfork =>
    .bind (.scopes (Scopes.inStep_children hfork.scope q'.size)) fun _ _ hscopes => ?_
  have hcontexts := List.rel_map (P := Context.Like A) (fun scope scope' hscope =>
    show Context.Like A { fork with scope } { fork' with scope := scope' } from
      ⟨hfork.sink, hscope, hfork.base⟩) hscopes
  exact .pure (.generating ⟨hfork, hcontexts, hq⟩ nodes .idle .nil none)

theorem output {q q' : Sequence} (hq : Sequence.Like A.pairing q q') :
    Matches A (Task.Like A) (f.output q) (f'.output q') := by
  have hgenerate := fun nodes => hf.generate nodes hq
  obtain ⟨plan, hc⟩ := hf
  unfold Frame.output
  dsimp only
  split
  · exact hgenerate _
  · exact .pure (.writing (.mk hc _ hq true hq.solutions none))
  · exact .pure (.failed _)
  · rw [hq.vars]
    exact .bind (.forM (P := Solution.Like A.pairing)
      (fun _ _ hs => hc.write (.solution _ hs)) hq.solutions) fun _ _ _ => .pure (.finished none)

theorem assemble (hsetting : setting.IsGeneric A.pairing) :
    ∀ (nodes : List PlanNode) {q q' : Sequence}, Sequence.Like A.pairing q q' →
      Matches A (Task.Like A) (f.assemble setting q nodes) (f'.assemble setting q' nodes)
  | [], _, _, hq => hf.output hq
  | .clause (.bind e v) :: rest, _, _, hq => by
    have hrest := fun {q q' : Sequence} (h : Sequence.Like A.pairing q q') =>
      assemble hsetting rest h
    obtain ⟨plan, hc⟩ := hf
    exact .bind (hc.bindAll hsetting.functions e v hq) fun _ _ h => hrest h
  | .clause (.iterator ..) :: _, _, _, _ | .clause (.source ..) :: _, _, _, _
  | .select _ :: _, _, _, _ | .triples _ :: _, _, _, _ | .call _ :: _, _, _, _
  | .template _ :: _, _, _, _ | .plan _ :: _, _, _, _ => .pure (.failed _)

end Frame.Like

namespace Generation.Like

variable {g g' : Generation} (hg : Like A g g')

include hg

theorem sites : Forall₂ (fun x y => Context.Like A x.1 y.1 ∧ Solution.Like A.pairing x.2 y.2)
    g.sites g'.sites := rel_zip hg.contexts hg.input.solutions

theorem nestedRuns (plan : Plan) : Forall₂ (Task.Like A) (g.nestedRuns plan) (g'.nestedRuns plan) :=
  List.rel_map (fun _ _ h => Task.like_ofPlan h.1 plan (hg.input.single h.2)) hg.sites

theorem calls (call : CallPlan) : CallsLike A.pairing (g.calls call) (g'.calls call) := by
  refine List.rel_filterMap (fun s s' hs => ?_) hg.input.solutions
  rw [hs.name?]
  exact rel_option_map (R := Eq) (rel_option_refl fun _ _ => rfl) fun _ _ h => ⟨h, hs⟩

theorem advance (error : Outcome) (nodes : List PlanNode) :
    Matches A (Task.Like A) (g.advance error nodes) (g'.advance error nodes) := by
  cases nodes with
  | nil => exact .pure (.finished error)
  | cons node rest =>
    cases node with
    | triples plan =>
      exact .bind (plan.matches_writeAll hg.fork 0 hg.sites) fun _ _ _ =>
        .pure (.generating hg rest .idle .nil error)
    | plan plan => exact .pure (.generating hg rest .nested (hg.nestedRuns plan) error)
    | call call =>
      have hcalls := hg.calls call
      have hnames : (g.calls call).map (·.1) = (g'.calls call).map (·.1) := by
        rw [← List.forall₂_eq_eq_eq, List.forall₂_map_left_iff, List.forall₂_map_right_iff]
        exact hcalls.imp fun _ _ h => h.1
      refine .pure (.generating hg rest (.resolving call hcalls) ?_ error)
      rw [hnames, List.forall₂_map_left_iff, List.forall₂_map_right_iff, List.forall₂_same]
      exact fun name _ => .entering name .resolve
    | clause | select | template => exact .pure (.generating hg rest .idle .nil _)

theorem collect (nodes : List PlanNode) {running running' : List Task}
    (h : Forall₂ (Task.Like A) running running') (error : Outcome) {stage stage' : Stage}
    (hs : Stage.Like A.pairing stage stage') :
    Matches A (Task.Like A) (g.collect nodes running error stage)
      (g'.collect nodes running' error stage') := by
  have hfirst := Task.firstError_eq h
  cases hs with
  | idle => exact hg.advance error nodes
  | nested =>
    unfold Generation.collect
    rw [hfirst]
    exact .pure (.generating hg nodes .idle .nil _)
  | resolving call hcalls =>
    unfold Generation.collect
    rw [hfirst]
    exact .pure (.generating hg nodes (.calling _) (List.rel_map (fun x y hxy => by
      obtain ⟨name, s⟩ := x
      obtain ⟨_, s'⟩ := y
      obtain ⟨rfl, hs⟩ := hxy
      exact .entering name (.call hg.fork.toLike call.arguments hs true)) hcalls) error)
  | calling resolved =>
    unfold Generation.collect
    rw [hfirst]
    exact .pure (.generating hg nodes .idle .nil _)

end Generation.Like

namespace Writing.Like

variable {w w' : Writing}

theorem resume (hw : Like A w w') (text : String) (parts : List TemplatePart) :
    Task.Like A (w.resume text parts) (w'.resume text parts) := by
  obtain ⟨hc, plan, hq, isFirst, hs, current⟩ := hw
  exact .writing (.mk hc plan hq isFirst hs _)

theorem advance (hw : Like A w w') (hsetting : setting.IsGeneric A.pairing) :
    Matches A (Task.Like A) (w.advance setting) (w'.advance setting) := by
  have hresume := hw.resume
  cases hw with
  | @mk c c' hc plan q q' hq isFirst _ _ hsolutions current =>
  have htext := fun (e : Option Expression) {s s' : Solution} (hs : Solution.Like A.pairing s s') =>
    hc.textOf hsetting.functions hs e
  have hsink : ∀ {sink sink' : SinkId}, Shifted A.first.nextSink A.second.nextSink sink sink' →
      Context.Like A { c with sink } { c' with sink := sink' } := fun h =>
    ⟨.inr h, hc.scope, hc.base⟩
  cases hsolutions with
  | nil => exact .pure (.finished none)
  | @cons s s' rest rest' hs hrest =>
    rcases current with _ | ⟨text, _ | ⟨part, parts⟩⟩
    · exact .bindEq (htext _ hs) fun text => .pure (hresume text plan.parts)
    · have hend : ∀ closing : String, Matches A (Task.Like A)
          (do
            c.write (.text (text ++ closing))
            return .writing ⟨c, plan, q, false, rest, none⟩)
          (do
            c'.write (.text (text ++ closing))
            return .writing ⟨c', plan, q', false, rest', none⟩) := fun closing =>
        .bind (hc.write (.text _)) fun _ _ _ => .pure (.writing (.mk hc plan hq false hrest none))
      -- what comes behind the text is written for the last solution alone
      unfold Writing.advance
      dsimp only
      rw [isEmpty_of_rel hrest]
      split
      · exact .bindEq (htext _ hs) hend
      · exact hend ""
    · cases part with
      | expression e =>
        exact .bindEq (htext _ hs) fun value => .pure (hresume (text ++ value) parts)
      | plan inner =>
        exact .bind .newSink fun _ _ h => .pure (.nesting
          (.mk hc plan hq isFirst (.cons hs hrest) _) h
          (Task.like_ofPlan (hsink h) inner (hq.single hs)))
      | call call =>
        unfold Writing.advance
        dsimp only
        rw [hs.name?]
        split
        · exact .pure (hresume text parts)
        · exact .bind .newSink fun _ _ h => .pure (.nesting
            (.mk hc plan hq isFirst (.cons hs hrest) _) h
            (.entering _ (.call (hsink h) call.arguments hs false)))

theorem collect (hw : Like A w w') {sink sink' : SinkId}
    (hs : Shifted A.first.nextSink A.second.nextSink sink sink') (outcome : Outcome) :
    Matches A (Task.Like A) (w.collect sink outcome) (w'.collect sink' outcome) := by
  obtain ⟨hc, plan, hq, isFirst, hsolutions, current⟩ := hw
  cases outcome with
  | some e => exact .pure (.failed e)
  | none =>
    refine .bind .get fun state state' hstate => ?_
    rw [hstate.text_output hs]
    exact .pure (.writing (.mk hc plan hq isFirst hsolutions _))

end Writing.Like

/-! ### Named queries -/

theorem Document.matches_toPlan (d : Document) (name : Iri) :
    Matches A Eq (d.toPlan setting name) (d.toPlan setting name) := by
  unfold Document.toPlan
  split
  · exact .pure rfl
  · refine .bind (.note (.parsed _ _)) fun _ _ _ => ?_
    split
    · exact .pure rfl
    · split <;> exact .pure rfl

/-- A plan that is started for a call reads of the caller's context the sink it writes into, and the
base IRI if it has none itself. -/
theorem Context.matches_startCall {c c' : Context} (hsink : A.sinks c.sink c'.sink) {plan : Plan}
    (hbase : plan.base.or c.base = plan.base.or c'.base) {call call' : CallKey}
    (hcall : CallKey.Like A.pairing call call') {s s' : Solution}
    (hs : Solution.Like A.pairing s s') (once once' : Bool) :
    Matches A (Task.Like A) (c.startCall call plan s once) (c'.startCall call' plan s' once') := by
  have hfresh : Matches A
      (fun d d' => Context.Like A (d.withBase plan.base) (d'.withBase plan.base))
      c.inFreshScope c'.inFreshScope :=
    .bind (.scopes Scopes.inStep_root) fun _ _ h => .pure ⟨hsink, h, hbase⟩
  exact .bind (.note (.started hcall plan once once')) fun _ _ _ => .bind hfresh fun _ _ hc =>
    .pure (.clauses (.mk plan hc) plan.bindings ⟨rfl, .cons hs .nil⟩)

namespace Purpose.Like

variable {purpose purpose' : Purpose} (hp : Like A purpose purpose')
  (hsetting : setting.IsGeneric A.pairing)

include hp hsetting

theorem serve (name : Iri) (plan : Plan) :
    Matches A (Task.Like A) (purpose.serve setting name plan)
      (purpose'.serve setting name plan) := by
  cases hp with
  | resolve => exact .pure (.finished none)
  | call hc arguments hs once =>
    refine .bind (hc.parameters hsetting.functions hs name plan arguments) fun _ _ h => ?_
    cases h with
    | error e => exact .pure (.failed e)
    | ok hsolution =>
      have hcall := CallKey.like_ofSolution hsolution name plan.signature
      have hstart := Context.matches_startCall hc.sink (congrArg plan.base.or hc.base) hcall
        hsolution
      cases once with
      | false => exact hstart false false
      | true =>
        refine .bindEq (.recordCall hcall) fun isNew => ?_
        cases isNew with
        | true => exact hstart true true
        | false => exact .bind (.note (.skipped hcall)) fun _ _ _ => .pure (.finished none)

theorem enter (name : Iri) :
    Matches A (Task.Like A) (purpose.enter setting name) (purpose'.enter setting name) := by
  refine .bind .get fun state state' hstate => ?_
  rw [hstate.registry]
  split
  · exact hp.serve hsetting name _
  · exact .bind (.note (.opened _ _)) fun _ _ _ => .pure (.asking name _ hp)

theorem receive (name : Iri) (accept : Option String) :
    Matches A (Task.Like A) (purpose.receive setting name accept)
      (purpose'.receive setting name accept) := by
  unfold Purpose.receive
  split
  · refine .bindEq (Document.matches_toPlan _ name) fun plan => ?_
    split
    · exact .pure (.failed _)
    · exact .bindEq (.register name _) fun plan => hp.serve hsetting name plan
  · exact .bind (.note (.opened _ _)) fun _ _ _ => .pure (.asking name none hp)
  · exact .pure (.failed _)
  · exact .pure (.asking name _ hp)

end Purpose.Like

/-! ### Moves -/

namespace Task.Like

variable {t t' : Task} (h : Like A t t') {s s' : RunState}

include h

theorem isReady (hs : RunState.Like A s s') : t.isReady setting s = t'.isReady setting s' := by
  cases h with
  | fetching _ _ _ _ h => exact all_of_rel h fun _ _ hf => hf.isDone
  | iterating _ _ hi h =>
    simp only [Task.isReady, hi.isAudible, hi.isListening, hs.isClosed, isEmpty_of_rel h]
  | selecting => simp only [Task.isReady, hs.isClosed, hs.lifecycle.available]
  | generating _ _ _ h => exact all_of_rel h fun _ _ ht => ht.isFinished
  | nesting _ _ h => exact h.isFinished
  | _ => rfl

theorem isItemReady (hs : RunState.Like A s s') (index : Nat) :
    t.isItemReady setting s index = t'.isItemReady setting s' index := by
  cases h with
  | fetching _ _ _ _ h => exact Fetch.isReadyAt_eq setting hs.lifecycle h index
  | iterating _ _ hi =>
    unfold Task.isItemReady
    rw [hs.isClosed]
    exact hi.isReadyAt _ index
  | _ => rfl

theorem inside? (index : Nat) : Option.Rel (Like A) (t.inside? index) (t'.inside? index) := by
  cases h with
  | iterating _ _ _ h | generating _ _ _ h => exact rel_getElem? h index
  | @nesting _ _ _ _ _ _ inner inner' h =>
    show Option.Rel _ (if index = 0 then some inner else none)
      (if index = 0 then some inner' else none)
    split
    · exact .some h
    · exact .none
  | _ => exact .none

theorem replaceInside (index : Nat) {inner inner' : Task} (hi : Like A inner inner') :
    Like A (Task.replaceInside index inner t) (Task.replaceInside index inner' t') := by
  have hsame := h
  cases h with
  | @iterating f f' hf nodes i i' hiteration branches branches' h error =>
    show Like A
      (if inner.isFinished then
        .iterating f nodes i (branches.eraseIdx index) (error.or inner.outcome)
      else .iterating f nodes i (branches.set index inner) error)
      (if inner'.isFinished then
        .iterating f' nodes i' (branches'.eraseIdx index) (error.or inner'.outcome)
      else .iterating f' nodes i' (branches'.set index inner') error)
    rw [hi.isFinished, hi.outcome]
    split
    · exact .iterating hf nodes hiteration (rel_eraseIdx h index) _
    · exact .iterating hf nodes hiteration (rel_set h hi index) error
  | generating hg nodes hstage h error =>
    exact .generating hg nodes hstage (rel_set h hi index) error
  | nesting hw hsink => exact .nesting hw hsink hi
  | _ => exact hsame

theorem actItem (index : Nat) :
    Matches A (Like A) (t.actItem setting index) (t'.actItem setting index) := by
  have hsame : Matches A (Like A) (Pure.pure t) (Pure.pure t') := .pure h
  cases h with
  | @fetching f f' hf nodes v q q' hq fetches fetches' h =>
    have hat := rel_getElem? h index
    dsimp only [Task.actItem]
    generalize fetches[index]? = fetch at hat ⊢
    generalize fetches'[index]? = fetch' at hat ⊢
    cases hat with
    | none => exact hsame
    | some hfetch =>
      exact .bind (hfetch.advance setting.resolver v) fun _ _ hnext =>
        .pure (.fetching hf nodes v hq (rel_set h hnext index))
  | iterating hf nodes hi h error => exact .pure (.iterating hf nodes (hi.tell index) h error)
  | _ => exact hsame

theorem act (hsetting : setting.IsGeneric A.pairing) :
    Matches A (Like A) (t.act setting) (t'.act setting) := by
  cases h with
  | finished outcome => exact .pure (.finished outcome)
  | clauses hf nodes hq => exact hf.runClauses hsetting hq nodes
  | fetching hf nodes v hq h =>
    exact .pure (.clauses hf nodes (hq.withSolutions (List.rel_map (fun _ _ hf => hf.solution) h)))
  | @iterating f f' hf nodes i i' hi branches branches' h error =>
    refine .bind .get fun state state' hstate => ?_
    rw [hi.isAudible, hstate.isClosed]
    obtain ⟨plan, hc⟩ := hf
    split
    · obtain ⟨hsequences, hnext⟩ := hi.hear.takeSequences plan.select.isSome
      exact .pure (.iterating (.mk plan hc) nodes hnext (List.rel_append h
        (List.rel_map (fun _ _ hq => .clauses (.mk plan hc) nodes hq) hsequences)) error)
    · exact .pure (.finished error)
  | selecting hf select hq =>
    refine .bind (.lifecycle Lifecycle.inStep_acquire) fun _ _ hacquired => ?_
    cases hacquired with
    | granted hp => exact .pure (.evaluating hf select hq (.some hp))
    | pending => exact .pure (.selecting hf select hq)
    | refused => exact .pure (.evaluating hf select hq .none)
  | evaluating hf select hq hp => exact hf.evaluate hsetting select hq hp
  | assembling hf hq =>
    have hassemble := fun nodes => hf.assemble hsetting nodes hq
    obtain ⟨plan, hc⟩ := hf
    exact hassemble plan.postSelect
  | generating hg nodes hstage h error => exact hg.collect nodes h error hstage
  | writing hw => exact hw.advance hsetting
  | @nesting w w' hw sink sink' hsink inner inner' h =>
    show Matches A _ (w.collect sink inner.outcome) (w'.collect sink' inner'.outcome)
    rw [h.outcome]
    exact hw.collect hsink inner'.outcome
  | entering name hp => exact hp.enter hsetting name
  | asking name accept hp => exact hp.receive hsetting name accept

end Task.Like

/-- Tasks that are alike, in states that are alike, can make the same moves, and are alike after
them. -/
theorem Task.rel_step (hsetting : setting.IsGeneric A.pairing) (move : Move) {t t' : Task}
    (h : Task.Like A t t') {s s' : RunState} (hs : RunState.Like A s s') :
    Option.Rel (fun x y => Task.Like A x.1 y.1 ∧ RunState.Like A x.2 y.2)
      (t.step setting move s) (t'.step setting move s') := by
  induction move generalizing t t' s s' with
  | here =>
    unfold Task.step
    rw [h.isReady hs]
    split
    · exact .some (h.act hsetting s s' hs)
    · exact .none
  | item index =>
    unfold Task.step
    rw [h.isItemReady hs]
    split
    · exact .some (h.actItem index s s' hs)
    · exact .none
  | inside index move ih =>
    refine rel_bind (h.inside? index) fun inner inner' hinner => rel_bind (ih hinner hs) ?_
    exact fun x y hxy => .some ⟨h.replaceInside index hxy.1, hxy.2⟩

/-! ### Runs -/

/-- Runs at the same point. -/
structure Run.Like (A : Alignment) (r r' : Run) : Prop where
  task : Task.Like A r.task r'.task
  state : RunState.Like A r.state r'.state

theorem Run.rel_step (hsetting : setting.IsGeneric A.pairing) {r r' : Run} (h : Run.Like A r r')
    (move : RunMove) : Option.Rel (Run.Like A) (r.step setting move) (r'.step setting move) := by
  cases move with
  | close =>
    exact .some ⟨h.task, { h.state with lifecycle := h.state.lifecycle.close }⟩
  | work move =>
    exact rel_bind (Task.rel_step hsetting move h.task h.state) fun _ _ hstep =>
      .some ⟨hstep.1, hstep.2⟩

/-- Runs that are alike can make the same moves, and are alike in the end. -/
theorem Run.rel_replay (hsetting : setting.IsGeneric A.pairing) (moves : List RunMove)
    {r r' : Run} (h : Run.Like A r r') :
    Option.Rel (Run.Like A) (r.replay setting moves) (r'.replay setting moves) := by
  induction moves generalizing r r' with
  | nil => exact .some h
  | cons move rest ih => exact rel_bind (Run.rel_step hsetting h move) fun _ _ hnext => ih hnext

end TripleLoom
