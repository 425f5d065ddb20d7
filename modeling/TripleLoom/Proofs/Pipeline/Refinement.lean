import TripleLoom.Proofs.Pipeline.Handover
import TripleLoom.Proofs.Run.Once

/-!
# TripleLoom.Proofs.Pipeline.Refinement — a run of a pipeline is its nested loops

What a whole run of a pipeline writes is what its nested loops come to, each solution with blank
nodes of its own, whatever the order of its moves (`Run.writes_nested_loops`): all moves keep the
accounts, and at the end of a run there are no parts left, so that all that was owed has been named
and written.  A close does no harm once nothing is waited for.  Before that it may, also after the
last stream has ended: it breaks the fetches off that are still to be made.
-/

namespace TripleLoom

open RunM

/-- What is announced of a plan. -/
def Plan.announcement (plan : Plan) : List SinkCall :=
  .start :: plan.prefixes.map (fun (name, iri) => .prefixName name iri) ++
    plan.base.toList.map (.base ·.text)

/-- A plan of clauses and plain templates. -/
structure Plan.IsPipeline (plan : Plan) (clauses : List BindingClause)
    (templates : List (List TripleTemplate)) : Prop where
  bindings : plan.bindings = clauses.map .clause
  select : plan.select = none
  postSelect : plan.postSelect = []
  output : plan.output = .generate (templates.map fun ts => .triples ⟨ts, []⟩)

/-- Whether all streams that a task waits for have ended. -/
def Task.areStreamsOver (t : Task) : Bool :=
  t.parts.all fun
    | .iterating _ _ i _ _ => i.feeds.all Feed.isOver
    | _ => true

namespace Run

/-- Whether a run is closed, if at all, only when something holds of its task. -/
def closesWhen (ok : Task → Bool) (setting : Setting) : Run → List RunMove → Bool
  | _, [] => true
  | r, move :: rest =>
    (move ≠ .close || ok r.task) &&
      match r.step setting move with
      | some r => closesWhen ok setting r rest
      | none => true

theorem write_forM {α : Type} (c : Context) (f : α → SinkCall) : ∀ (l : List α) (s : RunState),
    (l.forM fun a => c.write (f a)) s =
      ((), { s with record := (l.map fun a => .written c.sink (f a)).reverse ++ s.record })
  | [], _ => rfl
  | a :: rest, s => by
    have hfirst : (c.write (f a) s).2 =
        { s with record := .written c.sink (f a) :: s.record } := rfl
    show (rest.forM fun a => c.write (f a)) (c.write (f a) s).2 = _
    rw [hfirst, write_forM c f rest]
    simp

theorem announce_apply (c : Context) (plan : Plan) (s : RunState) :
    announce c plan s =
      ((), { s with record := (plan.announcement.map (.written c.sink)).reverse ++ s.record }) := by
  have hstart : (c.write .start s).2 = { s with record := .written c.sink .start :: s.record } :=
    rfl
  unfold announce
  rw [bind_apply, hstart, bind_apply, write_forM c fun p : String × String => .prefixName p.1 p.2]
  unfold Plan.announcement
  cases plan.base with
  | none => simp [pure_apply, Function.comp_def]
  | some base =>
    have hbase : ∀ t : RunState, c.write (.base base.text) t =
        ((), { t with record := .written c.sink (.base base.text) :: t.record }) := fun _ => rfl
    simp [hbase, Function.comp_def]

theorem still_enroll (plan : Plan) (input : Sequence) (s : RunState) :
    s.Still (enroll plan input s).2 ∧ (enroll plan input s).2.lifecycle = s.lifecycle := by
  have hone : ∀ (name : Iri) (signature : Option (List Variable)) (u : Solution) (t : RunState),
      t.Still (enrollOne name signature plan u t).2 ∧
        (enrollOne name signature plan u t).2.lifecycle = t.lifecycle := fun name signature u t => by
    have hrecord : t.Still (RunM.recordCall (.ofSolution name signature u) t).2 ∧
        (RunM.recordCall (.ofSolution name signature u) t).2.lifecycle = t.lifecycle := by
      unfold RunM.recordCall
      split <;> exact ⟨⟨rfl, fun _ => rfl⟩, rfl⟩
    exact ⟨hrecord.1.trans (.note _ fun _ => rfl), hrecord.2⟩
  have hall : ∀ (name : Iri) (signature : Option (List Variable)) (l : List Solution)
      (t : RunState), t.Still (l.forM (enrollOne name signature plan) t).2 ∧
        (l.forM (enrollOne name signature plan) t).2.lifecycle = t.lifecycle := by
    intro name signature l
    induction l with
    | nil => exact fun t => ⟨.refl t, rfl⟩
    | cons u rest ih =>
      intro t
      obtain ⟨hs, hl⟩ := hone name signature u t
      obtain ⟨hs', hl'⟩ := ih (enrollOne name signature plan u t).2
      exact ⟨hs.trans hs', hl'.trans hl⟩
  cases hn : plan.name with
  | none =>
    have hnone : enroll plan input s = ((), s) := by
      rw [enroll, hn]
      rfl
    rw [hnone]
    exact ⟨.refl s, rfl⟩
  | some name =>
    rw [enroll_apply hn]
    obtain ⟨hs, hl⟩ := hall name _ input.solutions
      { s with registry := (s.registry.register name plan).2 }
    exact ⟨⟨hs.scopes, hs.output⟩, hl⟩

/-- A run starts in a new scope, with its plan announced to a new sink. -/
theorem start_spec (state : RunState) (plan : Plan) (input : Sequence) :
    ∃ t, start state plan input = ⟨⟨state.nextSink, state.scopes.root.1, none, state.nextFork, 1⟩,
        .ofPlan ⟨state.nextSink, state.scopes.root.1, none, state.nextFork, 1⟩ plan input, t⟩ ∧
      t.scopes = state.scopes.root.2 ∧ t.isClosed = state.isClosed ∧
      t.output state.nextSink = state.output state.nextSink ++ plan.announcement := by
  let c : Context := ⟨state.nextSink, state.scopes.root.1, none, state.nextFork, 1⟩
  let s : RunState := { state with
    scopes := state.scopes.root.2
    nextSink := state.nextSink + 1
    nextFork := state.nextFork + 1 }
  refine ⟨(enroll plan input (announce c plan s).2).2, rfl, ?_, ?_, ?_⟩
  · rw [(still_enroll plan input _).1.scopes, announce_apply]
  · show (enroll plan input _).2.lifecycle.closed = _
    rw [(still_enroll plan input _).2, announce_apply]
    rfl
  · rw [(still_enroll plan input _).1.output, announce_apply]
    simp [RunState.output, List.filterMap_append, List.filterMap_map, List.filterMap_reverse,
      Event.writtenTo?, c, s]

variable {setting : Setting} {r r' : Run} {moves : List RunMove}

/-- A run of a pipeline keeps the accounts from its start to its end. -/
theorem advances_of_replay {P : Pipeline} {leaves : List Nat}
    (h : P.Standing leaves r.task.parts r.state)
    (hreplay : r.replay P.setting moves = some r')
    (hclose : r.closesWhen Task.isSettled P.setting moves = true) :
    ∃ named : List (ScopeId × Solution),
      P.Standing (leaves ++ named.map (·.1)) r'.task.parts r'.state ∧
      P.Advances r.task.parts r.state r'.task.parts r'.state named ∧ r'.context = r.context := by
  induction moves generalizing r leaves with
  | nil =>
    obtain rfl : r = r' := by simpa [replay] using hreplay
    exact ⟨[], by simpa using h, .of_still (.refl _), rfl⟩
  | cons move moves ih =>
    simp only [replay, Option.bind_eq_bind, Option.bind_eq_some_iff] at hreplay
    obtain ⟨r₁, hstep, hrest⟩ := hreplay
    rw [closesWhen, hstep, Bool.and_eq_true] at hclose
    obtain ⟨named, hstanding, hadvances, hcontext⟩ : ∃ named : List (ScopeId × Solution),
        P.Standing (leaves ++ named.map (·.1)) r₁.task.parts r₁.state ∧
        P.Advances r.task.parts r.state r₁.task.parts r₁.state named ∧
        r₁.context = r.context := by
      cases move with
      | close =>
        obtain rfl : r.close = r₁ := Option.some.inj hstep
        refine ⟨[], ?_, .of_still ⟨rfl, fun _ => rfl⟩, rfl⟩
        rw [List.map_nil, List.append_nil]
        have hsettled : ∀ p ∈ r.task.parts, p.isSettledPart = true := by
          simpa [Task.isSettled] using hclose.1
        exact ⟨h.fits, h.layered, h.within, fun _ => hsettled⟩
      | work move =>
        simp only [Run.step, Option.bind_eq_bind, Option.bind_eq_some_iff] at hstep
        obtain ⟨⟨t, s⟩, hstep, hr⟩ := hstep
        obtain rfl : { r with task := t, state := s } = r₁ := by simpa using hr
        obtain ⟨named, hstanding, hadvances⟩ := h.step hstep
        exact ⟨named, hstanding, hadvances, rfl⟩
    obtain ⟨more, hstanding', hadvances', hcontext'⟩ := ih hstanding hrest hclose.2
    refine ⟨named ++ more, ?_, hadvances.trans hadvances', hcontext'.trans hcontext⟩
    rw [List.map_append, ← List.append_assoc]
    exact hstanding'

/-- What a pipeline has written when it has no parts left. -/
theorem writes_of_replay {P : Pipeline} {clauses : List BindingClause} {input : Sequence}
    (hparts : r.task.parts = [.clauses P.frame (clauses.map .clause) input])
    (hruns : ∀ b ∈ clauses, b.Runs P.setting.functions)
    (hlayered : r.state.scopes.Layered P.root []) (hopen : r.state.isClosed = false)
    (hreplay : r.replay P.setting moves = some r') (hover : r'.isOver = true)
    (hclose : r.closesWhen Task.isSettled P.setting moves = true) :
    r'.task.outcome = none ∧ r'.context = r.context ∧ r'.state.scopes.Bounded ∧
      ∃ named : List (Solution × (String → BlankNode)),
        (named.map (·.1)).Perm (input.solutions.flatMap (P.loops clauses)) ∧
        NamedApart (P.templates.flatten.flatMap TripleTemplate.labels) named ∧
        ∃ triples : List Triple,
          triples.Perm (named.flatMap fun (s, naming) => instances naming s P.templates.flatten) ∧
          r'.state.output P.sink = r.state.output P.sink ++ triples.map .triple := by
  have hinit : P.Standing [] r.task.parts r.state := by
    rw [hparts]
    refine ⟨List.forall_mem_singleton.mpr (.clauses hruns), hlayered,
      List.forall_mem_singleton.mpr (by simp [Task.sites]), fun h => ?_⟩
    rw [hopen] at h
    cases h
  obtain ⟨named, hstanding, hadvances, hcontext⟩ := advances_of_replay hinit hreplay hclose
  obtain ⟨houtcome, hnil⟩ := Pipeline.Fits.outcome_eq_none hstanding.fits hover
  obtain ⟨F, hF, hnaming⟩ :=
    hstanding.layered.exists_naming (P.templates.flatten.flatMap TripleTemplate.labels)
  -- no part is left, so nothing is owed any more and nothing is still to be written
  obtain ⟨l, hl, hperm⟩ := hadvances.owed [] (by rw [hnil]; rfl)
  obtain ⟨triples, hwritten, htriples⟩ := hadvances.written F hF
  have hleaf : ∀ a ∈ named, a.1 ∈ [] ++ named.map (·.1) :=
    fun a ha => List.mem_append_right _ (List.mem_map_of_mem ha)
  refine ⟨houtcome, hcontext, hstanding.layered.bounded, named.map fun a => (a.2, F a.1), ?_,
    ⟨?_, ?_, ?_⟩, triples, ?_, hwritten⟩
  · rw [hparts] at hl
    obtain rfl : l = input.solutions.flatMap (P.loops clauses) := by
      have := Pipeline.piecewise_singleton.mp hl
      rwa [Pipeline.Owes, PlanNode.clauses_map] at this
    rw [List.append_nil] at hperm
    rw [List.map_map]
    exact hperm.symm
  · rw [List.forall_mem_map]
    exact fun a ha l hl => (hnaming a.1 (hleaf a ha) l hl).1
  · rw [List.forall_mem_map]
    exact fun a ha l hl l' hl' he => ((hnaming a.1 (hleaf a ha) l hl).2 a.1 (hleaf a ha) l' hl' he).2
  · rw [List.pairwise_map]
    refine List.Pairwise.imp_of_mem (fun ha hb hne l hl l' hl' he => ?_)
      (List.pairwise_map.mp hstanding.layered.nodup)
    exact hne ((hnaming _ (hleaf _ ha) l hl).2 _ (hleaf _ hb) l' hl' he).1
  · have hnone : Task.pending F (.clauses P.frame (clauses.map .clause) input) = [] :=
      Task.pending_of_sites rfl
    rw [hnil, hparts, List.flatMap_singleton, hnone] at htriples
    simpa [List.flatMap_map] using htriples

/-- A run of a plan of clauses and plain templates that has come to its end, and was not closed
while it waited for a document or a stream or was still to do so, has ended well: it has written,
between its announcement and its leave, the instances of the templates in the solutions of the
nested loops in some order, with blank nodes of its own for each solution.  Neither the order of its
moves nor how the streams cut their tuples into batches makes a difference.  The state may be that of
an earlier run, and is left as a later one needs it. -/
theorem writes_nested_loops {state : RunState} {limit : Nat} {plan : Plan} {input : Sequence}
    {clauses : List BindingClause} {templates : List (List TripleTemplate)}
    {produce : Production} (hs : state.scopes.Bounded) (hplan : plan.IsPipeline clauses templates)
    (hproduce : setting.functions.Produces produce)
    (hruns : ∀ b ∈ clauses, b.Runs setting.functions)
    (hreplay : (start (state.renew limit) plan input).replay setting moves = some r)
    (hover : r.isOver = true)
    (hclose : (start (state.renew limit) plan input).closesWhen Task.isSettled setting moves = true) :
    r.task.outcome = none ∧ r.finish.scopes.Bounded ∧
    ∃ named : List (Solution × (String → BlankNode)),
      (named.map (·.1)).Perm (input.solutions.flatMap (nestedLoops setting.resolver
        ⟨setting.functions, plan.base, r.context.scope⟩ produce clauses)) ∧
      NamedApart (templates.flatten.flatMap TripleTemplate.labels) named ∧
      ∃ triples : List Triple,
        triples.Perm (named.flatMap fun (s, naming) => instances naming s templates.flatten) ∧
        r.finish.output r.context.sink = state.output r.context.sink ++ plan.announcement ++
          triples.map .triple ++ [.finish] := by
  obtain ⟨t, hstart, hscopes, hclosed, houtput⟩ := start_spec (state.renew limit) plan input
  rw [hstart] at hreplay hclose
  let c : Context :=
    ⟨(state.renew limit).nextSink, (state.renew limit).scopes.root.1, none,
      (state.renew limit).nextFork, 1⟩
  let P : Pipeline := ⟨setting, produce, hproduce, ⟨plan, c.withBase plan.base⟩, templates,
    hplan.select, hplan.postSelect, hplan.output⟩
  have hparts : (Task.ofPlan c plan input).parts =
      [.clauses P.frame (clauses.map .clause) input] := by
    rw [Task.ofPlan, hplan.bindings]
    rfl
  obtain ⟨houtcome, hcontext, hbounded, named, hnamed, hapart, triples, htriples, hwritten⟩ :=
    writes_of_replay (P := P) hparts hruns (by rw [hscopes]; exact hs.layered_root) hclosed hreplay
      hover hclose
  have hscope : P.frame.context.evalContext setting.functions =
      ⟨setting.functions, plan.base, r.context.scope⟩ := by
    rw [hcontext]
    show EvalContext.mk setting.functions (plan.base.or none) c.scope = _
    rw [Option.or_none]
  refine ⟨houtcome, hbounded, named, ?_, hapart, triples, htriples, ?_⟩
  · rw [← hscope]
    exact hnamed
  · have hfinish : r.finish.output r.context.sink =
        r.state.output r.context.sink ++ [.finish] := by
      have hrecord : r.finish.record = .written r.context.sink .finish :: r.state.record := rfl
      simp [RunState.output, hrecord, Event.writtenTo?]
    rw [hfinish, hcontext]
    show r.state.output P.sink ++ _ = _
    rw [hwritten]
    show t.output (state.renew limit).nextSink ++ _ ++ _ = _
    rw [houtput]
    rfl

/-! ### Documents behind an iterator -/

/-- An iterator function that gives a tuple for each of its arguments. -/
def each : Iri := ⟨"urn:each"⟩

/-- A setting with that function and two documents, one of which never comes, and with one permit. -/
def readingSetting : Setting where
  resolver uri _ :=
    if uri = "urn:doc" then .found ⟨"text", none⟩
    else if uri = "urn:hang" then .never
    else .missing
  functions := FunctionRegistry.empty.addIterator each fun _ arguments =>
    .ok (.given [arguments.map fun t => [some t]] .finished)
  engine := none
  parser := none
  maxConcurrency := 1
  timeout := none
  queryMediaType := none

/-- What that function produces. -/
def eachArgument : Production := fun _ arguments => arguments.map fun t => [some t]

/-- Clauses that read the documents of some URIs. -/
def readingClauses (uris : List String) : List BindingClause :=
  [.iterator each (uris.map fun uri => .iri ⟨uri⟩) [⟨"u"⟩], .source (.var ⟨"u"⟩) none ⟨"d"⟩]

/-- A triple with the content of a document. -/
def readingTemplates : List (List TripleTemplate) :=
  [[⟨.iri ⟨"urn:s"⟩, .iri ⟨"urn:p"⟩, .var ⟨"d"⟩⟩]]

/-- A plan that writes such a triple for each of some URIs. -/
def readingPlan (uris : List String) : Plan :=
  ⟨none, none, none, [], (readingClauses uris).map .clause, none, [],
    .generate (readingTemplates.map fun ts => .triples ⟨ts, []⟩)⟩

/-- A run of that plan. -/
def readingRun (uris : List String) : Run :=
  start ((RunState.start 1).renew 1) (readingPlan uris) .unit

theorem isPipeline_readingPlan (uris : List String) :
    (readingPlan uris).IsPipeline (readingClauses uris) readingTemplates := ⟨rfl, rfl, rfl, rfl⟩

theorem produces_readingSetting : readingSetting.functions.Produces eachArgument := by
  intro name f hf earlier arguments
  have hname : name = each := by
    by_contra hne
    rw [FunctionRegistry.iterator?, readingSetting, FunctionRegistry.addIterator,
      List.lookup_cons, beq_false_of_ne hne] at hf
    cases hf
  subst hname
  obtain rfl := Option.some.inj hf
  intro tuples ht
  cases ht with
  | finished h => cases h
  | failed h => cases h
  | batch h hr =>
    cases h
    cases hr with
    | finished => rw [List.append_nil]; rfl
    | failed h => cases h
    | batch h => cases h

theorem runs_readingClauses (uris : List String) :
    ∀ b ∈ readingClauses uris, b.Runs readingSetting.functions := by
  refine List.forall_mem_cons.mpr ⟨⟨?_, rfl⟩, List.forall_mem_singleton.mpr ⟨by simp
    [BindingClause.expressions], trivial⟩⟩
  rw [BindingClause.expressions, List.forall_mem_map]
  exact fun uri _ => rfl

/-- The moves of a run for a URI without a document and one with a document: the iterator, its
stream, the two fetches, a close, and the rest. -/
def readingMoves : List RunMove :=
  [.here, .item 0, .item 0, .here, .here, .here, .inside 0 .here, .inside 0 (.item 0),
    .inside 0 (.item 0), .inside 0 (.item 1), .inside 0 (.item 1), .inside 0 .here].map .work ++
  .close :: [.inside 0 .here, .inside 0 .here, .inside 0 .here, .inside 0 .here, .here].map .work

theorem writes_documents : ∃ r, (readingRun ["urn:gone", "urn:doc"]).replay readingSetting
      readingMoves = some r ∧
    r.task.outcome = none ∧ r.finish.scopes.Bounded ∧
    ∃ named : List (Solution × (String → BlankNode)),
      (named.map (·.1)).Perm (Sequence.unit.solutions.flatMap (nestedLoops readingSetting.resolver
        ⟨readingSetting.functions, none, r.context.scope⟩ eachArgument
        (readingClauses ["urn:gone", "urn:doc"]))) ∧
      NamedApart (readingTemplates.flatten.flatMap TripleTemplate.labels) named ∧
      ∃ triples : List Triple,
        triples.Perm (named.flatMap fun (s, naming) =>
          instances naming s readingTemplates.flatten) ∧
        r.finish.output r.context.sink = (RunState.start 1).output r.context.sink ++
          (readingPlan ["urn:gone", "urn:doc"]).announcement ++ triples.map .triple ++
            [.finish] := by
  have hrun : ((readingRun ["urn:gone", "urn:doc"]).replay readingSetting
      readingMoves).any (·.isOver) = true := by decide +kernel
  obtain ⟨r, hr, hover⟩ := (Option.any_eq_true _ _).mp hrun
  have hclose : (readingRun ["urn:gone", "urn:doc"]).closesWhen Task.isSettled readingSetting
      readingMoves = true := by decide +kernel
  have hbounded : (RunState.start 1).scopes.Bounded := fun b hb => by cases hb
  exact ⟨r, hr, writes_nested_loops hbounded (isPipeline_readingPlan _) produces_readingSetting
    (runs_readingClauses _) hr hover hclose⟩

/-- The moves of a run for a URI whose document never comes and one with a document, closed when the
stream of the iterator has ended and the first document is waited for. -/
def brokenMoves : List RunMove :=
  [.here, .item 0, .item 0, .here, .here, .here, .inside 0 .here, .inside 0 (.item 0)].map .work ++
  .close :: [.inside 0 (.item 0), .inside 0 (.item 1), .inside 0 .here, .inside 0 .here,
    .inside 0 .here, .inside 0 .here, .inside 0 .here, .here].map .work

/-- It is not enough that all streams have ended before a run is closed: here the second document
is not asked for any more, and its triple is missing. -/
theorem close_loses_document : ∃ r, (readingRun ["urn:hang", "urn:doc"]).replay readingSetting
      brokenMoves = some r ∧
    r.isOver = true ∧
    (readingRun ["urn:hang", "urn:doc"]).closesWhen Task.areStreamsOver readingSetting
      brokenMoves = true ∧
    (Collected.ofCalls (r.finish.output r.context.sink)).triples = [] ∧
    ((Sequence.unit.solutions.flatMap (nestedLoops readingSetting.resolver
        ⟨readingSetting.functions, none, r.context.scope⟩ eachArgument
        (readingClauses ["urn:hang", "urn:doc"]))).flatMap fun s =>
      instances .mk s readingTemplates.flatten) =
      [⟨.iri ⟨"urn:s"⟩, ⟨"urn:p"⟩, .literal (.simple "text")⟩] := by
  have hrun : ((readingRun ["urn:hang", "urn:doc"]).replay readingSetting brokenMoves).any
      (fun r => decide (r.isOver = true ∧
        (Collected.ofCalls (r.finish.output r.context.sink)).triples = [] ∧
        ((Sequence.unit.solutions.flatMap (nestedLoops readingSetting.resolver
            ⟨readingSetting.functions, none, r.context.scope⟩ eachArgument
            (readingClauses ["urn:hang", "urn:doc"]))).flatMap fun s =>
          instances .mk s readingTemplates.flatten) =
          [⟨.iri ⟨"urn:s"⟩, ⟨"urn:p"⟩, .literal (.simple "text")⟩])) = true := by
    decide +kernel
  obtain ⟨r, hr, hdecided⟩ := (Option.any_eq_true _ _).mp hrun
  obtain ⟨hover, hnone, hloops⟩ := of_decide_eq_true hdecided
  exact ⟨r, hr, hover, by decide +kernel, hnone, hloops⟩

end Run

end TripleLoom
