import TripleLoom.Proofs.Pipeline.Gathering
import TripleLoom.Proofs.Run.Acts
import TripleLoom.Proofs.Run.Once
import TripleLoom.Proofs.Sequence.Inline

/-!
# TripleLoom.Proofs.Run.Coverage — declared variables cover all bindings

Every stage of a run changes the declared variables and the solutions of a sequence apart from each
other.  Still no solution ever binds a variable that its sequence does not declare, if those of the
input do not and the engine keeps to what it declares (`Run.keeps_covered`): what is covered before a
task acts is covered after it, for each of the things that a task can turn into
(`Task.IsCovered.turns`).  So no binding is lost in the tables that the engine is given.
-/

namespace TripleLoom

open RunM

/-! ### Clauses -/

section Clauses

variable (c : Context) (functions : FunctionRegistry) {vars : List Variable}

theorem Context.isUnder_bindOne (e : Expression) {v : Variable} (hv : v ∈ vars) {u : Solution}
    (hu : u.IsUnder vars) (s : RunState) : (c.bindOne functions e v u s).1.IsUnder vars := by
  rw [bindOne, bind_apply]
  cases (c.eval? functions e u s).1 with
  | some value => exact hu.overlay hv
  | none => exact hu

theorem RunM.forall_mem_mapM {α β : Type} {P : α → Prop} {Q : β → Prop} {f : α → RunM β}
    (hf : ∀ a, P a → ∀ s, Q (f a s).1) : ∀ {l : List α}, (∀ a ∈ l, P a) → ∀ s,
    ∀ b ∈ (l.mapM f s).1, Q b
  | [], _, s => fun b hb => nomatch hb
  | a :: l, h, s => by
    obtain ⟨ha, hl⟩ := List.forall_mem_cons.mp h
    rw [List.mapM_cons]
    exact List.forall_mem_cons.mpr ⟨hf a ha s, forall_mem_mapM hf hl _⟩

/-- What a computation does with each element, whatever it does with the state. -/
theorem RunM.forall₂_mapM {α β : Type} {R : α → β → Prop} {f : α → RunM β}
    (hf : ∀ a s, R a (f a s).1) : ∀ (l : List α) (s : RunState), List.Forall₂ R l (l.mapM f s).1
  | [], _ => .nil
  | a :: l, s => by
    rw [List.mapM_cons]
    exact .cons (hf a s) (forall₂_mapM hf l _)

/-- A `BIND` declares what it binds. -/
theorem Context.isCovered_bindAll (e : Expression) (v : Variable) {input : Sequence}
    (h : input.IsCovered) (s : RunState) : (c.bindAll functions e v input s).1.IsCovered :=
  RunM.forall_mem_mapM (fun _ hu s => c.isUnder_bindOne functions e (input.mem_declare v) hu s)
    (h.declare v) s

theorem Frame.isCovered_bindAfter {setting : Setting} {f : Frame} {bound : Sequence} :
    ∀ {nodes : List PlanNode} {input : Sequence} {s : RunState}, input.IsCovered →
    (f.bindAfter setting nodes input s).1 = .ok bound → bound.IsCovered
  | [], input, s, h, hb => by
    cases hb
    exact h
  | .clause (.bind e v) :: rest, input, s, h, hb =>
    isCovered_bindAfter (f.context.isCovered_bindAll setting.functions e v h s) hb
  | .clause (.iterator ..) :: _, _, _, _, hb | .clause (.source ..) :: _, _, _, _, hb
  | .select _ :: _, _, _, _, hb | .triples _ :: _, _, _, _, hb | .call _ :: _, _, _, _, hb
  | .template _ :: _, _, _, _, hb | .plan _ :: _, _, _, _, hb => nomatch hb

end Clauses

/-! ### Fetches -/

theorem Fetch.solution_ofSolution (document : IriPattern) (accept : Option IriPattern)
    (u : Solution) : (Fetch.ofSolution document accept u).solution = u := by
  unfold ofSolution
  split <;> rfl

/-- A fetch binds its variable or leaves the solution as it is. -/
theorem Fetch.isUnder_advance (resolver : Resolver) {v : Variable} {vars : List Variable}
    (hv : v ∈ vars) {f : Fetch} (hf : f.solution.IsUnder vars) (s : RunState) :
    (f.advance resolver v s).1.solution.IsUnder vars := by
  cases f with
  | waiting u uri accept =>
    simp only [advance, bind_apply]
    cases (RunM.lifecycle Lifecycle.acquire s).1 <;> exact hf
  | asked u uri accept permit =>
    by_cases hc : s.isClosed = true
    · simp only [advance, bind_apply, get_apply, hc, if_true]
      exact hf
    · simp only [advance, bind_apply, get_apply, hc]
      cases resolver uri accept with
      | found document => exact Solution.IsUnder.overlay hf hv
      | missing => cases accept <;> exact hf
      | never => exact hf
  | done u => exact hf

/-! ### Iterations -/

namespace Iteration

variable {i : Iteration}

/-- An iteration whose inputs and gathered solutions bind declared variables only, those of the
clause among them. -/
structure IsCovered (i : Iteration) : Prop where
  vars : i.vars ⊆ i.input.vars
  input : i.input.IsCovered
  held : (i.input.withSolutions i.batches.held).IsCovered

theorem isUnder_withTuple {vars clause : List Variable} {u : Solution} (hu : u.IsUnder vars)
    (hsub : clause ⊆ vars) (tuple : Tuple) : (u.withTuple clause tuple).IsUnder vars := by
  refine hu.extend fun b hb => ?_
  obtain ⟨⟨v, value⟩, hmem, hvalue⟩ := List.mem_filterMap.mp hb
  obtain ⟨term, -, rfl⟩ := Option.map_eq_some_iff.mp hvalue
  exact hsub (List.of_mem_zip hmem).1

theorem IsCovered.tell (h : i.IsCovered) (index : Nat) : (i.tell index).IsCovered := by
  unfold Iteration.tell
  split
  · exact h
  · split <;> exact ⟨h.vars, h.input, h.held⟩

theorem IsCovered.solutionsOf (h : i.IsCovered) (input : Nat) (tuples : TupleBatch) :
    ∀ u ∈ i.solutionsOf input tuples, u.IsUnder i.input.vars := by
  intro u hu
  unfold Iteration.solutionsOf at hu
  split at hu
  · next s hs =>
    obtain ⟨tuple, -, rfl⟩ := List.mem_map.mp hu
    exact isUnder_withTuple (h.input s (List.mem_of_getElem? hs)) h.vars tuple
  · cases hu

theorem IsCovered.hear (h : i.IsCovered) : i.hear.IsCovered := by
  unfold Iteration.hear
  split
  · next input tuples rest hq =>
    refine ⟨h.vars, h.input, fun u hu => ?_⟩
    by_cases hp : input ∈ i.batches.pending
    · have hmem := ((i.batches.perm_held_add (i.solutionsOf input tuples) hp).mem_iff).mp hu
      rcases List.mem_append.mp hmem with hold | hnew
      · exact h.held u hold
      · exact h.solutionsOf input tuples u hnew
    · refine h.held u ?_
      have hsame : i.batches.add input (i.solutionsOf input tuples) = i.batches := if_neg hp
      simpa only [hsame] using hu
  · next input rest hq =>
    exact ⟨h.vars, h.input, fun u hu =>
      h.held u ((i.batches.perm_held_complete input).mem_iff.mp hu)⟩
  · exact ⟨h.vars, h.input, fun u hu => h.held u (i.batches.perm_held_forceClose.mem_iff.mp hu)⟩

/-- The sequences that an iteration hands on are covered, and so is what it keeps. -/
theorem IsCovered.takeSequences (h : i.IsCovered) (wantsEmpty : Bool) :
    (∀ q ∈ (i.takeSequences wantsEmpty).1, q.IsCovered) ∧
      (i.takeSequences wantsEmpty).2.IsCovered := by
  constructor
  · intro q hq
    obtain ⟨b, hb, rfl⟩ := List.mem_map.mp hq
    have hclosed : b ∈ i.batches.closed := List.mem_of_mem_filter hb
    exact fun u hu => h.held u <|
      List.mem_append_right _ (List.mem_flatMap.mpr ⟨b, hclosed, hu⟩)
  · refine ⟨h.vars, h.input, fun u hu => h.held u ?_⟩
    rcases List.mem_append.mp hu with hopened | hclosed
    · exact List.mem_append_left _ hopened
    · cases hclosed

theorem held_invokeAll (c : Context) (functions : FunctionRegistry) (name : Iri)
    (f : IteratorFunction) (arguments : List Expression) :
    ∀ (input : Nat) (solutions : List Solution) (batches : Batches Solution) (s : RunState),
      (invokeAll c functions name f arguments input solutions batches s).1.2.held.Perm batches.held
  | _, [], _, _ => .refl _
  | input, u :: rest, batches, s => by
    have ih := held_invokeAll c functions name f arguments (input + 1) rest
    have hskip : ∀ s, (invokeAll c functions name f arguments (input + 1) rest
        (batches.complete input) s).1.2.held.Perm batches.held := fun s =>
      (ih _ s).trans (batches.perm_held_complete input)
    rw [invokeAll, bind_apply]
    rcases c.evalAll? functions arguments u s with ⟨_ | values, s₁⟩
    · exact hskip s₁
    · simp only [bind_apply, get_apply]
      cases f (s₁.invocations name) values with
      | error e => exact hskip _
      | ok stream => exact ih batches _

theorem isCovered_start (c : Context) (functions : FunctionRegistry) (name : Iri)
    (f : IteratorFunction) (arguments : List Expression) (vars : List Variable) {input : Sequence}
    (h : input.IsCovered) (s : RunState) :
    (start c functions name f arguments vars input s).1.IsCovered := by
  refine ⟨fun v hv => input.mem_declareAll hv, h.declareAll vars, fun u hu => ?_⟩
  exact nomatch (held_invokeAll c functions name f arguments 0 input.solutions
    (.ofInputs (List.range input.size)) s).mem_iff.mp hu

end Iteration

/-! ### Tasks -/

namespace Task

/-- The sequences that a task itself holds. -/
def sequences : Task → List Sequence
  | .finished _ | .entering .. | .asking .. => []
  | .clauses _ _ input | .selecting _ _ input | .evaluating _ _ input _ | .assembling _ input =>
    [input]
  | .fetching _ _ _ input fetches => [input.withSolutions (fetches.map Fetch.solution)]
  | .iterating _ _ i _ _ => [i.input, i.input.withSolutions i.batches.held]
  | .generating g .. => [g.input]
  | .writing w | .nesting w _ _ => [w.input, w.input.withSolutions w.solutions]

/-- Whether a task has declared the variables that it is about to bind. -/
def HasDeclared : Task → Prop
  | .fetching _ _ v input _ => v ∈ input.vars
  | .iterating _ _ i _ _ => i.vars ⊆ i.input.vars
  | _ => True

/-- A task whose sequences are covered and stay so. -/
structure IsCovered (t : Task) : Prop where
  sequences : ∀ q ∈ t.sequences, q.IsCovered
  declared : t.HasDeclared

theorem isCovered_replaceInside (index : Nat) (inner t : Task) :
    (replaceInside index inner t).IsCovered ↔ t.IsCovered := by
  cases t with
  | iterating =>
    rw [replaceInside]
    split <;> exact ⟨fun h => ⟨h.sequences, h.declared⟩, fun h => ⟨h.sequences, h.declared⟩⟩
  | generating | nesting => exact ⟨fun h => ⟨h.sequences, trivial⟩, fun h => ⟨h.sequences, trivial⟩⟩
  | _ => exact .rfl

theorem IsCovered.of_sequences {t : Task} {q : Sequence} (hs : t.sequences = [q])
    (hd : t.HasDeclared) (hq : q.IsCovered) : t.IsCovered :=
  ⟨fun _ hmem => List.mem_singleton.mp (hs ▸ hmem) ▸ hq, hd⟩

theorem isCovered_fetching {f : Frame} {nodes : List PlanNode} {v : Variable} {input : Sequence}
    {fetches : List Fetch} : (fetching f nodes v input fetches).IsCovered ↔
      v ∈ input.vars ∧ ∀ fetch ∈ fetches, fetch.solution.IsUnder input.vars := by
  constructor
  · intro h
    exact ⟨h.declared, fun fetch hf =>
      h.sequences _ List.mem_cons_self _ (List.mem_map_of_mem hf)⟩
  · rintro ⟨hv, hfetches⟩
    refine ⟨fun q hq => ?_, hv⟩
    obtain rfl := List.mem_singleton.mp hq
    intro u hu
    obtain ⟨fetch, hf, rfl⟩ := List.mem_map.mp hu
    exact hfetches fetch hf

theorem isCovered_iterating {f : Frame} {nodes : List PlanNode} {i : Iteration}
    {branches : List Task} {error : Outcome} :
    (iterating f nodes i branches error).IsCovered ↔ i.IsCovered :=
  ⟨fun h => ⟨h.declared, h.sequences _ List.mem_cons_self,
    h.sequences _ (List.mem_cons_of_mem _ List.mem_cons_self)⟩,
    fun h => ⟨by simp [sequences, h.input, h.held], h.vars⟩⟩

theorem isCovered_writing {w : Writing} : (writing w).IsCovered ↔
    w.input.IsCovered ∧ ∀ u ∈ w.solutions, u.IsUnder w.input.vars :=
  ⟨fun h => ⟨h.sequences _ List.mem_cons_self,
    h.sequences _ (List.mem_cons_of_mem _ List.mem_cons_self)⟩,
    fun h => ⟨by simpa [sequences] using ⟨h.1, Sequence.isCovered_withSolutions h.2⟩, trivial⟩⟩

theorem isCovered_nesting {w : Writing} {sink : SinkId} {inner : Task} :
    (nesting w sink inner).IsCovered ↔ (writing w).IsCovered :=
  ⟨fun h => ⟨h.sequences, trivial⟩, fun h => ⟨h.sequences, trivial⟩⟩

/-- A text that has gone on is covered if it was. -/
theorem IsCovered.continues {w w' : Writing} (h : (writing w).IsCovered) (hw : w.Continues w') :
    (writing w').IsCovered := by
  rw [isCovered_writing] at h ⊢
  rw [hw.input]
  exact ⟨h.1, fun u hu => h.2 u (hw.solutions hu)⟩

end Task

/-- Engines whose results bind only variables that they declare, at least if the solutions they are
given do so. -/
def Setting.EngineDeclares (setting : Setting) : Prop :=
  ∀ engine, setting.engine = some engine → ∀ earlier select input result, input.IsCovered →
    engine earlier select input = .solutions result → result.IsCovered

namespace Task

variable {setting : Setting} {s s' : RunState} {t t' : Task}

/-- What a task turns into is covered if the task is. -/
theorem IsCovered.turns (hengine : setting.EngineDeclares) (h : t.IsCovered)
    (ht : Turns setting s t t' s') : t'.IsCovered := by
  have hsingle : ∀ {q q' : Sequence}, t.sequences = [q] → t'.sequences = [q'] → t'.HasDeclared →
      (q.IsCovered → q'.IsCovered) → t'.IsCovered := fun hq hq' hd himp =>
    of_sequences hq' hd (himp (h.sequences _ (hq ▸ List.mem_cons_self)))
  cases ht with
  | stay => exact h
  | finish | generated => exact ⟨fun _ hq => (nomatch hq), trivial⟩
  | ask => exact ⟨fun _ hq => (nomatch hq), trivial⟩
  | bind f e v nodes input =>
    exact hsingle rfl rfl trivial fun hq => f.context.isCovered_bindAll _ e v hq s
  | source f document accept v nodes input =>
    have hinput : input.IsCovered := h.sequences _ List.mem_cons_self
    refine isCovered_fetching.mpr ⟨input.mem_declare v, fun fetch hf => ?_⟩
    obtain ⟨u, hu, rfl⟩ := List.mem_map.mp hf
    rw [Fetch.solution_ofSolution]
    exact hinput.declare v u hu
  | iterate f name function arguments vars nodes input =>
    exact isCovered_iterating.mpr
      (Iteration.isCovered_start _ _ _ _ _ _ (h.sequences _ List.mem_cons_self) s)
  | assemble | permit => exact hsingle rfl rfl trivial id
  | select f select input =>
    refine hsingle rfl rfl trivial fun hq => ?_
    split
    · exact Sequence.isCovered_unit
    · exact hq
  | fetch f nodes v input hf =>
    obtain ⟨hv, hfetches⟩ := isCovered_fetching.mp h
    refine isCovered_fetching.mpr ⟨hv, fun fetch hmem => ?_⟩
    rcases List.mem_or_eq_of_mem_set hmem with hold | rfl
    · exact hfetches fetch hold
    · exact Fetch.isUnder_advance _ hv (hfetches _ (List.mem_of_getElem? hf)) s
  | fetched => exact hsingle rfl rfl trivial id
  | tell f nodes i branches error index =>
    exact isCovered_iterating.mpr ((isCovered_iterating.mp h).tell index)
  | hear f nodes i branches error wantsEmpty =>
    exact isCovered_iterating.mpr ((isCovered_iterating.mp h).hear.takeSequences wantsEmpty).2
  | evaluated f select input permit he hr =>
    exact hsingle rfl rfl trivial fun hq => (hengine _ he _ _ _ _ hq hr).restoreBlanks
  | generate f input hb =>
    exact hsingle rfl rfl trivial fun hq =>
      Frame.isCovered_bindAfter hq (congrArg Prod.fst hb)
  | write f input hb =>
    have hinput : input.IsCovered := h.sequences _ List.mem_cons_self
    have hbound := Frame.isCovered_bindAfter hinput (congrArg Prod.fst hb)
    exact isCovered_writing.mpr ⟨hbound, hbound⟩
  | triples | nest | resolve | refuse | nested | resolved | called =>
    exact hsingle rfl rfl trivial id
  | resume hw => exact h.continues hw
  | collect hw => exact (isCovered_nesting.mp h).continues hw
  | embed hw | embedCall hw => exact isCovered_nesting.mpr (h.continues hw)
  | call _ c plan hu =>
    exact .of_sequences rfl trivial (Sequence.isCovered_ofLists hu)

/-- What a covered task starts below itself is covered. -/
theorem IsCovered.begets (h : t.IsCovered) (hb : t.Begets t') : t'.IsCovered := by
  cases hb with
  | branch hq =>
    exact .of_sequences rfl trivial
      (((isCovered_iterating.mp h).hear.takeSequences _).1 _ hq)
  | nested hs =>
    exact .of_sequences rfl trivial
      ((h.sequences _ List.mem_cons_self).single (List.of_mem_zip hs).2)
  | embedded hp hu =>
    obtain ⟨-, hsolutions⟩ := isCovered_writing.mp h
    exact .of_sequences rfl trivial
      (Sequence.isCovered_withSolutions fun w hw => List.mem_singleton.mp hw ▸ hsolutions _ hu)
  | resolve | call | embeddedCall => exact ⟨fun _ hq => (nomatch hq), trivial⟩

end Task

/-! ### Runs -/

namespace Run

variable {setting : Setting} {r r' : Run} {move : RunMove} {moves : List RunMove}

/-- What the engine is asked for, new in the record of a state, is covered. -/
def AsksCovered (base s : RunState) : Prop :=
  ∃ events, s.record = events ++ base.record ∧
    ∀ select inline, .evaluated select inline ∈ events → inline.IsCovered

theorem AsksCovered.trans {base s t : RunState} {p : Footprint} (h : AsksCovered base s)
    (he : s.Evolves p t) (hp : ∀ select inline, p.evaluates select inline → inline.IsCovered) :
    AsksCovered base t := by
  obtain ⟨events, hrecord, hall⟩ := h
  obtain ⟨more, hmore, hevaluated⟩ := he.record
  refine ⟨more ++ events, by rw [hmore, hrecord, List.append_assoc], fun select inline hm => ?_⟩
  rcases List.mem_append.mp hm with hnew | hold
  · exact hp _ _ (hevaluated _ _ hnew)
  · exact hall select inline hold

/-- A run all of whose tasks are covered, and everything that it has asked the engine for. -/
structure IsCovered (base : RunState) (r : Run) : Prop where
  areIn : r.task.AreIn r.state
  tasks : ∀ t : Task, t.Within r.task → t.IsCovered
  asks : AsksCovered base r.state

theorem isCovered_start (state : RunState) (limit : Nat) (plan : Plan) {input : Sequence}
    (h : input.IsCovered) : IsCovered state (start (state.renew limit) plan input) := by
  obtain ⟨hevolves, hin⟩ := start_evolves (state.renew limit) plan input
  refine ⟨hin, fun t ht => ?_, ?_⟩
  · cases ht with
    | self => exact .of_sequences rfl trivial h
    | inside hi => cases hi
  · obtain ⟨events, hrecord, hnone⟩ := hevolves.record
    exact ⟨events, hrecord, fun select inline he => (hnone select inline he).elim⟩

/-- Every move keeps a run covered. -/
theorem IsCovered.step {base : RunState} (hengine : setting.EngineDeclares) (h : IsCovered base r)
    (hs : r.step setting move = some r') : IsCovered base r' := by
  obtain ⟨-, ⟨-, htask, hevolves⟩ | ⟨m, u, u', -, hturning⟩⟩ := step_cases h.areIn hs
  · refine ⟨fun u hu c hc => ?_, htask ▸ h.tasks, h.asks.trans hevolves fun _ _ he => he.elim⟩
    exact (h.areIn u (htask ▸ hu) c hc).grows hevolves.grows
  · have hu := h.tasks u hturning.within
    refine ⟨hturning.areIn h.areIn, ?_, h.asks.trans hturning.evolves ?_⟩
    · exact hturning.forall_within h.tasks
        (fun u index inner hu => (Task.isCovered_replaceInside index inner u).mpr hu)
        (hu.turns hengine hturning.turns) fun v hb => hu.begets hb
    · intro select inline he
      cases u with
      | evaluating f select' input permit =>
        cases he
        exact hu.sequences _ List.mem_cons_self
      | _ => cases he

/-- **Declared variables cover all bindings.**  If the input of a run binds declared variables only,
and so does what the engine answers, then at every point of the run every sequence that a task holds,
on its way from one stage to the next, declares each of its variables once and covers its solutions;
so does what comes of the bindings behind a select part, after each of them; and each sequence that
the engine was given, with the table that stands for it in the engine's query: a row for each
solution, and in it a cell for each binding. -/
theorem keeps_covered (hengine : setting.EngineDeclares) (state : RunState) (limit : Nat)
    (plan : Plan) {input : Sequence} (hinput : input.IsCovered)
    (hreplay : (start (state.renew limit) plan input).replay setting moves = some r) :
    (∀ t : Task, t.Within r.task →
      (∀ q ∈ t.sequences, q.vars.Nodup ∧ q.IsCovered) ∧
      ∀ f q, t = .assembling f q → ∀ k s bound,
        (f.bindAfter setting (f.plan.postSelect.take k) q s).1 = .ok bound →
          bound.vars.Nodup ∧ bound.IsCovered) ∧
    ∃ events, r.state.record = events ++ state.record ∧
      ∀ select inline, .evaluated select inline ∈ events →
        inline.vars.Nodup ∧ inline.IsCovered ∧ inline.toTable.Carries inline ∧
          (¬(inline.vars = [] ∧ inline.size = 1) →
            (select.toQuery inline).pattern.inlined? = some inline.toTable) := by
  have hcovered : IsCovered state r :=
    acts_induction (P := fun _ r => IsCovered state r) (fun _ _ _ _ hr hs => hr.step hengine hs)
      [] _ (isCovered_start state limit plan hinput) hreplay
  constructor
  · intro t ht
    have hsequences := (hcovered.tasks t ht).sequences
    refine ⟨fun q hq => ⟨q.nodup, hsequences q hq⟩, ?_⟩
    rintro f q rfl k s bound hb
    exact ⟨bound.nodup, Frame.isCovered_bindAfter (hsequences q List.mem_cons_self) hb⟩
  · obtain ⟨events, hrecord, hall⟩ := hcovered.asks
    refine ⟨events, hrecord, fun select inline he => ?_⟩
    have hinline := hall select inline he
    exact ⟨inline.nodup, hinline, Sequence.carries_toTable hinline, select.inlined?_toQuery⟩

/-- What an evaluation was given. -/
def inline? : Event → Option Sequence
  | .evaluated _ inline => some inline
  | _ => none

/-- A setting whose engine binds one more variable in every solution. -/
def findingSetting : Setting :=
  { bareSetting with
    engine := some fun _ _ input => .solutions <| (input.declare ⟨"z"⟩).withSolutions
      (input.solutions.map (·.overlay ⟨"z"⟩ (.blank ⟨"found"⟩))) }

theorem engineDeclares_findingSetting : findingSetting.EngineDeclares := by
  intro engine he earlier select input result hinput hr
  obtain rfl := Option.some.inj he
  obtain rfl := EngineReply.solutions.inj hr
  intro u hu
  obtain ⟨u, hmem, rfl⟩ := List.mem_map.mp hu
  exact (hinput.declare ⟨"z"⟩ u hmem).overlay (input.mem_declare ⟨"z"⟩)

/-- A plan that binds a variable, asks the engine, and binds another variable. -/
def findingPlan : Plan :=
  ⟨none, none, none, [], [.clause (.bind (.literal (.simple "a")) ⟨"x"⟩)], some (.select default),
    [.clause (.bind (.var ⟨"z"⟩) ⟨"y"⟩)], .rows none⟩

/-- Its run for one solution, up to what the engine has answered. -/
theorem finding_keeps_covered :
    ∃ r, (start ((RunState.start 1).renew 1) findingPlan .unit).replay findingSetting
        (List.replicate 4 (.work .here)) = some r ∧
      (∃ q ∈ r.task.sequences, q.vars = [⟨"x"⟩, ⟨"z"⟩] ∧ q.IsCovered) ∧
      ∃ select inline, .evaluated select inline ∈ r.state.record ∧ inline.vars = [⟨"x"⟩] ∧
        inline.toTable.Carries inline := by
  have hrun : ((start ((RunState.start 1).renew 1) findingPlan .unit).replay findingSetting
      (List.replicate 4 (.work .here))).any (fun r =>
        r.task.sequences.any (·.vars == [⟨"x"⟩, ⟨"z"⟩]) &&
          r.state.record.any fun e => (inline? e).any (·.vars == [⟨"x"⟩])) = true := by
    decide +kernel
  obtain ⟨r, hr, hall⟩ := (Option.any_eq_true _ _).mp hrun
  obtain ⟨hsequence, hevent⟩ := Bool.and_eq_true_iff.mp hall
  obtain ⟨htasks, events, hrecord, hasked⟩ := keeps_covered engineDeclares_findingSetting
    (RunState.start 1) 1 findingPlan Sequence.isCovered_unit hr
  obtain ⟨q, hq, hvars⟩ := List.any_eq_true.mp hsequence
  refine ⟨r, hr, ⟨q, hq, eq_of_beq hvars, ((htasks _ .self).1 q hq).2⟩, ?_⟩
  obtain ⟨e, he, hinline⟩ := List.any_eq_true.mp hevent
  cases e with
  | evaluated select inline =>
    have hnew : .evaluated select inline ∈ events := by
      rw [hrecord] at he
      simpa [RunState.start] using he
    exact ⟨select, inline, he, eq_of_beq hinline, (hasked select inline hnew).2.2.1⟩
  | _ => cases hinline

end Run

end TripleLoom
