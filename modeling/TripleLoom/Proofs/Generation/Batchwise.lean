import TripleLoom.Proofs.Generation.Lists
import TripleLoom.Proofs.Iterator.HandsOn

/-!
# TripleLoom.Proofs.Generation.Batchwise — a form behind an iterator, batch by batch

What follows an iterator is run for each of its closed batches, the form of the plan too.  So the
form has as many executions as there are batches with tuples, each for the solutions of one of them,
whatever else the executions start below them (`IteratorClause.Supplies`).  A list runs through the
solutions of an execution: it is one list for each batch (`Run.lists_per_batch`), and not one for all
solutions of the query.
-/

namespace TripleLoom

open RunM Batches

/-! ### Scopes apart -/

namespace Task

variable {setting : Setting} {scope : ScopeId} {t t' u u' : Task} {s s' : RunState} {move : Move}

/-- No task in the tree is in the scope. -/
def IsApart (scope : ScopeId) (t : Task) : Prop :=
  ∀ u : Task, u.Within t → ∀ c ∈ u.contexts, c.scope ≠ scope

/-- What is started goes on in scopes that are there, or in new ones. -/
theorem IsApart.step (h : t.IsApart scope) (hin : t.AreIn s) (hs : scope < s.scopes.count)
    (hm : t.step setting move s = some (t', s')) : t'.IsApart scope := by
  obtain ⟨u, u', hturning⟩ := exists_turning hin hm
  refine hturning.forall_within h (fun v index inner hv c hc => ?_) (fun c hc => ?_)
    fun v hb c hc => ?_
  · rw [contexts_replaceInside] at hc
    exact hv c hc
  · rcases hturning.turns.contexts c hc with ⟨d, hd, hscope, -⟩ | ⟨-, hnew⟩
    · exact hscope ▸ h u hturning.within d hd
    · exact Nat.ne_of_gt (Nat.lt_of_lt_of_le hs hnew)
  · obtain ⟨d, hd, hscope, -⟩ := hb.contexts c hc
    exact hscope ▸ h u hturning.within d hd

/-- The tasks of the batches of an iterator. -/
def branches : Task → List Task
  | .iterating _ _ _ branches _ => branches
  | _ => []

/-- The sequences that a task is to start the form of a plan for. -/
def awaited (scope : ScopeId) : Task → List Sequence
  | .clauses f _ q | .assembling f q => if f.context.scope = scope then [q] else []
  | _ => []

theorem IsApart.awaited_eq_nil (h : t.IsApart scope) : t.awaited scope = [] := by
  cases t with
  | clauses | assembling => exact if_neg (h _ .self _ List.mem_cons_self)
  | _ => rfl

theorem awaited_of_isFinished (h : t.isFinished = true) : t.awaited scope = [] := by
  cases t with
  | finished => rfl
  | _ => cases h

theorem flatMap_awaited (f : Frame) (qs : List Sequence) :
    (qs.map (Task.clauses f [])).flatMap (awaited f.context.scope) = qs := by
  rw [List.flatMap_map]
  simp only [awaited, if_pos]
  exact List.flatMap_singleton' qs

end Task

namespace Run

/-- The executions that begin in a scope. -/
def executionsIn (setting : Setting) (scope : ScopeId) (acts : List Act) : List Execution :=
  (executions setting acts).filter (·.frame.context.scope = scope)

theorem executionsIn_append (setting : Setting) (scope : ScopeId) (acts more : List Act) :
    executionsIn setting scope (acts ++ more) =
      executionsIn setting scope acts ++ executionsIn setting scope more := by
  rw [executionsIn, executions, List.filterMap_append, List.filter_append]
  rfl

end Run

/-! ### A form to come -/

/-- A frame whose plan has only a form to come. -/
structure Frame.IsFormal (f : Frame) : Prop where
  select : f.plan.select = none
  postSelect : f.plan.postSelect = []
  output : f.plan.output = .generate f.plan.elements

/-- The beginning, the execution of the form itself, and all that goes on in its scopes. -/
inductive Frame.Stands (f : Frame) : Task → Prop where
  | clauses (q : Sequence) : Stands f (.clauses f [] q)
  | assembling (q : Sequence) : Stands f (.assembling f q)
  | apart {t : Task} (h : t.IsApart f.context.scope) : Stands f t

namespace Frame

variable {setting : Setting} {f : Frame} {t t' u u' : Task} {s s' : RunState} {move : Move}

/-- An execution begins in scopes of its own. -/
theorem isApart_generation (hs : f.context.scope < s.scopes.count) (input : Sequence)
    (nodes : List PlanNode) :
    (Task.generating (f.generation s input) nodes .idle [] none).IsApart f.context.scope := by
  intro u hu c hc
  cases hu with
  | self =>
    rcases List.mem_cons.mp hc with rfl | hc
    · exact Nat.ne_of_gt hs
    · obtain ⟨scope, hscope, rfl⟩ := List.mem_map.mp hc
      exact Nat.ne_of_gt (Nat.lt_trans hs (List.mem_range'_1.mp hscope).1)
  | inside hi => cases hi

/-- A step towards the form, or of its execution: a sequence that is awaited no more has got an
execution of the form. -/
theorem Stands.step (h : f.Stands t) (hf : f.IsFormal) (hin : t.AreIn s)
    (hs : f.context.scope < s.scopes.count) (hm : t.step setting move s = some (t', s'))
    (hat : t.at? move = some u) (hacts : u.actOn? setting move.item? s = some (u', s')) :
    f.Stands t' ∧
      t.awaited f.context.scope = t'.awaited f.context.scope ++
        (Run.executionsIn setting f.context.scope [⟨u, s, u', s'⟩]).map (·.input) ∧
      ∀ e ∈ Run.executionsIn setting f.context.scope [⟨u, s, u', s'⟩], e.frame = f := by
  cases h with
  | clauses q =>
    cases move with
    | here =>
      obtain rfl : Task.clauses f [] q = u := Option.some.inj hat
      have hact : (Task.assembling f q, s) = (t', s') := by
        rw [← Option.some.inj hm, Task.act, Frame.runClauses, hf.select]
        rfl
      obtain ⟨rfl, rfl⟩ := Prod.mk.inj hact
      exact ⟨.assembling q, by simp [Task.awaited, Run.executionsIn, Run.executions,
        Act.execution?], List.forall_mem_nil _⟩
    | item | inside => cases hm
  | assembling q =>
    cases move with
    | here =>
      obtain rfl : Task.assembling f q = u := Option.some.inj hat
      have hbound : f.bindAfter setting f.plan.postSelect q s = (.ok q, s) := by
        rw [hf.postSelect]
        rfl
      have hact : (Task.generating (f.generation s q) f.plan.elements .idle [] none,
          (f.generate f.plan.elements q s).2) = (t', s') := by
        rw [← Option.some.inj hm, Task.act, Frame.assemble_eq, bind_apply, hbound]
        dsimp only
        rw [Frame.output, hf.output]
        exact Prod.ext (f.generate_spec _ q s).1.symm rfl
      have hnew : u' = t' := by
        have hsame := (Option.some.inj hacts).symm.trans (Option.some.inj hm)
        exact congrArg Prod.fst hsame
      obtain ⟨rfl, rfl⟩ := Prod.mk.inj hact
      subst hnew
      have hexecution : Run.executionsIn setting f.context.scope
          [⟨.assembling f q, s, .generating (f.generation s q) f.plan.elements .idle [] none,
            (f.generate f.plan.elements q s).2⟩] = [⟨f, q, s⟩] := by
        simp [Run.executionsIn, Run.executions, Act.execution?, hbound, Frame.generation]
      rw [hexecution]
      exact ⟨.apart (isApart_generation hs q _), by simp [Task.awaited], by simp⟩
    | item | inside => cases hm
  | apart h =>
    have hafter := h.step hin hs hm
    have hwithin := Task.within_at? hat
    have hnone : Run.executionsIn setting f.context.scope [⟨u, s, u', s'⟩] = [] := by
      refine List.filter_eq_nil_iff.mpr fun e he hscope => ?_
      obtain ⟨a, ha, hexecution⟩ := List.mem_filterMap.mp he
      obtain rfl := List.mem_singleton.mp ha
      obtain ⟨hcontexts, -⟩ :=
        Act.execution?_eq_some hexecution (Task.turns_actOn? hacts (hin u hwithin))
      exact h u hwithin e.frame.context (by rw [hcontexts]; exact List.mem_cons_self)
        (of_decide_eq_true hscope)
    rw [h.awaited_eq_nil, hafter.awaited_eq_nil, hnone]
    exact ⟨.apart hafter, rfl, List.forall_mem_nil _⟩

end Frame

/-! ### The batches of an iterator -/

/-- What an iterator function tells of a solution in a run: the batches of a stream, up to its end if
the run is not closed before, or nothing. -/
inductive IteratorFunction.Tells (f : IteratorFunction) (c : Context) (functions : FunctionRegistry)
    (arguments : List Expression) (u : Solution) (closed : Bool) : List TupleBatch → Prop where
  | stream {stream rest : TupleStream} {batches : List TupleBatch}
    (ha : f.Answers c functions arguments u stream) (hy : stream.Yields batches rest)
    (hr : closed = false → rest.Gives []) : Tells f c functions arguments u closed batches
  | refused (h : f.Refuses c functions arguments u) : Tells f c functions arguments u closed []

namespace IteratorClause

/-- The sequences that the closed batches with solutions come to. -/
def sequencesOf (P : IteratorClause) (closed : List (ClosedBatch Solution)) : List Sequence :=
  (closed.filter fun b => !b.items.isEmpty).map fun b =>
    (P.input.declareAll P.vars).withSolutions b.items

theorem sequencesOf_append (P : IteratorClause) (closed more : List (ClosedBatch Solution)) :
    P.sequencesOf (closed ++ more) = P.sequencesOf closed ++ P.sequencesOf more := by
  rw [sequencesOf, List.filter_append, List.map_append]
  rfl

/-- An iterator that has nothing behind it but the form of its plan. -/
structure IsLast (P : IteratorClause) : Prop where
  rest : P.rest = []
  form : P.frame.IsFormal

theorem IsLast.handedOn_eq {P : IteratorClause} (hP : P.IsLast)
    (closed : List (ClosedBatch Solution)) :
    P.handedOn closed = (P.sequencesOf closed).map (.clauses P.frame []) := by
  rw [handedOn, sequencesOf, hP.form.select, List.map_map]
  simp only [branch, hP.rest]
  rfl

/-- The sequences of the batches that have closed are those that branches are still to start the
form for, and those that it has been executed for. -/
structure Supplies (P : IteratorClause) (acts : List Act) (r : Run) (c : Chronicle) : Prop where
  attends : P.Attends r.task r.state c
  scope : P.frame.context.scope < r.state.scopes.count
  stands : ∀ t ∈ r.task.branches, P.frame.Stands t
  perm : (P.sequencesOf c.closed).Perm
    (r.task.branches.flatMap (Task.awaited P.frame.context.scope) ++
      (Run.executionsIn P.setting P.frame.context.scope acts).map (·.input))
  frame : ∀ e ∈ Run.executionsIn P.setting P.frame.context.scope acts, e.frame = P.frame

variable {P : IteratorClause} {acts : List Act} {r r' : Run} {c : Chronicle} {move : RunMove}

/-- The branches of an iterator one of which has gone on. -/
theorem branches_replaceInside (f : Frame) (nodes : List PlanNode) (i : Iteration)
    (error : Outcome) {branches : List Task} {index : Nat} {b : Task} (inner : Task)
    (hb : branches[index]? = some b) :
    ∃ before after, branches = before ++ b :: after ∧
      (Task.replaceInside index inner (.iterating f nodes i branches error)).branches =
        before ++ (if inner.isFinished then [] else [inner]) ++ after := by
  obtain ⟨hlt, rfl⟩ := List.getElem?_eq_some_iff.mp hb
  refine ⟨branches.take index, branches.drop (index + 1), ?_, ?_⟩
  · rw [List.getElem_cons_drop, List.take_append_drop]
  · rw [Task.replaceInside]
    split
    · rw [Task.branches, List.eraseIdx_eq_take_drop_succ, List.append_nil]
    · rw [Task.branches, List.set_eq_take_append_cons_drop, if_pos hlt, List.append_assoc]
      rfl

/-- What a move makes of the branches: those for the batches that have closed are to come, and one
that gets an execution of the form has awaited it. -/
structure Resupplies (P : IteratorClause) (branches : List Task)
    (closed : List (ClosedBatch Solution)) (branches' : List Task) (executions : List Execution) :
    Prop where
  stands : ∀ b ∈ branches', P.frame.Stands b
  perm : (P.sequencesOf closed ++
      branches.flatMap (Task.awaited P.frame.context.scope)).Perm
    (branches'.flatMap (Task.awaited P.frame.context.scope) ++ executions.map (·.input))
  frame : ∀ e ∈ executions, e.frame = P.frame

/-- Branches begin for the batches that have closed. -/
theorem IsLast.resupplies_handedOn (hP : P.IsLast) {branches : List Task}
    (hstands : ∀ b ∈ branches, P.frame.Stands b) (closed : List (ClosedBatch Solution)) :
    P.Resupplies branches closed (branches ++ P.handedOn closed) [] := by
  rw [hP.handedOn_eq]
  refine ⟨fun b hb => ?_, ?_, List.forall_mem_nil _⟩
  · rcases List.mem_append.mp hb with hb | hb
    · exact hstands b hb
    · obtain ⟨q, -, rfl⟩ := List.mem_map.mp hb
      exact .clauses q
  · rw [List.flatMap_append, Task.flatMap_awaited]
    exact List.perm_append_comm.trans (.of_eq (List.append_nil _).symm)

/-- One branch goes on, and the others stay as they are. -/
theorem IsLast.resupplies_inside (hP : P.IsLast) {s s' : RunState} {before after : List Task}
    {b b' u u' : Task} {m : Move} (hin : b.AreIn s)
    (hscope : P.frame.context.scope < s.scopes.count)
    (hstands : ∀ d ∈ before ++ b :: after, P.frame.Stands d)
    (hm : b.step P.setting m s = some (b', s')) (hat : b.at? m = some u)
    (hacts : u.actOn? P.setting m.item? s = some (u', s')) :
    P.Resupplies (before ++ b :: after) []
      (before ++ (if b'.isFinished then [] else [b']) ++ after)
      (Run.executionsIn P.setting P.frame.context.scope [⟨u, s, u', s'⟩]) := by
  obtain ⟨hstep, hawaited, hframe⟩ :=
    (hstands b (List.mem_append_right _ List.mem_cons_self)).step hP.form hin hscope hm hat hacts
  refine ⟨fun d hd => ?_, ?_, hframe⟩
  · simp only [List.mem_append] at hd
    rcases hd with (hd | hd) | hd
    · exact hstands d (List.mem_append_left _ hd)
    · split at hd
      · cases hd
      · exact List.mem_singleton.mp hd ▸ hstep
    · exact hstands d (List.mem_append_right _ (List.mem_cons_of_mem _ hd))
  · have hb' : (if b'.isFinished = true then [] else [b']).flatMap
        (Task.awaited P.frame.context.scope) = b'.awaited P.frame.context.scope := by
      split
      · next hover => rw [Task.awaited_of_isFinished hover, List.flatMap_nil]
      · exact List.flatMap_singleton _ _
    have hnil : P.sequencesOf [] = [] := rfl
    rw [hnil, List.nil_append, List.flatMap_append, List.flatMap_cons, List.flatMap_append,
      List.flatMap_append, hb', hawaited, List.append_assoc, List.append_assoc, List.append_assoc]
    exact (List.perm_append_comm.append_left _).append_left _

theorem Attends.branches_step {t t' u u' : Task} {s s' : RunState} {m : Move}
    (h : P.Attends t s c) (hP : P.IsLast) (hin : t.AreIn s)
    (hscope : P.frame.context.scope < s.scopes.count) (hstands : ∀ b ∈ t.branches, P.frame.Stands b)
    (hm : t.step P.setting m s = some (t', s')) (hat : t.at? m = some u)
    (hacts : u.actOn? P.setting m.item? s = some (u', s')) :
    ∃ closed, (c.extend P.setting s m t t').closed = c.closed ++ closed ∧
      P.Resupplies t.branches closed t'.branches
        (Run.executionsIn P.setting P.frame.context.scope [⟨u, s, u', s'⟩]) := by
  cases h with
  | finished =>
    rw [step_finished] at hm
    cases hm
  | waiting =>
    cases m with
    | here =>
      obtain rfl : P.task = u := Option.some.inj hat
      have hnone : t'.branches = [] := by
        have hact := Option.some.inj hm
        rw [act_task] at hact
        split at hact <;> exact congrArg Task.branches (congrArg Prod.fst hact).symm
      have htask : P.task.branches = [] := rfl
      rw [hnone, htask]
      exact ⟨[], rfl, List.forall_mem_nil _, .nil, List.forall_mem_nil _⟩
    | item | inside => cases hm
  | @working _ _ i branches error h hs hb hstarted =>
    cases m with
    | here =>
      obtain rfl : Task.iterating P.frame P.rest i branches error = u := Option.some.inj hat
      rw [Task.step, Option.ite_none_right_eq_some, Option.some.injEq] at hm
      obtain ⟨hready, hact⟩ := hm
      by_cases haudible : i.isAudible s.isClosed = true
      · rw [Task.act_iterating_of_audible P.setting P.frame P.rest error haudible,
          h.handedOn_hear] at hact
        obtain ⟨rfl, rfl⟩ := Prod.mk.inj hact
        exact ⟨i.hear.batches.closed, rfl, hP.resupplies_handedOn hstands _⟩
      · have hsilent : i.isAudible s.isClosed = false := by simpa using haudible
        obtain ⟨-, rfl⟩ := Task.eq_nil_of_isReady hready hsilent
        obtain ⟨hleave, -⟩ := Attends.leave h hs hb hstarted hready hsilent
        obtain ⟨rfl, rfl⟩ := Prod.mk.inj (hleave.symm.trans hact)
        exact ⟨[], (List.append_nil _).symm, List.forall_mem_nil _, .nil, List.forall_mem_nil _⟩
    | item index =>
      obtain rfl : Task.iterating P.frame P.rest i branches error = u := Option.some.inj hat
      rw [Task.step, Option.ite_none_right_eq_some, Option.some.injEq] at hm
      obtain ⟨rfl, rfl⟩ := Prod.mk.inj hm.2
      exact ⟨[], (List.append_nil _).symm, hstands, .of_eq (List.append_nil _).symm,
        List.forall_mem_nil _⟩
    | inside index move =>
      simp only [Task.step, Option.bind_eq_bind, Option.bind_eq_some_iff] at hm
      obtain ⟨b, hb, ⟨v, s₁⟩, hinner, heq⟩ := hm
      obtain ⟨rfl, rfl⟩ := Prod.mk.inj (Option.some.inj heq)
      obtain ⟨before, after, rfl, hafter⟩ := branches_replaceInside P.frame P.rest i error v hb
      rw [Task.at?, hb] at hat
      rw [hafter]
      refine ⟨[], ?_, hP.resupplies_inside (hin.inside hb) hscope hstands hinner hat hacts⟩
      rw [Chronicle.closed_extend_inside, List.append_nil]

/-- Every move keeps what an iterator supplies. -/
theorem Supplies.step (h : P.Supplies acts r c) (hP : P.IsLast)
    (hr : Run.History P.setting acts r) (hs : r.step P.setting move = some r') :
    ∃ c', P.Supplies (acts ++ (r.act? P.setting move).toList) r' c' := by
  classical
  obtain ⟨-, ⟨hact, htask, hevolves⟩ | ⟨m, u, u', hact, hturning⟩⟩ := Run.step_cases hr.areIn hs
  · rw [hact, Option.toList_none, List.append_nil]
    refine ⟨c, ?_, Nat.lt_of_lt_of_le h.scope hevolves.grows.scopes, ?_, ?_, h.frame⟩
    · rw [htask]
      exact h.attends.others (Run.isClosed_step hs)
    · rw [htask]
      exact h.stands
    · rw [htask]
      exact h.perm
  · obtain ⟨closed, hclosed, hstands, hperm, hframe⟩ := h.attends.branches_step hP hr.areIn h.scope
      h.stands hturning.step hturning.at? hturning.acts
    rw [hact, Option.toList_some]
    refine ⟨_, h.attends.step hturning.step,
      Nat.lt_of_lt_of_le h.scope hturning.evolves.grows.scopes, hstands, ?_, fun e he => ?_⟩
    · have hbefore := h.perm
      rw [hclosed, sequencesOf_append, Run.executionsIn_append]
      rw [List.perm_iff_count] at hperm hbefore ⊢
      intro q
      have hone := hperm q
      have hall := hbefore q
      simp only [List.map_append, List.count_append] at hone hall ⊢
      omega
    · rw [Run.executionsIn_append] at he
      exact (List.mem_append.mp he).elim (h.frame e) (hframe e)

/-! ### One input -/

section OneInput

variable {told : List (Nat × TupleBatch)} {closed : List (ClosedBatch Solution)} {i : Iteration}
variable {u : Solution}

/-- With one input all that was told is its. -/
theorem Recorded.addsOf_told (h : P.Recorded told closed i) (hu : P.input.solutions = [u]) :
    addsOf 0 told = told := by
  refine List.filter_eq_self.mpr fun a ha => ?_
  obtain ⟨feed, hfeed, heq⟩ := h.sources a ha
  obtain ⟨stream, rest, ⟨v, hv, -⟩, -⟩ := h.feeds feed hfeed
  rw [hu, heq] at hv
  obtain ⟨hlt, -⟩ := List.getElem?_eq_some_iff.mp hv
  exact beq_iff_eq.mpr (Nat.lt_one_iff.mp hlt)

/-- With one input every batch of tuples with tuples in it is a closed batch of its own. -/
theorem Recorded.sequencesOf_eq (h : P.Recorded told closed i)
    (hfit : FeedEvent.Fit i.batches.pending i.queue) (hu : P.input.solutions = [u])
    (hcount : addCount told 0 ≤ closed.length) :
    P.sequencesOf closed = (told.filter fun a => !a.2.isEmpty).map fun a =>
      (P.input.declareAll P.vars).withSolutions (a.2.map (u.withTuple P.vars)) := by
  have htold := h.addsOf_told hu
  have hzero : ∀ a ∈ told, a.1 = 0 := fun a ha =>
    beq_iff_eq.mp (List.filter_eq_self.mp htold a ha)
  have hone : ∀ k, addsOf 0 (ofRound k told) = ofRound k told := fun k =>
    List.filter_eq_self.mpr fun a ha => beq_iff_eq.mpr (hzero a ((ofRound_sublist k told).subset ha))
  have hround : ∀ k, ofRound k told = (told[k]?).toList := fun k => by
    rw [← hone, addsOf_ofRound, htold]
  have hitems : closed.map (·.items) =
      (List.range closed.length).map fun k => (ofRound k told).flatMap P.solutionsOf := by
    rw [← h.ids_closed, List.map_map]
    exact List.map_congr_left fun b hb => h.items_eq hfit hb
  -- a round is one batch of tuples or none, and those without tuples come to nothing
  have hrounds : ∀ ks : List Nat,
      (ks.map fun k => (ofRound k told).flatMap P.solutionsOf).filter (!·.isEmpty) =
        ((ks.flatMap (ofRound · told)).map P.solutionsOf).filter (!·.isEmpty) := by
    intro ks
    induction ks with
    | nil => rfl
    | cons k ks ih =>
      rw [List.map_cons, List.filter_cons, ih, List.flatMap_cons, List.map_append,
        List.filter_append, hround]
      cases told[k]? with
      | none => rfl
      | some a =>
        rw [Option.toList_some, List.flatMap_singleton, List.map_singleton, List.filter_singleton]
        cases (P.solutionsOf a).isEmpty <;> rfl
  have hall : (List.range closed.length).flatMap (ofRound · told) = told := by
    have hrange := flatMap_addsOf_ofRound 0 hcount
    simp only [hone] at hrange
    rw [hrange, htold]
  have hsolutions : ∀ a ∈ told, P.solutionsOf a = a.2.map (u.withTuple P.vars) := fun a ha => by
    rw [solutionsOf, hu, hzero a ha]
    rfl
  have hsequences : P.sequencesOf closed = ((closed.map (·.items)).filter (!·.isEmpty)).map
      (P.input.declareAll P.vars).withSolutions := by
    rw [List.filter_map, List.map_map]
    rfl
  rw [hsequences, hitems, hrounds, hall, List.map_congr_left hsolutions, List.filter_map,
    List.map_map]
  simp only [Function.comp_def, List.isEmpty_map]

/-- With one input an iterator has told all that a stream of its function has given, if there is one
and the run was not closed. -/
theorem Attends.tells {s : RunState} {o : Outcome} (h : P.Attends (.finished o) s c)
    (hu : P.input.solutions = [u]) :
    P.function.Tells P.frame.context P.setting.functions P.arguments u s.isClosed
        (c.told.map (·.2)) ∧
      P.sequencesOf c.closed = ((c.told.map (·.2)).filter (!·.isEmpty)).map fun tuples =>
        (P.input.declareAll P.vars).withSolutions (tuples.map (u.withTuple P.vars)) := by
  cases h with
  | @finished _ _ i _ h hs hb hstarted hqueue hopened hspent =>
    have hfit := hs.fit
    have hclosed := hs.none_closed
    rw [Iteration.batches_cutOff] at hfit hclosed
    rw [Iteration.queue_cutOff] at hfit
    have hcount := h.addCount_told_le hqueue hopened hclosed 0
    have htold := h.addsOf_told hu
    refine ⟨?_, ?_⟩
    · by_cases hfeeds : ∃ feed ∈ i.feeds, feed.input = 0
      · obtain ⟨feed, hfeed, hzero⟩ := hfeeds
        obtain ⟨stream, rest, ⟨v, hv, hanswers⟩, hyields, -, hend⟩ := h.feeds feed hfeed
        rw [hzero, hu] at hv
        obtain rfl : u = v := Option.some.inj hv
        rw [hzero, htold] at hyields
        exact .stream hanswers hyields fun hopen => hend (hspent hopen feed hfeed)
      · have hnone : c.told = [] := List.eq_nil_iff_forall_not_mem.mpr fun a ha => by
          obtain ⟨feed, hfeed, heq⟩ := h.sources a ha
          rw [← htold] at ha
          exact hfeeds ⟨feed, hfeed, heq.trans (beq_iff_eq.mp (List.mem_filter.mp ha).2)⟩
        rw [hnone]
        exact .refused ((h.invoked 0 u (by rw [hu]; rfl)).resolve_left hfeeds)
    · rw [h.sequencesOf_eq hfit hu hcount, List.filter_map, List.map_map]
      rfl

end OneInput

end IteratorClause

/-! ### Along a run -/

/-- A plan of an iterator and a form, with nothing before, between and behind them. -/
structure Plan.IsIteration (p : Plan) (name : Iri) (arguments : List Expression)
    (vars : List Variable) : Prop where
  bindings : p.bindings = [.clause (.iterator name arguments vars)]
  select : p.select = none
  postSelect : p.postSelect = []
  output : p.output = .generate p.elements

/-- How an execution of a form should come out for a batch of tuples that an iterator has given in a
solution: all elements are written for the batch's solutions, and a list of a variable is a
well-formed list of the values that the tuples have for it, in their order. -/
structure Execution.Lists (e : Execution) (acts : List Act) (plan : Plan) (vars : List Variable)
    (input : Sequence) (u : Solution) (tuples : TupleBatch) : Prop where
  plan_eq : e.frame.plan = plan
  input_eq : e.input = (input.declareAll vars).withSolutions (tuples.map (u.withTuple vars))
  elements : (e.writeouts acts).map (·.plan) = PlanNode.triplesOf plan.elements
  written : ∀ w ∈ e.writeouts acts, w.calls = w.triples.map .triple ∧
    w.triples.Perm (w.plainTriples ++ w.plan.lists.flatMap w.listTriples)
  lists : ∀ w ∈ e.writeouts acts, ∀ t ∈ w.plan.lists, ∀ (c : Context) (first : Solution)
    (subject : Resource) (predicate : Iri) (v : Variable) (values : List Term),
    e.generation.sites.head? = some (c, first) →
    t.subject.termIn (c.label? w.after) first = some subject.toTerm →
    t.predicate.termIn (c.label? w.after) first = some (.iri predicate) →
    t.element = .var v →
    tuples.map (fun tuple => (u.withTuple vars tuple).get? v) = values.map some →
    w.WellFormed t e.began.scopes.nextFresh tuples.length subject predicate values

/-- A list in which every node leads to the empty list has at most one value. -/
theorem IsList.length_le_one {triples : List Triple} {head : Term} {nodes : List BlankNode}
    {values : List Term} (h : IsList triples head nodes values)
    (hrest : ∀ t ∈ triples, t.predicate = Iri.rdf "rest" → t.object = Term.nil) :
    values.length ≤ 1 := by
  cases h with
  | nil => exact Nat.zero_le _
  | @cons node next value nodes values first rest h =>
    have hnext : next = Term.nil := by
      have hmem : next ∈ objectsOf triples (.blank node) (Iri.rdf "rest") := by
        rw [rest]
        exact List.mem_cons_self
      obtain ⟨t, ht, rfl⟩ := List.mem_map.mp hmem
      obtain ⟨ht, hspec⟩ := List.mem_filter.mp ht
      exact hrest t ht (of_decide_eq_true hspec).2
    cases h with
    | nil => exact Nat.le_refl _
    | cons => cases hnext

namespace Run

variable {setting : Setting} {acts : List Act} {r r' : Run} {moves : List RunMove}

/-- A run of a plan with an iterator starts with what the iterator supplies. -/
theorem supplies_start (P : IteratorClause) (state : RunState) (plan : Plan)
    (hbindings : plan.bindings = [.clause (.iterator P.name P.arguments P.vars)])
    (hrest : P.rest = [])
    (hframe : P.frame = ⟨plan, (start state plan P.input).context.withBase plan.base⟩) :
    P.Supplies [] (start state plan P.input) .empty := by
  have htask : (start state plan P.input).task = P.task := by
    show Task.clauses ⟨plan, (start state plan P.input).context.withBase plan.base⟩ plan.bindings
      P.input = _
    rw [IteratorClause.task, hframe, hrest, hbindings]
  have hin := (start_evolves state plan P.input).2 _ .self P.frame.context
    (by rw [htask]; exact List.mem_cons_self)
  have hnone : P.task.branches = [] := rfl
  refine ⟨?_, hin.scope, ?_, ?_, List.forall_mem_nil _⟩
  · rw [htask]
    exact .waiting
  · rw [htask, hnone]
    simp
  · rw [htask, hnone]
    exact .nil

/-- An execution of the form for a batch writes what it should. -/
theorem lists_of_execution {state : RunState} (hstate : state.IsSound) (limit : Nat) {query : Query}
    {numbering : Numbering} {plan : Plan} (hbuild : (Plan.build query numbering).1 = .ok plan)
    {input : Sequence} (hreplay : (start (state.renew limit) plan input).replay setting moves = some r)
    (hacts : (start (state.renew limit) plan input).acts setting moves = acts)
    (hover : r.isOver = true) {e : Execution} (he : e ∈ executions setting acts)
    (hplan : e.frame.plan = plan) {vars : List Variable} {u : Solution} {tuples : TupleBatch}
    (hinput : e.input = (input.declareAll vars).withSolutions (tuples.map (u.withTuple vars))) :
    e.Lists acts plan vars input u tuples := by
  obtain ⟨⟨rest, hplans, hrest⟩, hall⟩ := lists_well_formed hstate limit plan input hreplay hacts he
    (hplan.symm ▸ hbuild)
  rw [hrest hover, List.append_nil, hplan] at hplans
  refine ⟨hplan, hinput, hplans, fun w hw => ?_, fun w hw t ht => ?_⟩
  · obtain ⟨k, hk⟩ := List.getElem?_of_mem hw
    obtain ⟨-, hcalls, hperm, -⟩ := hall k w hk
    exact ⟨hcalls, hperm⟩
  · obtain ⟨k, hk⟩ := List.getElem?_of_mem hw
    obtain ⟨m, hm⟩ := List.getElem?_of_mem ht
    obtain ⟨hgeneration, -, -, hlists⟩ := hall k w hk
    intro c first subject predicate v values hhead hsubject hpredicate hv hvalues
    have hsize : e.input.size = tuples.length := by
      rw [hinput]
      exact List.length_map _
    rw [← hsize]
    refine (hlists m t hm).1 c first subject predicate values hhead hsubject hpredicate ?_
    have hsolutions : e.generation.sites.map (·.2) = tuples.map (u.withTuple vars) := by
      rw [Execution.generation, Generation.map_snd_sites, hinput]
      rfl
    calc w.elementsOf t = e.generation.sites.map fun site => site.2.get? v := by
          rw [Writeout.elementsOf, hgeneration, hv]
          rfl
      _ = (e.generation.sites.map (·.2)).map (·.get? v) := by
          rw [List.map_map]
          rfl
      _ = values.map some := by
          rw [hsolutions, List.map_map]
          exact hvalues

/-- **A list runs through a batch.**  Let the plan of a compiled query have an iterator and a form, and
nothing before, between and behind them.  Run for one solution to the end, it executes the form once for
each batch of tuples that the iterator's function has given, those without tuples apart, and no more
often; what a list then comes to is a list of the values of one batch, in the order of its tuples, with
nodes that no list of another execution has.  So there is one list for all tuples only if they come in
one batch. -/
theorem lists_per_batch {state : RunState} (hstate : state.IsSound) (limit : Nat) {query : Query}
    {numbering : Numbering} {plan : Plan} (hbuild : (Plan.build query numbering).1 = .ok plan)
    {name : Iri} {arguments : List Expression} {vars : List Variable}
    (hplan : plan.IsIteration name arguments vars) {function : IteratorFunction}
    (hfunction : setting.functions.iterator? name = some function) {input : Sequence} {u : Solution}
    (hinput : input.solutions = [u])
    (hreplay : (start (state.renew limit) plan input).replay setting moves = some r)
    (hover : r.isOver = true) :
    let acts := (start (state.renew limit) plan input).acts setting moves
    let executed := executionsIn setting r.context.scope acts
    ∃ batches order : List TupleBatch,
      function.Tells (r.context.withBase plan.base) setting.functions arguments u r.state.isClosed
        batches ∧
      order.Perm (batches.filter (!·.isEmpty)) ∧
      List.Forall₂ (fun e tuples => e.Lists acts plan vars input u tuples) executed order ∧
      executed.Pairwise fun e e' => ∀ w ∈ e.writeouts acts, ∀ t ∈ w.plan.lists,
        ∀ w' ∈ e'.writeouts acts, ∀ t' ∈ w'.plan.lists,
          List.Disjoint (w.nodesOf t) (w'.nodesOf t') := by
  intro acts executed
  let P : IteratorClause := ⟨setting,
    ⟨plan, (start (state.renew limit) plan input).context.withBase plan.base⟩, [], name, function,
    arguments, vars, input, hfunction⟩
  have hP : P.IsLast := ⟨rfl, hplan.select, hplan.postSelect, hplan.output⟩
  obtain ⟨⟨c, hsupplies⟩, hr, hcontext⟩ : (∃ c, P.Supplies acts r c) ∧ History setting acts r ∧
      r.context = (start (state.renew limit) plan input).context := by
    refine acts_induction (P := fun acts r => (∃ c, P.Supplies acts r c) ∧
      History setting acts r ∧ r.context = (start (state.renew limit) plan input).context)
      (fun acts r move r' h hs => ?_) [] _ ?_ hreplay
    · obtain ⟨⟨c, hsupplies⟩, hr, hcontext⟩ := h
      exact ⟨hsupplies.step hP hr hs, hr.step hs, (step_cases hr.areIn hs).1.trans hcontext⟩
    · exact ⟨⟨.empty, supplies_start P _ plan hplan.bindings rfl rfl⟩,
        history_start hstate limit plan input, rfl⟩
  have hframe : P.frame = ⟨plan, r.context.withBase plan.base⟩ := by rw [hcontext]
  have hscope : P.frame.context.scope = r.context.scope := by rw [hframe]; rfl
  obtain ⟨o, ho⟩ : ∃ o, r.task = .finished o := by
    cases htask : r.task with
    | finished o => exact ⟨o, rfl⟩
    | _ => rw [isOver, htask] at hover; cases hover
  have hattends := hsupplies.attends
  rw [ho] at hattends
  obtain ⟨htells, hsequences⟩ := hattends.tells hinput
  -- no branch is left, so every sequence has got its execution
  have hperm := hsupplies.perm
  rw [hsequences, ho, hscope] at hperm
  let sequence : TupleBatch → Sequence := fun tuples =>
    (input.declareAll vars).withSolutions (tuples.map (u.withTuple vars))
  obtain ⟨order, heq, horder⟩ : Relation.Comp (· = List.map sequence ·) List.Perm
      (executed.map (·.input)) ((c.told.map (·.2)).filter (!·.isEmpty)) := by
    rw [List.eq_map_comp_perm]
    exact hperm.symm
  rw [hframe] at htells
  have hinputs : List.Forall₂ (fun (e : Execution) tuples => e.input = sequence tuples) executed
      order := by
    have hsame := List.forall₂_eq_eq_eq (α := Sequence) ▸ heq
    exact List.forall₂_map_left_iff.mp (List.forall₂_map_right_iff.mp hsame)
  have hexecuted : ∀ e ∈ executed, e ∈ executions setting acts ∧ e.frame.plan = plan := by
    intro e he
    have hplanned := hsupplies.frame e (hscope ▸ he)
    exact ⟨(List.mem_filter.mp he).1, by rw [hplanned]⟩
  refine ⟨c.told.map (·.2), order, htells, horder, ?_, ?_⟩
  · obtain ⟨hlength, hzip⟩ := List.forall₂_iff_zip.mp hinputs
    refine List.forall₂_iff_zip.mpr ⟨hlength, fun hmem => ?_⟩
    obtain ⟨he, hplanned⟩ := hexecuted _ (List.of_mem_zip hmem).1
    exact lists_of_execution hstate limit hbuild hreplay rfl hover he hplanned (hzip hmem)
  · refine (hr.apart.filter _).imp_of_mem fun {e e'} he he' hbegan w hw t _ w' hw' t' _ => ?_
    exact hr.disjoint_nodesOf (hexecuted e he).1 hw (hexecuted e' he').1 hw' fun hsame =>
      absurd hsame (Execution.ne_of_evolves hbegan)

/-- A query for the list of the letters. -/
def spelling : Query :=
  { (default : Query) with
    bindings := [.iterator ⟨"urn:letters"⟩ [] [⟨"x"⟩]]
    form := .generate [.triples [⟨.iri ⟨"urn:s"⟩, .iri ⟨"urn:p"⟩, .list (.var ⟨"x"⟩)⟩]] }

/-- Its plan. -/
def spellingPlan : Plan := iteratorPlan "urn:letters" "x" [] [.triples ⟨[], [listOf 0 "urn:p"]⟩]

/-- The moves of its run: each of the two letters comes in a batch of its own. -/
def spellingMoves : List RunMove :=
  movesAt [] [.here, .item 0, .here] ++ movesAt [0] [.here, .here, .here, .here] ++
  movesAt [] [.item 0, .here] ++ movesAt [0] [.here, .here, .here, .here] ++
  movesAt [] [.item 0, .here, .here, .here]

theorem spelling_lists_per_batch :
    ∃ r, (start ((RunState.start 1).renew 1) spellingPlan .unit).replay lettersSetting
        spellingMoves = some r ∧ r.isOver = true ∧
      ∃ acts, (start ((RunState.start 1).renew 1) spellingPlan .unit).acts lettersSetting
          spellingMoves = acts ∧
        ∃ e e' tuples tuples', executionsIn lettersSetting r.context.scope acts = [e, e'] ∧
          e.Lists acts spellingPlan [⟨"x"⟩] .unit .empty tuples ∧
          e'.Lists acts spellingPlan [⟨"x"⟩] .unit .empty tuples' := by
  have hrun : ((start ((RunState.start 1).renew 1) spellingPlan .unit).replay lettersSetting
      spellingMoves).any (fun r => r.isOver && (executionsIn lettersSetting r.context.scope
        ((start ((RunState.start 1).renew 1) spellingPlan .unit).acts lettersSetting
          spellingMoves)).length == 2) = true := by
    decide +kernel
  obtain ⟨r, hr, hfound⟩ := (Option.any_eq_true _ _).mp hrun
  rw [Bool.and_eq_true, beq_iff_eq] at hfound
  obtain ⟨hover, hlength⟩ := hfound
  have hbuild : (Plan.build spelling .start).1 = .ok spellingPlan := rfl
  obtain ⟨batches, order, -, -, hlists, -⟩ := lists_per_batch (RunState.isSound_start 1) 1 hbuild
    ⟨rfl, rfl, rfl, rfl⟩ rfl (u := .empty) rfl hr hover
  obtain ⟨e, e', hboth⟩ := List.length_eq_two.mp hlength
  rw [hboth] at hlists
  obtain ⟨tuples, _, he, hrest, rfl⟩ := List.forall₂_cons_left_iff.mp hlists
  obtain ⟨tuples', _, he', -, rfl⟩ := List.forall₂_cons_left_iff.mp hrest
  exact ⟨r, hr, hover, _, rfl, e, e', tuples, tuples', hboth, he, he'⟩

/-- The iterator gives two tuples, but the subject gets two lists, and neither is a list of both. -/
theorem spelling_makes_two_lists :
    ∃ function stream, lettersSetting.functions.iterator? ⟨"urn:letters"⟩ = some function ∧
      function 0 [] = .ok stream ∧ stream.Gives [[some (.ofText "a")], [some (.ofText "b")]] ∧
      ∃ r, (start ((RunState.start 1).renew 1) spellingPlan .unit).replay lettersSetting
          spellingMoves = some r ∧ r.isOver = true ∧ r.state.isClosed = false ∧
        let triples := (Collected.ofCalls (r.finish.output r.context.sink)).triples
        (objectsOf triples (.iri ⟨"urn:s"⟩) ⟨"urn:p"⟩).length = 2 ∧
          ¬∃ head nodes, IsList triples head nodes [.ofText "a", .ofText "b"] := by
  have hrun : ((start ((RunState.start 1).renew 1) spellingPlan .unit).replay lettersSetting
      spellingMoves).any (fun r => r.isOver && !r.state.isClosed &&
        let triples := (Collected.ofCalls (r.finish.output r.context.sink)).triples
        (objectsOf triples (.iri ⟨"urn:s"⟩) ⟨"urn:p"⟩).length == 2 &&
          triples.all fun t => t.predicate ≠ Iri.rdf "rest" || t.object = Term.nil) = true := by
    decide +kernel
  obtain ⟨r, hr, hfound⟩ := (Option.any_eq_true _ _).mp hrun
  simp only [Bool.and_eq_true, Bool.not_eq_true', beq_iff_eq, List.all_eq_true, Bool.or_eq_true,
    decide_eq_true_eq] at hfound
  obtain ⟨⟨hover, hopen⟩, hheads, hrest⟩ := hfound
  have hgives : (TupleStream.given [[[some (.ofText "a")]], [[some (.ofText "b")]]] .finished).Gives
      ([[some (.ofText "a")]] ++ ([[some (.ofText "b")]] ++ [])) :=
    .batch rfl (.batch rfl (.finished rfl))
  refine ⟨_, _, rfl, rfl, hgives, r, hr, hover, hopen, hheads, ?_⟩
  rintro ⟨head, nodes, hlist⟩
  exact absurd (hlist.length_le_one fun t ht hp => (hrest t ht).resolve_left (absurd hp))
    (by decide)

end Run

end TripleLoom
