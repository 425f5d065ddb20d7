import TripleLoom.Proofs.Generation.Executions

/-!
# TripleLoom.Proofs.Generation.Progress — what forms have written and are yet to write

A form at work goes through its elements once, from the first to the last.  `Task.forms` lists the
forms in a tree of tasks with the elements of triples that they are yet to write; a move changes the
part of the list that stands for the task that acts (`Task.forms_of_turning`).  So what was written
for an execution and what is yet to be written make up the elements of its plan at every point of a
run, and once the run is over everything has been written (`Run.Tracks`).
-/

namespace TripleLoom

open RunM

/-! ### Forms at work -/

/-- The elements of triples among some elements. -/
def PlanNode.triplesOf (nodes : List PlanNode) : List TriplesPlan :=
  nodes.filterMap PlanNode.triples?

namespace Task

mutual

/-- The forms at work in a task, by their forks, with the elements of triples that they are yet to
write. -/
def forms : Task → List (Nat × List TriplesPlan)
  | .iterating _ _ _ branches _ => formsAll branches
  | .generating g nodes _ running _ => (g.fork.fork, PlanNode.triplesOf nodes) :: formsAll running
  | .nesting _ _ inner => inner.forms
  | .finished _ | .clauses .. | .fetching .. | .selecting .. | .evaluating .. | .assembling ..
  | .writing _ | .entering .. | .asking .. => []

/-- The forms at work in some tasks. -/
def formsAll : List Task → List (Nat × List TriplesPlan)
  | [] => []
  | t :: rest => t.forms ++ formsAll rest

end

/-- The form that a task itself is. -/
def ownForms : Task → List (Nat × List TriplesPlan)
  | .generating g nodes .. => [(g.fork.fork, PlanNode.triplesOf nodes)]
  | _ => []

theorem formsAll_append (ts us : List Task) : formsAll (ts ++ us) = formsAll ts ++ formsAll us := by
  induction ts with
  | nil => rfl
  | cons t ts ih => rw [List.cons_append, formsAll, formsAll, ih, List.append_assoc]

theorem formsAll_eq_nil {ts : List Task} (h : ∀ t ∈ ts, t.forms = []) : formsAll ts = [] := by
  induction ts with
  | nil => rfl
  | cons t ts ih =>
    obtain ⟨ht, hts⟩ := List.forall_mem_cons.mp h
    rw [formsAll, ht, ih hts]
    rfl

variable {setting : Setting} {t u u' inner : Task} {s s' : RunState} {index : Nat}

theorem forms_of_isFinished (h : t.isFinished = true) : t.forms = [] := by
  cases t with
  | finished => rfl
  | _ => cases h

/-- The forms below a task stand between others, and those of what takes its place too. -/
theorem forms_replaceInside (h : t.inside? index = some inner) :
    ∃ before after, t.forms = before ++ inner.forms ++ after ∧
      ∀ inner' : Task, (replaceInside index inner' t).forms = before ++ inner'.forms ++ after := by
  have hcut : ∀ {ts : List Task}, ts[index]? = some inner → index < ts.length ∧
      formsAll ts = formsAll (ts.take index) ++ inner.forms ++ formsAll (ts.drop (index + 1)) := by
    intro ts hts
    obtain ⟨hlt, rfl⟩ := List.getElem?_eq_some_iff.mp hts
    refine ⟨hlt, ?_⟩
    conv_lhs => rw [← List.take_append_drop index ts, ← List.getElem_cons_drop hlt]
    rw [formsAll_append, formsAll, List.append_assoc]
  have hset : ∀ {ts : List Task}, index < ts.length → ∀ inner' : Task,
      formsAll (ts.set index inner') =
        formsAll (ts.take index) ++ inner'.forms ++ formsAll (ts.drop (index + 1)) := by
    intro ts hlt inner'
    rw [List.set_eq_take_append_cons_drop, if_pos hlt, formsAll_append, formsAll, List.append_assoc]
  cases t with
  | iterating f nodes i branches error =>
    obtain ⟨hlt, hforms⟩ := hcut h
    refine ⟨_, _, hforms, fun inner' => ?_⟩
    rw [replaceInside]
    split
    · next hf =>
      -- a branch that is over is taken away, and has no forms
      rw [forms, List.eraseIdx_eq_take_drop_succ, formsAll_append, forms_of_isFinished hf,
        List.append_nil]
    · exact hset hlt inner'
  | generating g nodes stage running error =>
    obtain ⟨hlt, hforms⟩ := hcut h
    refine ⟨_ :: _, _, congrArg (_ :: ·) hforms, fun inner' => ?_⟩
    exact congrArg (_ :: ·) (hset hlt inner')
  | nesting w sink old =>
    rw [inside?] at h
    split at h
    · obtain rfl := Option.some.inj h
      exact ⟨[], [], (List.append_nil _).symm, fun inner' => (List.append_nil _).symm⟩
    · cases h
  | _ => cases h

/-- What acts leaves the forms of everything else in their places. -/
theorem forms_of_step : ∀ {move : Move} {t t' : Task} {s s' : RunState},
    t.step setting move s = some (t', s') → ∃ u u' before after, t.at? move = some u ∧
      u.actOn? setting move.item? s = some (u', s') ∧ t.forms = before ++ u.forms ++ after ∧
        t'.forms = before ++ u'.forms ++ after
  | .here, t, t', _, _, h | .item _, t, t', _, _, h =>
    ⟨t, t', [], [], rfl, h, (List.append_nil _).symm, (List.append_nil _).symm⟩
  | .inside index move, t, t', s, s', h => by
    simp only [step, Option.bind_eq_bind, Option.bind_eq_some_iff] at h
    obtain ⟨inner, hi, ⟨inner', t₁⟩, hstep, heq⟩ := h
    obtain ⟨rfl, rfl⟩ := Prod.mk.inj (Option.some.inj heq)
    obtain ⟨u, u', before, after, hat, hact, hforms, hforms'⟩ := forms_of_step hstep
    obtain ⟨outer, rest, houter, hreplaced⟩ := forms_replaceInside hi
    refine ⟨u, u', outer ++ before, after ++ rest, by rw [at?, hi]; exact hat, hact, ?_, ?_⟩
    · rw [houter, hforms]
      simp only [List.append_assoc]
    · rw [hreplaced, hforms']
      simp only [List.append_assoc]

/-- What a task has just started has no forms yet. -/
theorem Turns.forms_eq (h : Turns setting s u u' s') (hu : u.forms = u.ownForms) :
    u'.forms = u'.ownForms := by
  have hnew : ∀ ts : List Task, (∀ t ∈ ts, t.forms = []) → ∀ g nodes stage error,
      (generating g nodes stage ts error).forms = (generating g nodes stage ts error).ownForms :=
    fun ts hts g nodes stage error => congrArg (_ :: ·) (formsAll_eq_nil hts)
  cases h with
  | stay => exact hu
  | tell => exact hu
  | hear f nodes i branches =>
    refine (formsAll_append ..).trans ?_
    rw [show formsAll branches = [] from hu]
    refine formsAll_eq_nil fun t ht => ?_
    obtain ⟨q, -, rfl⟩ := List.mem_map.mp ht
    rfl
  | nest g plan =>
    refine hnew _ (fun t ht => ?_) _ _ _ _
    obtain ⟨site, -, rfl⟩ := List.mem_map.mp ht
    rfl
  | resolve g call =>
    refine hnew _ (fun t ht => ?_) _ _ _ _
    obtain ⟨name, -, rfl⟩ := List.mem_map.mp ht
    rfl
  | resolved g nodes call calls =>
    refine hnew _ (fun t ht => ?_) _ _ _ _
    obtain ⟨call, -, rfl⟩ := List.mem_map.mp ht
    rfl
  | _ => rfl

/-- A task that acts keeps the forms below it, or there are none. -/
theorem forms_of_actOn? {item? : Option Nat} (h : u.actOn? setting item? s = some (u', s'))
    (ht : Turns setting s u u' s') :
    u'.forms = u.forms ∧ u'.ownForms = u.ownForms ∨
      u.forms = u.ownForms ∧ u'.forms = u'.ownForms := by
  cases item? with
  | some index =>
    rw [actOn?, Option.ite_none_right_eq_some] at h
    obtain ⟨hready, h⟩ := h
    cases u with
    | fetching f nodes v input fetches => exact .inr ⟨rfl, ht.forms_eq rfl⟩
    | iterating f nodes i branches error =>
      obtain ⟨rfl, -⟩ := Prod.mk.inj (Option.some.inj h)
      exact .inl ⟨rfl, rfl⟩
    | _ => simp [isItemReady] at hready
  | none =>
    rw [actOn?, Option.ite_none_right_eq_some] at h
    obtain ⟨hready, h⟩ := h
    cases u with
    | iterating f nodes i branches error =>
      by_cases hi : i.isAudible s.isClosed = true
      · simp only [act, bind_apply, get_apply, hi, if_true] at h
        obtain ⟨rfl, -⟩ := Prod.mk.inj (Option.some.inj h)
        have hstarted : formsAll ((i.hear.takeSequences f.plan.select.isSome).1.map
            (clauses f nodes)) = [] := formsAll_eq_nil fun t ht => by
          obtain ⟨q, -, rfl⟩ := List.mem_map.mp ht
          rfl
        refine .inl ⟨(formsAll_append ..).trans ?_, rfl⟩
        rw [hstarted, List.append_nil]
        rfl
      · rw [Bool.not_eq_true] at hi
        rw [isReady, hi, Bool.false_or, Bool.and_eq_true] at hready
        obtain rfl := List.isEmpty_iff.mp hready.2
        exact .inr ⟨rfl, ht.forms_eq rfl⟩
    | generating g nodes stage running error =>
      have hbelow : formsAll running = [] := formsAll_eq_nil fun t ht =>
        forms_of_isFinished (List.all_eq_true.mp hready t ht)
      have hown : (generating g nodes stage running error).forms =
          (generating g nodes stage running error).ownForms := congrArg (_ :: ·) hbelow
      exact .inr ⟨hown, ht.forms_eq hown⟩
    | nesting w sink inner =>
      have hown : (nesting w sink inner).forms = (nesting w sink inner).ownForms :=
        forms_of_isFinished (t := inner) hready
      exact .inr ⟨hown, ht.forms_eq hown⟩
    | _ => exact .inr ⟨rfl, ht.forms_eq rfl⟩

/-- A task that neither begins a form nor writes an element keeps its own form, or ends it. -/
theorem Turns.ownForms_eq (h : Turns setting s u u' s')
    (he : (Act.mk u s u' s').execution? setting = none)
    (hw : (Act.mk u s u' s').writeout? = none) :
    u'.ownForms = u.ownForms ∨ u'.ownForms = [] ∧ ∃ fork, u.ownForms = [(fork, [])] := by
  cases h with
  | generate => cases he
  | triples => cases hw
  | generated g => exact .inr ⟨rfl, g.fork.fork, rfl⟩
  | refuse g hnode =>
    refine .inl ?_
    rw [ownForms, ownForms, PlanNode.triplesOf, PlanNode.triplesOf, List.filterMap_cons_none hnode]
  | finish _ _ hnone | call hnone => cases u <;> first | exact .inl rfl | cases hnone
  | ask _ _ _ _ ht => rcases ht with rfl | rfl <;> exact .inl rfl
  | _ => exact .inl rfl

/-- A move changes the form of the task that acts in its place, if it changes any. -/
theorem Turning.forms {move : Move} {t' : Task} (h : Turning setting move t s t' s' u u') :
    t'.forms = t.forms ∧ u'.ownForms = u.ownForms ∨
      ∃ before after, t.forms = before ++ u.ownForms ++ after ∧
        t'.forms = before ++ u'.ownForms ++ after := by
  obtain ⟨v, v', before, after, hat, hact, hforms, hforms'⟩ := forms_of_step h.step
  obtain rfl := Option.some.inj (h.at?.symm.trans hat)
  obtain ⟨rfl, -⟩ := Prod.mk.inj (Option.some.inj (h.acts.symm.trans hact))
  rcases forms_of_actOn? hact h.turns with ⟨hsame, hown⟩ | ⟨hold, hnew⟩
  · exact .inl ⟨by rw [hforms', hsame, ← hforms], hown⟩
  · exact .inr ⟨before, after, hold ▸ hforms, hnew ▸ hforms'⟩

end Task

/-! ### Along a run -/

theorem Execution.writeouts_concat (e : Execution) (acts : List Act) (a : Act) :
    e.writeouts (acts ++ [a]) = e.writeouts acts ++
      a.writeout?.toList.filter (·.generation.fork.fork = e.state.nextFork) := by
  rw [Execution.writeouts, Run.writeouts_concat, List.filter_append]
  rfl

namespace Run

variable {setting : Setting} {acts : List Act} {r r' : Run} {move : RunMove}

/-- What the form of a fork is yet to write. -/
def pending (fork : Nat) (forms : List (Nat × List TriplesPlan)) : List TriplesPlan :=
  (forms.filter (·.1 = fork)).flatMap (·.2)

theorem pending_append (fork : Nat) (xs ys : List (Nat × List TriplesPlan)) :
    pending fork (xs ++ ys) = pending fork xs ++ pending fork ys := by
  rw [pending, List.filter_append, List.flatMap_append]
  rfl

theorem pending_eq_nil {fork : Nat} {forms : List (Nat × List TriplesPlan)}
    (h : ∀ f ∈ forms, f.1 ≠ fork) : pending fork forms = [] := by
  rw [pending, List.filter_eq_nil_iff.mpr fun f hf => by simpa using h f hf]
  rfl

theorem pending_singleton (fork : Nat) (plans : List TriplesPlan) :
    pending fork [(fork, plans)] = plans := by
  simp [pending]

/-- Every form at work has a fork of its own, and what was written for an execution and what it is
yet to write are the elements of its plan. -/
structure Tracks (setting : Setting) (acts : List Act) (r : Run) : Prop where
  forks : ∀ f ∈ r.task.forms, f.1 < r.state.nextFork
  nodup : (r.task.forms.map (·.1)).Nodup
  elements : ∀ e ∈ executions setting acts, (e.writeouts acts).map (·.plan) ++
    pending e.state.nextFork r.task.forms = PlanNode.triplesOf e.frame.plan.elements

theorem tracks_start (state : RunState) (limit : Nat) (plan : Plan) (input : Sequence) :
    Tracks setting [] (start (state.renew limit) plan input) :=
  ⟨fun _ hf => (nomatch hf), .nil, fun _ he => (nomatch he)⟩

/-- A form that is yet to write nothing more may go. -/
theorem Tracks.of_forms (h : Tracks setting acts r) {acts' : List Act}
    (hacts : executions setting acts' = executions setting acts)
    (hwriteouts : writeouts acts' = writeouts acts) (hgrows : r.state.Grows r'.state)
    (hforms : r'.task.forms = r.task.forms ∨ ∃ before fork after,
      r.task.forms = before ++ [(fork, [])] ++ after ∧ r'.task.forms = before ++ after) :
    Tracks setting acts' r' := by
  have hsub : r'.task.forms.Sublist r.task.forms := by
    rcases hforms with heq | ⟨before, fork, after, heq, heq'⟩
    · rw [heq]
    · rw [heq, heq', List.append_assoc]
      exact (List.Sublist.refl before).append (List.sublist_append_right _ _)
  have hpending : ∀ fork, pending fork r'.task.forms = pending fork r.task.forms := by
    intro fork
    rcases hforms with heq | ⟨before, k, after, heq, heq'⟩
    · rw [heq]
    · have hnone : pending fork [(k, [])] = [] := by
        rw [pending, List.flatMap_eq_nil_iff]
        intro f hf
        rw [List.mem_singleton.mp (List.mem_of_mem_filter hf)]
      rw [heq, heq', pending_append, pending_append, pending_append, hnone, List.append_nil]
  refine ⟨fun f hf => Nat.lt_of_lt_of_le (h.forks f (hsub.subset hf)) hgrows.forks,
    (hsub.map _).nodup h.nodup, fun e he => ?_⟩
  rw [Execution.writeouts, hwriteouts, hpending]
  exact h.elements e (hacts ▸ he)

/-- An execution that begins is yet to write everything. -/
theorem Tracks.of_execution (h : Tracks setting acts r) (hr : History setting acts r) {a : Act}
    {e : Execution} (ha : a.execution? setting = some e) (hw : a.writeout? = none)
    (hgrows : r.state.Grows e.state) (hbegan : r'.state = e.began)
    {before after : List (Nat × List TriplesPlan)} (hforms : r.task.forms = before ++ after)
    (hforms' : r'.task.forms = before ++
      [(e.state.nextFork, PlanNode.triplesOf e.frame.plan.elements)] ++ after) :
    Tracks setting (acts ++ [a]) r' := by
  have hforks := e.generates.forks
  have hlt : ∀ f ∈ before ++ after, f.1 < e.state.nextFork := fun f hf =>
    Nat.lt_of_lt_of_le (h.forks f (hforms ▸ hf)) hgrows.forks
  have holder : ∀ e' ∈ executions setting acts, e'.state.nextFork < e.state.nextFork := by
    intro e' he'
    have hbegan' := (hr.begun e' he').2.2.grows.forks
    rw [e'.generates.forks] at hbegan'
    exact Nat.lt_of_lt_of_le hbegan' hgrows.forks
  have hperm : r'.task.forms.Perm
      ((e.state.nextFork, PlanNode.triplesOf e.frame.plan.elements) :: r.task.forms) := by
    rw [hforms, hforms', List.append_assoc]
    exact List.perm_middle
  refine ⟨fun f hf => ?_, ?_, fun e' he' => ?_⟩
  · rw [hbegan, hforks]
    rcases List.mem_cons.mp (hperm.mem_iff.mp hf) with rfl | hf
    · exact Nat.lt_succ_self _
    · exact Nat.lt_succ_of_lt (hlt f (hforms ▸ hf))
  · refine (hperm.map _).nodup_iff.mpr (List.nodup_cons.mpr ⟨fun hmem => ?_, h.nodup⟩)
    obtain ⟨f, hf, heq⟩ := List.mem_map.mp hmem
    exact Nat.ne_of_lt (hlt f (hforms ▸ hf)) heq
  · rw [e'.writeouts_concat, hw, Option.toList_none, List.filter_nil, List.append_nil]
    have hothers : ∀ fork, fork ≠ e.state.nextFork →
        pending fork r'.task.forms = pending fork r.task.forms := by
      intro fork hne
      have hnone : pending fork [(e.state.nextFork, PlanNode.triplesOf e.frame.plan.elements)] = [] :=
        pending_eq_nil fun f hf => by rw [List.mem_singleton.mp hf]; exact hne.symm
      rw [hforms', hforms, pending_append, pending_append, pending_append, hnone, List.append_nil]
    rcases mem_executions_concat.mp he' with he' | he'
    · rw [hothers _ (Nat.ne_of_lt (holder e' he'))]
      exact h.elements e' he'
    · obtain rfl := Option.some.inj (ha.symm.trans he')
      have hnone : e.writeouts acts = [] := by
        refine List.filter_eq_nil_iff.mpr fun w hw => ?_
        obtain ⟨e', he', heq, -⟩ := hr.written w hw
        rw [← heq]
        exact fun hfork => Nat.ne_of_lt (holder e' he') (of_decide_eq_true hfork)
      rw [hnone, hforms', pending_append, pending_append, pending_singleton,
        pending_eq_nil fun f hf => Nat.ne_of_lt (hlt f (List.mem_append_left _ hf)),
        pending_eq_nil fun f hf => Nat.ne_of_lt (hlt f (List.mem_append_right _ hf))]
      exact List.append_nil _

/-- What is written is the first element that its form is yet to write. -/
theorem Tracks.of_writeout (h : Tracks setting acts r) {a : Act} {w : Writeout}
    {plans : List TriplesPlan} (ha : a.execution? setting = none) (hw : a.writeout? = some w)
    (hgrows : r.state.Grows r'.state) {before after : List (Nat × List TriplesPlan)}
    (hforms : r.task.forms = before ++ [(w.generation.fork.fork, w.plan :: plans)] ++ after)
    (hforms' : r'.task.forms = before ++ [(w.generation.fork.fork, plans)] ++ after) :
    Tracks setting (acts ++ [a]) r' := by
  have hkeys : r'.task.forms.map (·.1) = r.task.forms.map (·.1) := by
    rw [hforms, hforms', List.map_append, List.map_append, List.map_append, List.map_append]
    rfl
  have hnodup := h.nodup
  rw [hforms, List.append_assoc, List.singleton_append] at hnodup
  have hkey : w.generation.fork.fork ∉ (before ++ after).map (·.1) :=
    (List.nodup_cons.mp ((List.perm_middle.map _).nodup_iff.mp hnodup)).1
  have hothers : ∀ f ∈ before ++ after, f.1 ≠ w.generation.fork.fork :=
    fun f hf heq => hkey (heq ▸ List.mem_map_of_mem hf)
  refine ⟨fun f hf => ?_, hkeys ▸ h.nodup, fun e he => ?_⟩
  · obtain ⟨f', hf', heq⟩ := List.mem_map.mp (hkeys ▸ List.mem_map_of_mem hf)
    rw [← heq]
    exact Nat.lt_of_lt_of_le (h.forks f' hf') hgrows.forks
  · rw [executions_concat, ha, Option.toList_none, List.append_nil] at he
    rw [← h.elements e he, e.writeouts_concat, hw, Option.toList_some, hforms, hforms',
      pending_append, pending_append, pending_append, pending_append]
    by_cases hfork : w.generation.fork.fork = e.state.nextFork
    · have hnew : [w].filter (·.generation.fork.fork = e.state.nextFork) = [w] := by simp [hfork]
      rw [hnew, ← hfork, pending_singleton, pending_singleton,
        pending_eq_nil fun f hf => hothers f (List.mem_append_left _ hf),
        pending_eq_nil fun f hf => hothers f (List.mem_append_right _ hf)]
      simp
    · have hnone : ∀ plans, pending e.state.nextFork [(w.generation.fork.fork, plans)] = [] :=
        fun plans => pending_eq_nil fun f hf => by rw [List.mem_singleton.mp hf]; exact hfork
      have hnew : [w].filter (·.generation.fork.fork = e.state.nextFork) = [] := by simp [hfork]
      rw [hnew, hnone, hnone, List.append_nil]

/-- Every move keeps track. -/
theorem Tracks.step (h : Tracks setting acts r) (hr : History setting acts r)
    (hs : r.step setting move = some r') :
    Tracks setting (acts ++ (r.act? setting move).toList) r' := by
  obtain ⟨-, ⟨hact, htask, hevolves⟩ | ⟨m, u, u', hact, hturning⟩⟩ := step_cases hr.areIn hs
  · rw [hact, Option.toList_none, List.append_nil]
    exact h.of_forms rfl rfl hevolves.grows (.inl (by rw [htask]))
  · rw [hact, Option.toList_some]
    have hgrows := hturning.evolves.grows
    cases hw : (Act.mk u r.state u' r'.state).writeout? with
    | some w =>
      obtain ⟨-, -, nodes, running, error, rfl, rfl⟩ := Act.writeout?_eq_some hw hturning.turns
      rcases hturning.forms with ⟨-, hown⟩ | ⟨before, after, hforms, hforms'⟩
      · simp [Task.ownForms, PlanNode.triplesOf, PlanNode.triples?] at hown
      · exact h.of_writeout rfl hw hgrows hforms hforms'
    | none =>
      cases he : (Act.mk u r.state u' r'.state).execution? setting with
      | some e =>
        obtain ⟨-, hbound, hbegan, ⟨input, rfl⟩, rfl⟩ := Act.execution?_eq_some he hturning.turns
        rcases hturning.forms with ⟨-, hown⟩ | ⟨before, after, hforms, hforms'⟩
        · cases hown
        · exact h.of_execution hr he hw hbound.grows hbegan
            (hforms.trans (congrArg (· ++ after) (List.append_nil before))) hforms'
      | none =>
        refine h.of_forms ?_ ?_ hgrows ?_
        · rw [executions_concat, he, Option.toList_none, List.append_nil]
        · rw [writeouts_concat, hw, Option.toList_none, List.append_nil]
        · rcases hturning.forms with ⟨hsame, -⟩ | ⟨before, after, hforms, hforms'⟩
          · exact .inl hsame
          · rcases hturning.turns.ownForms_eq he hw with hown | ⟨hown, fork, hdone⟩
            · exact .inl (by rw [hforms', hown, ← hforms])
            · refine .inr ⟨before, fork, after, hdone ▸ hforms, ?_⟩
              rw [hforms', hown, List.append_nil]

/-- What a form has written is a part of its plan from the beginning on, and all of it once the run
is over. -/
theorem Tracks.elements_written (h : Tracks setting acts r) (he : e ∈ executions setting acts) :
    ∃ rest, (e.writeouts acts).map (·.plan) ++ rest = PlanNode.triplesOf e.frame.plan.elements ∧
      (r.isOver = true → rest = []) := by
  refine ⟨_, h.elements e he, fun hover => ?_⟩
  rw [Task.forms_of_isFinished hover]
  rfl

end Run

end TripleLoom
