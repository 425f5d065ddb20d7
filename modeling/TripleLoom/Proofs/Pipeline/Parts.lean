import TripleLoom.Proofs.Pipeline.Gathering
import TripleLoom.Proofs.Run.Step

/-!
# TripleLoom.Proofs.Pipeline.Parts — the tree of tasks as a list of parts

An iterator and the branches of its batches go on side by side.  So the tree of tasks is a list of
parts (`Task.parts`), and as long as none has failed a move makes one of them go on and puts what it
leaves in its place (`Task.exists_partStep`).  In a pipeline no task waits for the result of another,
so there the part acts on its own (`Acts`, `Pipeline.replaces_of_step`).
-/

namespace TripleLoom

open RunM

/-- What stands across from one element of a list, and from those before and behind it. -/
theorem exists_forall₂_append_cons {α β : Type} {R : α → β → Prop} {before after : List α} {a : α}
    {bs : List β} (h : List.Forall₂ R (before ++ a :: after) bs) :
    ∃ earlier b later, bs = earlier ++ b :: later ∧ List.Forall₂ R before earlier ∧ R a b ∧
      List.Forall₂ R after later := by
  induction before generalizing bs with
  | nil =>
    obtain ⟨b, later, hb, hlater, rfl⟩ := List.forall₂_cons_left_iff.mp h
    exact ⟨[], b, later, rfl, .nil, hb, hlater⟩
  | cons x before ih =>
    obtain ⟨y, ys, hy, hys, rfl⟩ := List.forall₂_cons_left_iff.mp h
    obtain ⟨earlier, b, later, rfl, hearlier, hb, hlater⟩ := ih hys
    exact ⟨y :: earlier, b, later, rfl, .cons hy hearlier, hb, hlater⟩

/-! ### Parts -/

mutual

/-- The parts of a task that go on independently; one that ended well is none. -/
def Task.parts : Task → List Task
  | .iterating f nodes i branches error => partsAll branches ++ [.iterating f nodes i [] error]
  | .finished none => []
  | t => [t]

/-- The parts of some tasks. -/
def Task.partsAll : List Task → List Task
  | [] => []
  | t :: rest => t.parts ++ partsAll rest

end

theorem Task.partsAll_append (xs ys : List Task) :
    partsAll (xs ++ ys) = partsAll xs ++ partsAll ys := by
  induction xs with
  | nil => rfl
  | cons t xs ih => rw [List.cons_append, partsAll, partsAll, ih, List.append_assoc]

theorem Task.partsAll_clauses (f : Frame) (nodes : List PlanNode) (inputs : List Sequence) :
    partsAll (inputs.map (.clauses f nodes)) = inputs.map (.clauses f nodes) := by
  induction inputs with
  | nil => rfl
  | cons input rest ih =>
    rw [List.map_cons, partsAll, ih]
    rfl

theorem Task.parts_of_inside (f : Frame) (nodes : List PlanNode) (i : Iteration) (error : Outcome)
    {branches : List Task} {index : Nat} {inner : Task} (h : branches[index]? = some inner) :
    (Task.iterating f nodes i branches error).parts =
      partsAll (branches.take index) ++ inner.parts ++ partsAll (branches.drop (index + 1)) ++
        [.iterating f nodes i [] error] := by
  obtain ⟨hlt, hget⟩ := List.getElem?_eq_some_iff.mp h
  have hbranches : branches = branches.take index ++ inner :: branches.drop (index + 1) := by
    rw [← hget, List.getElem_cons_drop, List.take_append_drop]
  rw [parts]
  conv_lhs => rw [hbranches]
  rw [partsAll_append, partsAll, ← List.append_assoc]

theorem Task.act_iterating_of_audible (setting : Setting) (f : Frame) (nodes : List PlanNode)
    (error : Outcome) {i : Iteration} {s : RunState} (h : i.isAudible s.isClosed = true)
    (branches : List Task) : (Task.iterating f nodes i branches error).act setting s =
      (.iterating f nodes (i.hear.takeSequences f.plan.select.isSome).2 (branches ++
        (i.hear.takeSequences f.plan.select.isSome).1.map (.clauses f nodes)) error, s) := by
  show (if i.isAudible s.isClosed = true then _ else _ : RunM Task) s = _
  rw [if_pos h]
  rfl

theorem Task.act_iterating_of_mute (setting : Setting) (f : Frame) (nodes : List PlanNode)
    (error : Outcome) {i : Iteration} {s : RunState} (h : i.isAudible s.isClosed = false)
    (branches : List Task) :
    (Task.iterating f nodes i branches error).act setting s = (.finished error, s) := by
  show (if i.isAudible s.isClosed = true then _ else _ : RunM Task) s = _
  rw [if_neg (by rw [h]; exact Bool.false_ne_true)]
  rfl

/-- An iterator that can go on with nothing to hear is done with its branches. -/
theorem Task.eq_nil_of_isReady {setting : Setting} {f : Frame} {nodes : List PlanNode}
    {i : Iteration} {branches : List Task} {error : Outcome} {s : RunState}
    (hready : (Task.iterating f nodes i branches error).isReady setting s = true)
    (haudible : i.isAudible s.isClosed = false) : i.isListening = false ∧ branches = [] := by
  rwa [Task.isReady, haudible, Bool.false_or, Bool.and_eq_true, Bool.not_eq_true',
    List.isEmpty_iff] at hready

/-- The parts of an iterator whose branch at an index has become another task. -/
theorem Task.parts_replaceInside (f : Frame) (nodes : List PlanNode) (i : Iteration)
    (error : Outcome) {branches : List Task} {index : Nat} {t : Task} (hlt : index < branches.length)
    (h : t.outcome = none) : (replaceInside index t (.iterating f nodes i branches error)).parts =
      partsAll (branches.take index) ++ t.parts ++ partsAll (branches.drop (index + 1)) ++
        [.iterating f nodes i [] error] := by
  show (if t.isFinished = true then _ else _ : Task).parts = _
  by_cases hf : t.isFinished = true
  · obtain rfl : t = .finished none := by
      cases t with
      | finished o => exact congrArg Task.finished h
      | _ => cases hf
    rw [if_pos hf, h, Option.or_none, parts, parts, List.eraseIdx_eq_take_drop_succ,
      partsAll_append, List.append_nil]
  · rw [if_neg hf, parts, List.set_eq_take_append_cons_drop, if_pos hlt, partsAll_append, partsAll,
      ← List.append_assoc]

/-- A part goes on by itself, or one of its fetches or streams does. -/
inductive Acts (setting : Setting) (p : Task) (s : RunState) : List Task → RunState → Prop where
  | here (h : p.isReady setting s = true) :
    Acts setting p s (p.act setting s).1.parts (p.act setting s).2
  | item {index : Nat} (h : p.isItemReady setting s index = true) :
    Acts setting p s (p.actItem setting index s).1.parts (p.actItem setting index s).2

theorem Task.eq_finished_of_outcome {t : Task} (h : (t.isFinished && t.outcome.isNone) = true) :
    t = .finished none := by
  cases t with
  | finished o =>
    rw [Bool.and_eq_true, Option.isNone_iff_eq_none] at h
    exact congrArg Task.finished h.2
  | _ => cases h

/-! ### One part goes on -/

namespace Task

/-- The error that a part ends with, or has kept for its end. -/
def error? : Task → Outcome
  | .finished o => o
  | .iterating _ _ _ _ error => error
  | _ => none

/-- Nothing that goes on independently has failed so far. -/
def IsFaultless (t : Task) : Prop := ∀ p ∈ t.parts, p.error? = none

variable {setting : Setting} {move : Move} {p p' t t' : Task} {s s' : RunState}

theorem IsFaultless.error?_eq_none {f : Frame} {nodes : List PlanNode} {i : Iteration}
    {branches : List Task} {error : Outcome}
    (h : (Task.iterating f nodes i branches error).IsFaultless) : error = none :=
  h (.iterating f nodes i [] error) (List.mem_append_right _ (List.mem_singleton.mpr rfl))

/-- No error is ever forgotten. -/
theorem IsFaultless.of_step (h : p.step setting move s = some (p', s')) (hp' : p'.IsFaultless) :
    p.error? = none := by
  cases p with
  | finished o => cases move <;> cases h
  | iterating f nodes i branches error =>
    cases move with
    | here =>
      rw [step, Option.ite_none_right_eq_some, Option.some.injEq] at h
      obtain ⟨-, h⟩ := h
      by_cases haudible : i.isAudible s.isClosed = true
      · rw [act_iterating_of_audible setting f nodes error haudible] at h
        obtain ⟨rfl, rfl⟩ := Prod.mk.inj h
        exact hp'.error?_eq_none
      · rw [act_iterating_of_mute setting f nodes error (by simpa using haudible)] at h
        obtain ⟨rfl, rfl⟩ := Prod.mk.inj h
        cases error with
        | none => rfl
        | some e => cases hp' _ (List.mem_singleton.mpr rfl)
    | item index =>
      rw [step, Option.ite_none_right_eq_some, Option.some.injEq] at h
      obtain ⟨rfl, rfl⟩ := Prod.mk.inj h.2
      exact hp'.error?_eq_none
    | inside index move =>
      simp only [Task.step, Option.bind_eq_bind, Option.bind_eq_some_iff] at h
      obtain ⟨inner, hi, ⟨inner', s₁⟩, hstep, heq⟩ := h
      obtain ⟨rfl, rfl⟩ := Prod.mk.inj (Option.some.inj heq)
      rw [replaceInside] at hp'
      split at hp'
      · exact (Option.or_eq_none_iff.mp hp'.error?_eq_none).1
      · exact hp'.error?_eq_none
  | _ => rfl

/-- A move makes one part of the tree go on, and what that becomes takes its place. -/
structure PartStep (setting : Setting) (t : Task) (move : Move) (s : RunState) (t' : Task)
    (s' : RunState) (before : List Task) (p : Task) (after : List Task) (own : Move) (p' : Task) :
    Prop where
  parts : t.parts = before ++ p :: after
  step : p.step setting own s = some (p', s')
  parts' : t'.parts = before ++ p'.parts ++ after
  at? : t.at? move = p.at? own ∧ move.item? = own.item? ∨
    ∃ f nodes i branches error, t.at? move = some (.iterating f nodes i branches error) ∧
      p = .iterating f nodes i [] error

theorem PartStep.self (hparts : t.parts = [t]) (h : t.step setting move s = some (t', s')) :
    PartStep setting t move s t' s' [] t [] move t' :=
  ⟨hparts, h, by simp, .inl ⟨rfl, rfl⟩⟩

/-- In a tree in which nothing fails there is one part that goes on. -/
theorem exists_partStep : ∀ {move : Move} {t t' : Task} {s s' : RunState}, t'.IsFaultless →
    t.step setting move s = some (t', s') →
    ∃ before p after own p', PartStep setting t move s t' s' before p after own p'
  | .here, t, t', s, s', _, h => by
    cases t with
    | iterating f nodes i branches error =>
      have hstep := h
      rw [step, Option.ite_none_right_eq_some, Option.some.injEq] at h
      obtain ⟨hready, h⟩ := h
      by_cases haudible : i.isAudible s.isClosed = true
      · -- the branches there are stay, and the part acts as if there were none
        have hact := act_iterating_of_audible setting f nodes error haudible
        rw [hact] at h
        obtain ⟨rfl, rfl⟩ := Prod.mk.inj h
        refine ⟨partsAll branches, .iterating f nodes i [] error, [], .here,
          ((Task.iterating f nodes i [] error).act setting s).1, rfl, ?_, ?_,
          .inr ⟨f, nodes, i, branches, error, rfl, rfl⟩⟩
        · rw [step, isReady, haudible, Bool.true_or, if_pos rfl, hact]
        · rw [hact, parts, parts, partsAll_append, List.nil_append, List.append_nil,
            List.append_assoc]
      · obtain ⟨-, rfl⟩ := eq_nil_of_isReady hready (by simpa using haudible)
        exact ⟨_, _, _, _, _, .self rfl hstep⟩
    | finished o => cases h
    | _ => exact ⟨_, _, _, _, _, .self rfl h⟩
  | .item index, t, t', s, s', _, h => by
    cases t with
    | iterating f nodes i branches error =>
      rw [step, Option.ite_none_right_eq_some, Option.some.injEq] at h
      obtain ⟨hready, h⟩ := h
      obtain ⟨rfl, rfl⟩ := Prod.mk.inj h
      refine ⟨partsAll branches, .iterating f nodes i [] error, [], .item index,
        .iterating f nodes (i.tell index) [] error, rfl, if_pos hready, ?_,
        .inr ⟨f, nodes, i, branches, error, rfl, rfl⟩⟩
      exact (List.append_nil _).symm
    | fetching => exact ⟨_, _, _, _, _, .self rfl h⟩
    | _ => cases h
  | .inside index move, t, t', s, s', hwell, h => by
    have hstep := h
    simp only [Task.step, Option.bind_eq_bind, Option.bind_eq_some_iff] at h
    obtain ⟨inner, hi, ⟨inner', s₁⟩, hinner, heq⟩ := h
    obtain ⟨rfl, rfl⟩ := Prod.mk.inj (Option.some.inj heq)
    cases t with
    | iterating f nodes i branches error =>
      have houtcome : inner'.outcome = none := by
        cases inner' with
        | finished o =>
          have hkept : (Task.iterating f nodes i (branches.eraseIdx index) (error.or o)).IsFaultless :=
            hwell
          exact (Option.or_eq_none_iff.mp hkept.error?_eq_none).2
        | _ => rfl
      obtain ⟨hlt, -⟩ := List.getElem?_eq_some_iff.mp hi
      have hparts' := parts_replaceInside f nodes i error hlt houtcome
      have hwell' : inner'.IsFaultless := fun q hq => hwell q (by
        rw [hparts']
        exact List.mem_append_left _ (List.mem_append_left _ (List.mem_append_right _ hq)))
      obtain ⟨before, p, after, own, p', hpart⟩ := exists_partStep hwell' hinner
      refine ⟨partsAll (branches.take index) ++ before, p,
        after ++ (partsAll (branches.drop (index + 1)) ++ [.iterating f nodes i [] error]), own, p',
        ?_, hpart.step, ?_, ?_⟩
      · rw [parts_of_inside f nodes i error hi, hpart.parts]
        simp
      · rw [hparts', hpart.parts']
        simp
      · rw [at?, hi]
        exact hpart.at?
    | generating | nesting => exact ⟨_, _, _, _, _, .self rfl hstep⟩
    | _ => cases hi

theorem PartStep.isFaultless {before after : List Task} {own : Move}
    (h : PartStep setting t move s t' s' before p after own p') (hwell : t'.IsFaultless) :
    p'.IsFaultless ∧ t.IsFaultless := by
  have hmem (q : Task) : q ∈ t'.parts ↔ (q ∈ before ∨ q ∈ p'.parts) ∨ q ∈ after := by
    rw [h.parts', List.mem_append, List.mem_append]
  have hp' : p'.IsFaultless := fun q hq => hwell q ((hmem q).mpr (.inl (.inr hq)))
  refine ⟨hp', fun q hq => ?_⟩
  rw [h.parts, List.mem_append, List.mem_cons] at hq
  rcases hq with hq | rfl | hq
  · exact hwell q ((hmem q).mpr (.inl (.inl hq)))
  · exact hp'.of_step h.step
  · exact hwell q ((hmem q).mpr (.inr hq))

end Task

/-! ### Pipelines -/

/-- A plan of clauses and plain templates, in a setting with deterministic iterator functions. -/
structure Pipeline where
  setting : Setting
  produce : Production
  produces : setting.functions.Produces produce
  frame : Frame
  templates : List (List TripleTemplate)
  select : frame.plan.select = none
  postSelect : frame.plan.postSelect = []
  output : frame.plan.output = .generate (templates.map fun ts => .triples ⟨ts, []⟩)

namespace Pipeline

variable (P : Pipeline)

/-- What the parts of a pipeline's tasks look like. -/
inductive Fits : Task → Prop where
  | clauses {bs : List BindingClause} {input : Sequence}
    (h : ∀ b ∈ bs, b.Runs P.setting.functions) : Fits (.clauses P.frame (bs.map .clause) input)
  | fetching {bs : List BindingClause} {v : Variable} {input : Sequence} {fetches : List Fetch}
    (h : ∀ b ∈ bs, b.Runs P.setting.functions) :
    Fits (.fetching P.frame (bs.map .clause) v input fetches)
  | iterating {bs : List BindingClause} {i : Iteration}
    (h : ∀ b ∈ bs, b.Runs P.setting.functions) (hi : i.Sound) :
    Fits (.iterating P.frame (bs.map .clause) i [] none)
  | assembling {input : Sequence} : Fits (.assembling P.frame input)
  | generating {g : Generation} {rest : List (List TripleTemplate)}
    (h : g.fork.sink = P.frame.context.sink) :
    Fits (.generating g (rest.map fun ts => .triples ⟨ts, []⟩) .idle [] none)

variable {P} {t : Task}

/-- A task that is over and of which only fitting parts are left has ended well. -/
theorem Fits.outcome_eq_none (h : ∀ p ∈ t.parts, P.Fits p) (hf : t.isFinished = true) :
    t.outcome = none ∧ t.parts = [] := by
  cases t with
  | finished o =>
    cases o with
    | none => exact ⟨rfl, rfl⟩
    | some e => cases h _ (List.mem_singleton.mpr rfl)
  | _ => cases hf

/-- The parts of an iterator whose branch at an index has become another task. -/
theorem parts_replaceInside (f : Frame) (nodes : List PlanNode) (i : Iteration) (error : Outcome)
    {branches : List Task} {index : Nat} (hlt : index < branches.length)
    (h : ∀ p ∈ t.parts, P.Fits p) :
    (Task.replaceInside index t (.iterating f nodes i branches error)).parts =
      Task.partsAll (branches.take index) ++ t.parts ++
        Task.partsAll (branches.drop (index + 1)) ++ [.iterating f nodes i [] error] := by
  refine Task.parts_replaceInside f nodes i error hlt ?_
  cases t with
  | finished o => exact (Fits.outcome_eq_none h rfl).1
  | _ => rfl

variable (P) in
/-- One part of a task acts, and what it leaves takes its place if it still fits. -/
def Replaces (t : Task) (s : RunState) (t' : Task) (s' : RunState) : Prop :=
  ∃ before p after ps, t.parts = before ++ p :: after ∧ Acts P.setting p s ps s' ∧
    ((∀ q ∈ ps, P.Fits q) → t'.parts = before ++ ps ++ after)

theorem Replaces.single {ps : List Task} {t' : Task} {s s' : RunState} (hparts : t.parts = [t])
    (h : Acts P.setting t s ps s') (hps : t'.parts = ps) : P.Replaces t s t' s' :=
  ⟨[], t, [], ps, hparts, h, fun _ => by rw [hps, List.nil_append, List.append_nil]⟩

theorem replaces_of_act {s : RunState} (hready : t.isReady P.setting s = true) :
    P.Replaces t s (t.act P.setting s).1 (t.act P.setting s).2 := by
  cases t with
  | iterating f nodes i branches error =>
    by_cases haudible : i.isAudible s.isClosed = true
    · -- the branches there are stay, and the part acts as if there were none
      have hact := Task.act_iterating_of_audible P.setting f nodes error haudible
      have hready' : (Task.iterating f nodes i [] error).isReady P.setting s = true := by
        rw [Task.isReady, haudible, Bool.true_or]
      have hacts := Acts.here hready'
      rw [hact] at hacts
      rw [hact]
      refine ⟨Task.partsAll branches, _, [], _, rfl, hacts, fun _ => ?_⟩
      rw [Task.parts, Task.parts, Task.partsAll_append, List.nil_append, List.append_nil,
        List.append_assoc]
    · obtain ⟨-, rfl⟩ := Task.eq_nil_of_isReady hready (by simpa using haudible)
      exact .single rfl (.here hready) rfl
  | finished o => cases hready
  | _ => exact .single rfl (.here hready) rfl

theorem replaces_of_actItem {index : Nat} {s : RunState}
    (hready : t.isItemReady P.setting s index = true) :
    P.Replaces t s (t.actItem P.setting index s).1 (t.actItem P.setting index s).2 := by
  cases t with
  | iterating f nodes i branches error =>
    exact ⟨Task.partsAll branches, _, [], _, rfl, .item hready, fun _ => (List.append_nil _).symm⟩
  | fetching f nodes v input fetches => exact .single rfl (.item hready) rfl
  | _ => cases hready

/-- A branch of an iterator in which a part acts. -/
theorem Replaces.inside {inner inner' : Task} {s s' : RunState} {index : Nat} {f : Frame}
    {nodes : List PlanNode} {i : Iteration} {branches : List Task} {error : Outcome}
    (h : P.Replaces inner s inner' s') (hi : branches[index]? = some inner)
    (hfit : ∀ p ∈ inner.parts, P.Fits p) :
    P.Replaces (.iterating f nodes i branches error) s
      (Task.replaceInside index inner' (.iterating f nodes i branches error)) s' := by
  obtain ⟨before, p, after, ps, hbefore, hacts, hafter⟩ := h
  refine ⟨Task.partsAll (branches.take index) ++ before, p, after ++
    Task.partsAll (branches.drop (index + 1)) ++ [.iterating f nodes i [] error], ps, ?_, hacts,
    fun hps => ?_⟩
  · rw [Task.parts_of_inside f nodes i error hi, hbefore]
    simp
  · have hfits : ∀ q ∈ inner'.parts, P.Fits q := fun q hq => by
      simp only [hafter hps, List.mem_append] at hq
      rcases hq with (hq | hq) | hq
      · exact hfit q (by simp [hbefore, hq])
      · exact hps q hq
      · exact hfit q (by simp [hbefore, hq])
    rw [parts_replaceInside f nodes i error (List.getElem?_eq_some_iff.mp hi).1 hfits, hafter hps]
    simp

/-- A move makes one part act, and what it leaves takes its place. -/
theorem replaces_of_step : ∀ {move : Move} {t t' : Task} {s s' : RunState},
    (∀ p ∈ t.parts, P.Fits p) → t.step P.setting move s = some (t', s') → P.Replaces t s t' s'
  | .here, t, t', s, s', _, h => by
    rw [Task.step, Option.ite_none_right_eq_some, Option.some.injEq] at h
    obtain ⟨hready, h⟩ := h
    obtain rfl : (t.act P.setting s).1 = t' := congrArg Prod.fst h
    obtain rfl : (t.act P.setting s).2 = s' := congrArg Prod.snd h
    exact replaces_of_act hready
  | .item index, t, t', s, s', _, h => by
    rw [Task.step, Option.ite_none_right_eq_some, Option.some.injEq] at h
    obtain ⟨hready, h⟩ := h
    obtain rfl : (t.actItem P.setting index s).1 = t' := congrArg Prod.fst h
    obtain rfl : (t.actItem P.setting index s).2 = s' := congrArg Prod.snd h
    exact replaces_of_actItem hready
  | .inside index move, t, t', s, s', hfit, h => by
    simp only [Task.step, Option.bind_eq_bind, Option.bind_eq_some_iff] at h
    obtain ⟨inner, hi, ⟨inner', s₁⟩, hstep, heq⟩ := h
    simp only [Option.pure_def, Option.some.injEq, Prod.mk.injEq] at heq
    obtain ⟨rfl, rfl⟩ := heq
    cases t with
    | iterating f nodes i branches error =>
      have hinner : ∀ p ∈ inner.parts, P.Fits p := fun p hp =>
        hfit p (by simp [Task.parts_of_inside f nodes i error hi, hp])
      exact (replaces_of_step hinner hstep).inside hi hinner
    | generating g nodes stage running error =>
      cases hfit _ (List.mem_singleton.mpr rfl)
      cases hi
    | nesting w sink inner => cases hfit _ (List.mem_singleton.mpr rfl)
    | _ => cases hi

end Pipeline

end TripleLoom
