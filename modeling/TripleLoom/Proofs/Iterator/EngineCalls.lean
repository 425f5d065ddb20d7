import TripleLoom.Proofs.Iterator.HandsOn
import TripleLoom.Proofs.Run.Chain
import TripleLoom.Proofs.Run.Coverage

/-!
# TripleLoom.Proofs.Iterator.EngineCalls — the calls of the engine for the batches of iterators

A sequence that gets through all clauses of a plan is handed to the engine once, a solution that
binds nothing standing for none.  An iterator makes as many sequences of one as it closes batches.
So the calls of the engine are those that a chain of clauses owes from its beginning, and one for
each batch of its last iterator (`SelectFrame.Owes.lifetime`).  An iterator has nothing to invoke
its function for if there is no solution, and closes no batch then (`Task.IsBarren`); a batch
without solutions leads to a call of the engine only if no iterator follows
(`IteratorClause.asks_for_last_batches`).
-/

namespace TripleLoom

open RunM
open List (Forall₂)

/-! ### Calls and batches in the life of a chain -/

/-- The move that a task makes itself. -/
def TaskMove.own? : TaskMove → Option Move
  | .own move => some move
  | .others _ => none

namespace Task

/-- What a move hands to the engine for the select part behind a chain of clauses.  What the output
behind the select part does is no part of the chain. -/
def asked? : Move → Task → Option (Select × Sequence)
  | .here, .evaluating _ select input _ => some (select, input)
  | .inside index move, .iterating _ _ _ branches _ => (branches[index]?).bind (asked? move)
  | _, _ => none

/-- The batches of the last iterators of a chain that a move makes close. -/
def lastClosed (s : RunState) : Move → Task → List (ClosedBatch Solution)
  | .here, .iterating _ nodes i _ _ =>
    if nodes.any PlanNode.isIterator || !i.isAudible s.isClosed then [] else i.hear.batches.closed
  | .inside index move, .iterating _ _ _ branches _ =>
    ((branches[index]?).map (lastClosed s move)).getD []
  | _, _ => []

/-- What is seen of the moves of a task, as far as its life can happen. -/
def seen {α : Type} (setting : Setting) (see : RunState → Move → Task → List α) :
    Task → RunState → List TaskMove → List α
  | _, _, [] => []
  | t, s, move :: rest =>
    match t.proceed setting s move with
    | some (t', s') => (move.own?.map (see s · t)).getD [] ++ seen setting see t' s' rest
    | none => []

/-- The calls of the engine for the select part behind a chain. -/
def engineCalls (setting : Setting) : Task → RunState → List TaskMove → List (Select × Sequence) :=
  seen setting fun _ move t => (t.asked? move).toList

/-- The batches of the last iterators of a chain. -/
def lastBatches (setting : Setting) : Task → RunState → List TaskMove → List (ClosedBatch Solution) :=
  seen setting fun s move t => t.lastClosed s move

variable {setting : Setting} {s s' : RunState}

/-- What is handed to an engine is recorded as an evaluation. -/
theorem record_of_asked {engine : PatternEngine} (hengine : setting.engine = some engine) :
    ∀ {move : Move} {t t' : Task} {call : Select × Sequence},
    t.step setting move s = some (t', s') → t.asked? move = some call →
    s'.record = .evaluated call.1 call.2 :: s.record := by
  intro move
  induction move with
  | here =>
    intro t t' call hm ha
    cases t with
    | evaluating f select input permit =>
      cases ha
      have hact : f.evaluate setting select input permit s = (t', s') := Option.some.inj hm
      simp only [Frame.evaluate, hengine, bind_apply, get_apply] at hact
      cases hr : engine s.evaluations select input <;> rw [hr] at hact <;>
        · obtain ⟨-, rfl⟩ := Prod.mk.inj hact
          rfl
    | _ => cases ha
  | item index => intro t t' call hm ha; cases ha
  | inside index move ih =>
    intro t t' call hm ha
    cases t with
    | iterating f nodes i branches error =>
      simp only [step, Option.bind_eq_bind, Option.bind_eq_some_iff] at hm
      obtain ⟨u, hu, ⟨v, s₁⟩, hinner, heq⟩ := hm
      obtain ⟨rfl, rfl⟩ := Prod.mk.inj (Option.some.inj heq)
      have hget : branches[index]? = some u := hu
      rw [asked?, hget] at ha
      exact ih hinner ha
    | _ => cases ha

end Task

/-- The output of a plan makes no calls of the chain. -/
theorem Task.quiet_of_isOutput {t : Task} (h : t.isOutput = true) (s : RunState) (move : Move) :
    t.asked? move = none ∧ t.lastClosed s move = [] := by
  cases t with
  | clauses | fetching | iterating | selecting | evaluating | entering | asking => cases h
  | finished | assembling | generating | writing | nesting =>
    exact ⟨by cases move <;> rfl, by cases move <;> rfl⟩

/-- A sequence that is handed to the engine for one of so many solutions. -/
def Sequence.StandsIn (input : Sequence) (size : Nat) : Prop :=
  if size = 0 then input = .unit else input.size = size

/-! ### What a chain owes -/

/-- A plan with a select part, and a setting with an engine for it. -/
structure SelectFrame where
  setting : Setting
  frame : Frame
  select : Select
  engine : PatternEngine
  selects : frame.plan.select = some (.select select)
  asks : setting.engine = some engine

theorem Context.size_bindAll (c : Context) (functions : FunctionRegistry) (e : Expression)
    (v : Variable) (input : Sequence) (s : RunState) :
    (c.bindAll functions e v input s).1.size = input.size :=
  (RunM.forall₂_mapM (R := fun _ _ => True) (fun _ _ => trivial) input.solutions s).length_eq.symm

namespace SelectFrame

/-- What some clauses have still to hand to the engine for so many solutions.  With an iterator
among them that is up to its batches. -/
def owed (nodes : List PlanNode) (size : Nat) : List Nat :=
  if nodes.any PlanNode.isIterator then [] else [size]

/-- The sizes of the sequences that a task of a chain has still to hand to the engine. -/
inductive Owes (S : SelectFrame) : Task → List Nat → Prop where
  | clauses {nodes : List PlanNode} (hn : ∀ node ∈ nodes, node.isClause = true)
      (input : Sequence) : Owes S (.clauses S.frame nodes input) (owed nodes input.size)
  | fetching {nodes : List PlanNode} (hn : ∀ node ∈ nodes, node.isClause = true) (v : Variable)
      (input : Sequence) (fetches : List Fetch) :
    Owes S (.fetching S.frame nodes v input fetches) (owed nodes fetches.length)
  | iterating {nodes : List PlanNode} (hn : ∀ node ∈ nodes, node.isClause = true) (i : Iteration)
      {branches : List Task} {sizes : List (List Nat)} (hb : Forall₂ (Owes S) branches sizes)
      (error : Outcome) : Owes S (.iterating S.frame nodes i branches error) sizes.flatten
  | selecting {input : Sequence} {size : Nat} (h : input.StandsIn size) :
    Owes S (.selecting S.frame S.select input) [size]
  | evaluating {input : Sequence} {size : Nat} (h : input.StandsIn size) (permit : Option Nat) :
    Owes S (.evaluating S.frame S.select input permit) [size]
  | output {t : Task} (h : t.isOutput = true) : Owes S t []

/-- A call of the engine for so many solutions. -/
def Serves (S : SelectFrame) (call : Select × Sequence) (size : Nat) : Prop :=
  call.1 = S.select ∧ call.2.StandsIn size

/-- A task has handed over some of what it owed, and owes the rest and what some closed batches have
added. -/
def Pays (S : SelectFrame) (calls : List (Select × Sequence)) (owed : List Nat)
    (closed : List (ClosedBatch Solution)) (t : Task) : Prop :=
  ∃ served owes, S.Owes t owes ∧ Forall₂ S.Serves calls served ∧
    (served ++ owes).Perm (closed.map (·.items.length) ++ owed)

variable {S : SelectFrame} {t t' : Task} {s s' : RunState} {move : Move} {sizes : List Nat}

/-- A task that still owes the same. -/
theorem Owes.pays (h : S.Owes t sizes) : S.Pays [] sizes [] t := ⟨[], sizes, h, .nil, .refl _⟩

theorem Owes.of_isFinished (h : S.Owes t sizes) (hover : t.isFinished = true) : sizes = [] := by
  cases h with
  | output => rfl
  | _ => cases hover

theorem standsIn_substituted (input : Sequence) :
    (if input.isEmpty then .unit else input : Sequence).StandsIn input.size := by
  unfold Sequence.StandsIn
  by_cases h : input.size = 0
  · have hempty : input.isEmpty = true := List.isEmpty_iff_length_eq_zero.mpr h
    rw [if_pos h, if_pos hempty]
  · have hempty : ¬ input.isEmpty = true := fun he => h (List.isEmpty_iff_length_eq_zero.mp he)
    rw [if_neg h, if_neg hempty]

/-- The next clause of a chain neither adds to what is owed nor takes from it. -/
theorem pays_clauses {nodes : List PlanNode} (hn : ∀ node ∈ nodes, node.isClause = true)
    {input : Sequence} (hm : (Task.clauses S.frame nodes input).step S.setting move s = some (t', s')) :
    S.Pays ((Task.clauses S.frame nodes input).asked? move).toList (owed nodes input.size)
      ((Task.clauses S.frame nodes input).lastClosed s move) t' := by
  cases Task.chainStep_of_step rfl rfl hm with
  | bind _ e v rest =>
    have hsize := S.frame.context.size_bindAll S.setting.functions e v input s
    have howes := Owes.clauses (S := S) (List.forall_mem_cons.mp hn).2
      (S.frame.context.bindAll S.setting.functions e v input s).1
    rw [hsize] at howes
    exact howes.pays
  | source _ document accept v rest =>
    have howes := Owes.fetching (S := S) (List.forall_mem_cons.mp hn).2 v (input.declare v)
      (input.solutions.map (Fetch.ofSolution document accept))
    rw [List.length_map] at howes
    exact howes.pays
  | iterate _ _ _ _ _ rest =>
    -- what is owed is up to the batches of this iterator, or of one behind it
    exact (Owes.iterating (List.forall_mem_cons.mp hn).2 _ .nil none).pays
  | @refuse _ node hnode rest _ o =>
    have hiterator : (node :: rest).any PlanNode.isIterator = true := by
      rw [List.any_cons, hnode (hn node List.mem_cons_self), Bool.true_or]
    have howed : owed (node :: rest) input.size = [] := if_pos hiterator
    rw [howed]
    exact (Owes.output rfl).pays
  | select _ hselect =>
    have hsame := hselect.symm.trans S.selects
    obtain rfl : _ = S.select := PlanNode.select.inj (Option.some.inj hsame)
    exact (Owes.selecting (standsIn_substituted input)).pays
  | fail _ _ hnode hengine =>
    have hnone := hengine S.select (Option.some.inj (hnode.symm.trans S.selects))
    rw [S.asks] at hnone
    cases hnone
  | assemble _ hnone =>
    rw [S.selects] at hnone
    cases hnone

/-- The last iterator of a chain owes a call for each batch that it closes, and one before it leaves
that to those behind it. -/
theorem pays_hear {nodes : List PlanNode} (hn : ∀ node ∈ nodes, node.isClause = true)
    {i : Iteration} {branches : List Task} {sizes : List (List Nat)}
    (hb : Forall₂ S.Owes branches sizes) (error : Outcome)
    (haudible : i.isAudible s.isClosed = true) :
    S.Pays [] sizes.flatten
      ((Task.iterating S.frame nodes i branches error).lastClosed s .here)
      (.iterating S.frame nodes (i.hear.takeSequences S.frame.plan.select.isSome).2 (branches ++
        (i.hear.takeSequences S.frame.plan.select.isSome).1.map (.clauses S.frame nodes)) error) := by
  let closed := i.hear.batches.closed
  have hstarted : (i.hear.takeSequences S.frame.plan.select.isSome).1.map
      (.clauses S.frame nodes) = closed.map fun b =>
        Task.clauses S.frame nodes (i.hear.input.withSolutions b.items) := by
    have hall : closed.filter (fun b => S.frame.plan.select.isSome || !b.items.isEmpty) = closed :=
      List.filter_eq_self.mpr fun b _ => by rw [S.selects]; rfl
    show List.map _ (List.map _ (List.filter _ closed)) = _
    rw [hall, List.map_map]
    rfl
  have hnew : Forall₂ S.Owes (closed.map fun b =>
      Task.clauses S.frame nodes (i.hear.input.withSolutions b.items))
      (closed.map fun b => owed nodes b.items.length) := by
    rw [List.forall₂_map_left_iff, List.forall₂_map_right_iff, List.forall₂_same]
    exact fun b _ => .clauses hn (i.hear.input.withSolutions b.items)
  have hadded : (closed.map fun b => owed nodes b.items.length).flatten =
      ((Task.iterating S.frame nodes i branches error).lastClosed s .here).map (·.items.length) := by
    rw [Task.lastClosed, haudible]
    unfold owed
    cases nodes.any PlanNode.isIterator with
    | true => simp
    | false => simpa [closed, ← List.flatMap_def] using List.map_eq_flatMap.symm
  rw [hstarted]
  refine ⟨[], _, .iterating hn _ (List.rel_append hb hnew) error, .nil, ?_⟩
  rw [List.nil_append, List.flatten_append, hadded]
  exact List.perm_append_comm

/-- A branch of an iterator pays what it owes. -/
theorem Pays.inside {nodes : List PlanNode} (hn : ∀ node ∈ nodes, node.isClause = true)
    (i : Iteration) {branches : List Task} {sizes : List (List Nat)}
    (hb : Forall₂ S.Owes branches sizes) (error : Outcome) {index : Nat} {u v : Task}
    (hu : branches[index]? = some u) {calls : List (Select × Sequence)}
    {closed : List (ClosedBatch Solution)}
    (hv : ∀ owed, S.Owes u owed → S.Pays calls owed closed v) :
    S.Pays calls sizes.flatten closed
      (v.replaceInside index (.iterating S.frame nodes i branches error)) := by
  obtain ⟨hlt, hget⟩ := List.getElem?_eq_some_iff.mp hu
  have hsplit : branches = branches.take index ++ u :: branches.drop (index + 1) := by
    rw [← hget, List.getElem_cons_drop, List.take_append_drop]
  have hbranches := hb
  rw [hsplit] at hbranches
  obtain ⟨before, own, after, rfl, hbefore, hown, hafter⟩ := exists_forall₂_append_cons hbranches
  obtain ⟨served, owes, howes, hserved, hperm⟩ := hv own hown
  have hrest : (served ++ (before.flatten ++ (owes ++ after.flatten))).Perm
      (closed.map (·.items.length) ++ (before ++ own :: after).flatten) := by
    have hmiddle := (hperm.append_right after.flatten).append_left before.flatten
    rw [List.append_assoc, List.append_assoc] at hmiddle
    rw [List.flatten_append, List.flatten_cons]
    exact ((List.perm_append_comm_assoc _ _ _).trans hmiddle).trans
      (List.perm_append_comm_assoc _ _ _)
  unfold Task.replaceInside
  dsimp only
  by_cases hover : v.isFinished = true
  · obtain rfl := howes.of_isFinished hover
    rw [if_pos hover, List.eraseIdx_eq_take_drop_succ]
    refine ⟨served, _, .iterating hn i (List.rel_append hbefore hafter) _, hserved, ?_⟩
    rw [List.flatten_append]
    exact hrest
  · rw [if_neg hover, List.set_eq_take_append_cons_drop, if_pos hlt]
    refine ⟨served, _, .iterating hn i (List.rel_append hbefore (.cons howes hafter)) _, hserved, ?_⟩
    rw [List.flatten_append, List.flatten_cons]
    exact hrest

/-- A move pays some of what a task owes. -/
theorem Owes.step {move : Move} {t t' : Task} {s s' : RunState} {sizes : List Nat}
    (h : S.Owes t sizes) (hm : t.step S.setting move s = some (t', s')) :
    S.Pays (t.asked? move).toList sizes (t.lastClosed s move) t' := by
  cases h with
  | output h =>
    obtain ⟨hasked, hclosed⟩ := Task.quiet_of_isOutput h s move
    rw [hasked, hclosed]
    exact (Owes.output (Task.isOutput_step h hm)).pays
  | clauses hn input => exact pays_clauses hn hm
  | fetching hn v input fetches =>
    cases Task.chainStep_of_step rfl rfl hm with
    | @fetch _ _ _ _ _ index fetch =>
      have howes := Owes.fetching (S := S) hn v input
        (fetches.set index (fetch.advance S.setting.resolver v s).1)
      rw [List.length_set] at howes
      exact howes.pays
    | fetched =>
      have howes := Owes.clauses (S := S) hn (input.withSolutions (fetches.map Fetch.solution))
      rw [Sequence.size, Sequence.solutions_withSolutions, List.length_map] at howes
      exact howes.pays
  | @iterating nodes hn i branches _ hb error =>
    cases Task.chainStep_of_step rfl rfl hm with
    | tell => exact (Owes.iterating hn _ hb error).pays
    | hear _ _ _ _ haudible => exact pays_hear hn hb error haudible
    | leave _ _ _ hmute =>
      obtain rfl := List.forall₂_nil_left_iff.mp hb
      have hclosed : (Task.iterating S.frame nodes i [] error).lastClosed s .here = [] := by
        rw [Task.lastClosed, hmute, Bool.not_false, Bool.or_true, if_pos rfl]
      rw [hclosed]
      exact (Owes.output rfl).pays
    | @inside _ _ _ _ _ index move u v _ hu hinner =>
      have hpays := Pays.inside hn i hb error hu fun owed howed => Owes.step howed hinner
      rw [Task.asked?, Task.lastClosed, hu]
      exact hpays
  | selecting h =>
    cases Task.chainStep_of_step rfl rfl hm with
    | permit => exact (Owes.evaluating h _).pays
    | wait => exact (Owes.selecting h).pays
  | @evaluating input size h permit =>
    cases Task.chainStep_of_step rfl rfl hm
    exact ⟨[size], [], .output (Task.isOutput_evaluate _ _ _ _ s), .cons ⟨rfl, h⟩ .nil, .refl _⟩

/-- The life of a chain pays what it owes, and a call for each batch of its last iterators. -/
theorem Owes.lifetime {moves : List TaskMove} (h : S.Owes t sizes)
    (hrun : t.proceedAll S.setting s moves = some (t', s')) :
    S.Pays (t.engineCalls S.setting s moves) sizes (t.lastBatches S.setting s moves) t' := by
  induction moves generalizing t s sizes with
  | nil =>
    obtain ⟨rfl, rfl⟩ := Prod.mk.inj (Option.some.inj hrun)
    exact h.pays
  | cons move moves ih =>
    simp only [Task.proceedAll, Option.bind_eq_bind, Option.bind_eq_some_iff] at hrun
    obtain ⟨⟨t₁, s₁⟩, hfirst, hrest⟩ := hrun
    rw [Task.engineCalls, Task.lastBatches, Task.seen, Task.seen, hfirst]
    cases move with
    | others state =>
      obtain ⟨rfl, rfl⟩ := Task.of_proceed_others hfirst
      exact ih h hrest
    | own move =>
      obtain ⟨served, owes, howes, hserved, hperm⟩ := h.step hfirst
      obtain ⟨more, left, hleft, hmore, hperm'⟩ := ih howes hrest
      refine ⟨served ++ more, left, hleft, List.rel_append hserved hmore, ?_⟩
      have hlater := (hperm'.append_left served).trans (List.perm_append_comm_assoc _ _ _)
      have hall := (hlater.trans (hperm.append_left _)).trans (List.perm_append_comm_assoc _ _ _)
      rw [List.map_append, List.append_assoc, List.append_assoc]
      exact hall

/-- A life that comes to its end pays all. -/
theorem Owes.over {moves : List TaskMove} {o : Outcome} (h : S.Owes t sizes)
    (hrun : t.proceedAll S.setting s moves = some (.finished o, s')) :
    ∃ served, Forall₂ S.Serves (t.engineCalls S.setting s moves) served ∧
      served.Perm ((t.lastBatches S.setting s moves).map (·.items.length) ++ sizes) := by
  obtain ⟨served, owes, howes, hserved, hperm⟩ := h.lifetime hrun
  obtain rfl := howes.of_isFinished rfl
  rw [List.append_nil] at hperm
  exact ⟨served, hserved, hperm⟩

end SelectFrame

/-! ### Nothing to go on with -/

namespace Task

/-- A task of a chain in which no iterator has any solution to begin with. -/
inductive IsBarren : Task → Prop where
  | clauses (f : Frame) {nodes : List PlanNode} {input : Sequence}
      (h : nodes.any PlanNode.isIterator = true → input.solutions = []) :
    IsBarren (.clauses f nodes input)
  | fetching (f : Frame) {nodes : List PlanNode} (v : Variable) (input : Sequence)
      {fetches : List Fetch} (h : nodes.any PlanNode.isIterator = true → fetches = []) :
    IsBarren (.fetching f nodes v input fetches)
  | iterating (f : Frame) (nodes : List PlanNode) {i : Iteration} (hf : i.feeds = [])
      (hq : i.queue = []) (ho : i.batches.opened = []) (hc : i.batches.closed = []) :
    IsBarren (.iterating f nodes i [] none)
  | selecting (f : Frame) (select : Select) (input : Sequence) : IsBarren (.selecting f select input)
  | evaluating (f : Frame) (select : Select) (input : Sequence) (permit : Option Nat) :
    IsBarren (.evaluating f select input permit)
  | output {t : Task} (h : t.isOutput = true) : IsBarren t

variable {setting : Setting} {t t' : Task} {s s' : RunState} {move : Move}

/-- Without solutions there is no stream, and no batch is open or closes. -/
theorem IsBarren.hear (f : Frame) (nodes : List PlanNode) {i : Iteration} (hf : i.feeds = [])
    (hq : i.queue = []) (ho : i.batches.opened = []) (hc : i.batches.closed = []) :
    i.hear.batches.closed = [] ∧
      (Task.iterating f nodes (i.hear.takeSequences f.plan.select.isSome).2 ([] ++
        (i.hear.takeSequences f.plan.select.isSome).1.map (.clauses f nodes)) none).IsBarren := by
  have hheard : i.hear = { i with isListening := false, batches := i.batches.forceClose } := by
    rw [Iteration.hear, hq]
  have hnone : i.hear.batches.closed = [] := by
    rw [hheard]
    show i.batches.closed ++ i.batches.opened.map OpenBatch.close = []
    rw [hc, ho]
    rfl
  have hnew : (i.hear.takeSequences f.plan.select.isSome).1 = [] := by
    show List.map _ (List.filter _ i.hear.batches.closed) = []
    rw [hnone]
    rfl
  refine ⟨hnone, ?_⟩
  rw [hnew, hheard]
  exact .iterating f nodes hf hq rfl rfl

theorem IsBarren.step (h : t.IsBarren) (hm : t.step setting move s = some (t', s')) :
    t'.IsBarren ∧ t.lastClosed s move = [] := by
  cases h with
  | output h => exact ⟨.output (isOutput_step h hm), (quiet_of_isOutput h s move).2⟩
  | @clauses f _ input h =>
    cases chainStep_of_step rfl rfl hm with
    | bind _ e v rest =>
      refine ⟨.clauses f fun hn => ?_, rfl⟩
      have hsize := f.context.size_bindAll setting.functions e v input s
      rw [Sequence.size, Sequence.size, h hn] at hsize
      exact List.length_eq_zero_iff.mp hsize
    | source => exact ⟨.fetching f _ _ fun hn => List.map_eq_nil_iff.mpr (h hn), rfl⟩
    | iterate =>
      rw [Iteration.start, Sequence.size, h rfl]
      exact ⟨.iterating f _ rfl rfl rfl rfl, rfl⟩
    | refuse | fail | assemble => exact ⟨.output rfl, rfl⟩
    | select => exact ⟨.selecting f _ _, rfl⟩
  | fetching f v input h =>
    cases chainStep_of_step rfl rfl hm with
    | fetch => exact ⟨.fetching f v input fun hn => by rw [h hn]; rfl, rfl⟩
    | fetched => exact ⟨.clauses f fun hn => List.map_eq_nil_iff.mpr (h hn), rfl⟩
  | @iterating f nodes i hf hq ho hc =>
    cases chainStep_of_step rfl rfl hm with
    | tell _ _ _ _ hready => simp [Iteration.isReadyAt, hf] at hready
    | hear =>
      obtain ⟨hnone, hheard⟩ := IsBarren.hear f nodes hf hq ho hc
      refine ⟨hheard, ?_⟩
      rw [lastClosed, hnone]
      exact ite_self _
    | leave _ _ _ hmute =>
      rw [lastClosed, hmute, Bool.not_false, Bool.or_true, if_pos rfl]
      exact ⟨.output rfl, rfl⟩
    | inside _ _ _ _ hu => cases hu
  | selecting f select input =>
    cases chainStep_of_step rfl rfl hm with
    | permit => exact ⟨.evaluating f select input _, rfl⟩
    | wait => exact ⟨.selecting f select input, rfl⟩
  | evaluating f select input permit =>
    cases chainStep_of_step rfl rfl hm
    exact ⟨.output (isOutput_evaluate f select input permit s), rfl⟩

theorem IsBarren.lastBatches {moves : List TaskMove} (h : t.IsBarren) :
    t.lastBatches setting s moves = [] := by
  induction moves generalizing t s with
  | nil => rfl
  | cons move moves ih =>
    rw [Task.lastBatches, Task.seen]
    cases hfirst : t.proceed setting s move with
    | none => rfl
    | some p =>
      obtain ⟨t₁, s₁⟩ := p
      cases move with
      | others state =>
        obtain ⟨rfl, rfl⟩ := of_proceed_others hfirst
        exact ih h
      | own move =>
        obtain ⟨hnext, hnone⟩ := h.step hfirst
        show t.lastClosed s move ++ _ = []
        rw [hnone]
        exact ih hnext

end Task

namespace IteratorClause

variable (P : IteratorClause) {t : Task} {s s' : RunState}

/-- **What the batches of an iterator come to.**  With a select part behind the clauses, an iterator
starts a branch for each batch that it closes, also for one without solutions.  A branch that comes
to its end, whenever the run is closed and whatever the services answer, has called the engine once
if no iterator follows, for one solution that binds nothing if there was none.  Otherwise it has
called it once for each batch that the last iterator has closed for it, so not at all if there was
no solution to begin with. -/
theorem asks_for_last_batches {select : Select}
    (hselect : P.frame.plan.select = some (.select select)) (hengine : P.setting.engine.isSome = true)
    (hrest : ∀ node ∈ P.rest, node.isClause = true) {moves : List TaskMove}
    (hrun : P.task.proceedAll P.setting s moves = some (t, s')) :
    let c := P.task.chronicle P.setting .empty s moves
    c.started = c.closed.map (fun b => P.branch b.items) ∧
    ∀ b ∈ c.closed, ∀ (s₁ s₂ : RunState) (life : List TaskMove) (o : Outcome),
      (P.branch b.items).proceedAll P.setting s₁ life = some (.finished o, s₂) →
      let calls := (P.branch b.items).engineCalls P.setting s₁ life
      let batches := (P.branch b.items).lastBatches P.setting s₁ life
      (P.rest.any PlanNode.isIterator = false →
        ∃ input, calls = [(select, input)] ∧ input.StandsIn b.items.length) ∧
      (P.rest.any PlanNode.isIterator = true →
        (b.items = [] → batches = []) ∧ ∃ sizes, sizes.Perm (batches.map (·.items.length)) ∧
          Forall₂ (fun call size => call.1 = select ∧ call.2.StandsIn size) calls sizes) ∧
      (calls ≠ [] ↔ P.rest.any PlanNode.isIterator = false ∨ batches ≠ []) := by
  intro c
  have hattends : P.Attends t s' c := Attends.waiting.proceedAll hrun
  obtain ⟨-, -, -, -, -, -, hstarted, -⟩ := hattends.recorded
  obtain ⟨engine, hengine⟩ := Option.isSome_iff_exists.mp hengine
  let S : SelectFrame := ⟨P.setting, P.frame, select, engine, hselect, hengine⟩
  refine ⟨?_, fun b hb s₁ s₂ life o hlife => ?_⟩
  · rw [hstarted, handedOn, List.filter_eq_self.mpr fun b _ => by rw [hselect]; rfl]
  · have howes : S.Owes (P.branch b.items) (SelectFrame.owed P.rest b.items.length) :=
      .clauses hrest ((P.input.declareAll P.vars).withSolutions b.items)
    obtain ⟨sizes, hserved, hperm⟩ := howes.over hlife
    have hcalled : (P.branch b.items).engineCalls P.setting s₁ life ≠ [] ↔ sizes ≠ [] := by
      rw [ne_eq, ne_eq, ← List.length_eq_zero_iff, ← List.length_eq_zero_iff]
      exact not_congr (hserved.length_eq ▸ Iff.rfl)
    dsimp only
    rw [hcalled]
    cases hiterates : P.rest.any PlanNode.isIterator with
    | false =>
      have hbarren : (P.branch b.items).IsBarren := .clauses _ fun hn =>
        absurd (hiterates.symm.trans hn) Bool.false_ne_true
      rw [SelectFrame.owed, hiterates, hbarren.lastBatches] at hperm
      obtain rfl : sizes = [b.items.length] := List.perm_singleton.mp hperm
      obtain ⟨⟨asked, input⟩, rest, ⟨rfl, hstands⟩, hnil, hcalls⟩ :=
        List.forall₂_cons_right_iff.mp hserved
      obtain rfl := List.forall₂_nil_right_iff.mp hnil
      refine ⟨fun _ => ⟨input, hcalls, hstands⟩, fun h => absurd h Bool.false_ne_true, ?_⟩
      exact iff_of_true (List.cons_ne_nil _ _) (.inl rfl)
    | true =>
      rw [SelectFrame.owed, hiterates, if_pos rfl, List.append_nil] at hperm
      refine ⟨fun h => absurd h.symm Bool.false_ne_true, fun _ => ⟨fun hitems => ?_, sizes, hperm,
        hserved⟩, ?_⟩
      · have hbarren : (P.branch b.items).IsBarren := .clauses _ fun _ => hitems
        exact hbarren.lastBatches
      · have hempty : sizes = [] ↔ (P.branch b.items).lastBatches P.setting s₁ life = [] := by
          have hlength := hperm.length_eq
          rw [List.length_map] at hlength
          rw [← List.length_eq_zero_iff, hlength, List.length_eq_zero_iff]
        rw [ne_eq, hempty]
        exact ⟨.inr, fun h => h.resolve_left fun h => Bool.false_ne_true h.symm⟩

/-! ### Iterators without results -/

/-- A select part without a pattern. -/
def bareSelect : Select where
  dataset := none
  base := none
  pattern := .bgp []
  group := none
  having := []
  projection := none
  keepInput := true
  orderBy := []
  distinct := false
  reduced := false
  offset := 0
  limit := none

/-- A clause whose function gives one batch of no tuples, some nodes behind it, and a select part
behind those. -/
def fruitless (rest : List PlanNode) : IteratorClause where
  setting :=
    { resolver := fun _ _ => .never
      functions := FunctionRegistry.empty.addIterator ⟨"urn:none"⟩ fun _ _ =>
        .ok (.given [[]] .finished)
      engine := some fun _ _ input => .solutions input
      parser := none
      maxConcurrency := 1
      timeout := none
      queryMediaType := none }
  frame :=
    ⟨⟨none, none, none, [], .clause (.iterator ⟨"urn:none"⟩ [] [⟨"x"⟩]) :: rest,
      some (.select bareSelect), [], .rows none⟩, ⟨0, 0, none, 0, 1⟩⟩
  rest
  name := ⟨"urn:none"⟩
  function := fun _ _ => .ok (.given [[]] .finished)
  arguments := []
  vars := [⟨"x"⟩]
  input := .unit
  registered := rfl

/-- The batch is told and heard. -/
def fruitlessMoves : List TaskMove := [.here, .item 0, .here].map .own

/-- The engine is asked, and what it answers is the result. -/
def fruitlessLife : List TaskMove := [.here, .here, .here, .here].map .own

theorem fruitless_asks_for_unit : ∃ (t : Task) (s' : RunState),
    (fruitless []).task.proceedAll (fruitless []).setting (.start 1) fruitlessMoves = some (t, s') ∧
    let c := (fruitless []).task.chronicle (fruitless []).setting .empty (.start 1) fruitlessMoves
    c.started = c.closed.map (fun b => (fruitless []).branch b.items) ∧
    ∃ b ∈ c.closed, b.items = [] ∧ ∃ s₂,
      ((fruitless []).branch b.items).proceedAll (fruitless []).setting (.start 1) fruitlessLife =
        some (.finished none, s₂) ∧
      ((fruitless []).branch b.items).engineCalls (fruitless []).setting (.start 1) fruitlessLife =
        [(bareSelect, .unit)] := by
  have hrun : ((fruitless []).task.proceedAll (fruitless []).setting (.start 1)
      fruitlessMoves).isSome = true := by decide +kernel
  have hclosed : ((fruitless []).task.chronicle (fruitless []).setting .empty (.start 1)
      fruitlessMoves).closed.any (·.items.isEmpty) = true := by decide +kernel
  have hlife : (((fruitless []).branch []).proceedAll (fruitless []).setting (.start 1)
      fruitlessLife).any (fun p => p.1.isFinished && p.1.outcome.isNone) = true := by decide +kernel
  obtain ⟨⟨t, s'⟩, hall⟩ := Option.isSome_iff_exists.mp hrun
  obtain ⟨b, hb, hempty⟩ := List.any_eq_true.mp hclosed
  obtain ⟨⟨u, s₂⟩, hbranch, hover⟩ := (Option.any_eq_true _ _).mp hlife
  obtain rfl : u = .finished none := Task.eq_finished_of_outcome hover
  have hitems : b.items = [] := List.isEmpty_iff.mp hempty
  obtain ⟨hstarted, hbatches⟩ :=
    asks_for_last_batches (fruitless []) rfl rfl (List.forall_mem_nil _) hall
  have hlived := hitems.symm ▸ hbranch
  obtain ⟨⟨input, hcalls, hstands⟩, -⟩ :=
    (hbatches b hb _ _ _ _ hlived).imp_left fun h => h rfl
  rw [hitems] at hstands
  obtain rfl : input = .unit := hstands
  exact ⟨t, s', hall, hstarted, b, hb, hitems, s₂, hlived, hcalls⟩

/-- An iterator behind another one that gives a batch without solutions invokes nothing, closes no
batch, and leaves nothing to the select part: the plan runs to its end and the engine is not called.
-/
theorem fruitless_asks_nothing :
    let P := fruitless [.clause (.iterator ⟨"urn:none"⟩ [] [⟨"y"⟩])]
    let moves := fruitlessMoves ++
      [.inside 0 .here, .inside 0 .here, .inside 0 .here, .item 0, .here, .here, .here].map .own
    P.frame.plan.select = some (.select bareSelect) ∧ P.setting.engine.isSome = true ∧
    ∃ s' : RunState, (RunState.start 1).isClosed = false ∧ s'.isClosed = false ∧
      P.task.proceedAll P.setting (.start 1) moves = some (.finished none, s') ∧
      (P.task.chronicle P.setting .empty (.start 1) moves).closed.length = 1 ∧
      s'.evaluations = 0 := by
  intro P moves
  have hrun : (P.task.proceedAll P.setting (.start 1) moves).any (fun p =>
      (p.1.isFinished && p.1.outcome.isNone) && (!p.2.isClosed && p.2.evaluations == 0)) = true := by
    decide +kernel
  obtain ⟨⟨t, s'⟩, hall, hover⟩ := (Option.any_eq_true _ _).mp hrun
  obtain ⟨hfinished, hstate⟩ := Bool.and_eq_true_iff.mp hover
  obtain ⟨hopen, hnone⟩ := Bool.and_eq_true_iff.mp hstate
  obtain rfl : t = .finished none := Task.eq_finished_of_outcome hfinished
  exact ⟨rfl, rfl, s', rfl, by simpa using hopen, hall, by decide +kernel, by simpa using hnone⟩

end IteratorClause

end TripleLoom
