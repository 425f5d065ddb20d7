import TripleLoom.Proofs.Pipeline.Parts
import TripleLoom.Proofs.Run.Turns

/-!
# TripleLoom.Proofs.Run.Chain — the clauses of a plan one after the other

A task is about the clauses of a plan or its select part, or about what stands behind that, the
output (`Task.isOutput`), which it stays about.  `Task.ChainStep` says once what a move can make of
a task of the first kind, so an invariant of a chain of clauses is shown for one case after the
other (`Task.chainStep_of_step`).  The clauses that are left only become fewer (`Task.IsBehind`).
-/

namespace TripleLoom

open RunM

namespace PlanNode

/-- Whether a node is a clause. -/
def isClause : PlanNode → Bool
  | .clause _ => true
  | _ => false

/-- Whether a node is an `ITERATOR` clause. -/
def isIterator : PlanNode → Bool
  | .clause (.iterator ..) => true
  | _ => false

end PlanNode

/-! ### What stands behind the select part -/

namespace Task

/-- Whether a task is about the output of a plan. -/
def isOutput : Task → Bool
  | .assembling .. | .generating .. | .writing _ | .nesting .. | .finished _ => true
  | _ => false

variable {setting : Setting} {t t' : Task} {s s' : RunState} {move : Move}

theorem isOutput_output (f : Frame) (input : Sequence) (s : RunState) :
    (f.output input s).1.isOutput = true := by
  unfold Frame.output
  cases f.plan.output with
  | generate nodes => rfl
  | template node => cases node <;> rfl
  | rows vars => rfl

theorem isOutput_assemble (f : Frame) (input : Sequence) (nodes : List PlanNode) (s : RunState) :
    (f.assemble setting input nodes s).1.isOutput = true := by
  rw [Frame.assemble_eq, bind_apply]
  cases (f.bindAfter setting nodes input s).1 with
  | error e => rfl
  | ok bound => exact isOutput_output f bound _

theorem isOutput_evaluate (f : Frame) (select : Select) (input : Sequence) (permit : Option Nat)
    (s : RunState) : (f.evaluate setting select input permit s).1.isOutput = true := by
  unfold Frame.evaluate
  cases setting.engine with
  | none => rfl
  | some engine =>
    simp only [bind_apply, get_apply]
    cases engine s.evaluations select input <;> rfl

theorem isOutput_collect (g : Generation) (nodes : List PlanNode) (running : List Task)
    (error : Outcome) (stage : Stage) (s : RunState) :
    (g.collect nodes running error stage s).1.isOutput = true := by
  cases stage with
  | idle =>
    cases nodes with
    | nil => rfl
    | cons node rest => cases node <;> rfl
  | nested | resolving | calling => rfl

theorem isOutput_advance (w : Writing) (s : RunState) :
    (w.advance setting s).1.isOutput = true := by
  obtain ⟨context, plan, input, isFirst, solutions, current⟩ := w
  unfold Writing.advance
  cases solutions with
  | nil => rfl
  | cons u rest =>
    cases current with
    | none => rfl
    | some now =>
      obtain ⟨text, parts⟩ := now
      cases parts with
      | nil => cases rest <;> rfl
      | cons part parts =>
        cases part with
        | expression | plan => rfl
        | call call =>
          dsimp only
          cases call.name? u <;> rfl

/-- The output of a plan stays that. -/
theorem isOutput_step (h : t.isOutput = true) (hm : t.step setting move s = some (t', s')) :
    t'.isOutput = true := by
  cases move with
  | here =>
    rw [step, Option.ite_none_right_eq_some, Option.some.injEq] at hm
    obtain rfl : (t.act setting s).1 = t' := congrArg Prod.fst hm.2
    cases t with
    | clauses | fetching | iterating | selecting | evaluating | entering | asking => cases h
    | finished o => rfl
    | assembling f input => exact isOutput_assemble f input _ s
    | generating g nodes stage running error => exact isOutput_collect g nodes running error stage s
    | writing w => exact isOutput_advance w s
    | nesting w sink inner =>
      show (w.collect sink inner.outcome s).1.isOutput = true
      unfold Writing.collect
      cases inner.outcome <;> rfl
  | item index =>
    rw [step, Option.ite_none_right_eq_some] at hm
    cases t with
    | fetching | iterating => cases h
    | _ => cases hm.1
  | inside index move =>
    simp only [Task.step, Option.bind_eq_bind, Option.bind_eq_some_iff] at hm
    obtain ⟨inner, hi, ⟨inner', s₁⟩, -, heq⟩ := hm
    obtain ⟨rfl, rfl⟩ := Prod.mk.inj (Option.some.inj heq)
    cases t with
    | iterating => cases h
    | generating | nesting => rfl
    | _ => cases hi

/-! ### The moves of a chain -/

/-- What a move makes of a task that is about the clauses of a plan or its select part. -/
inductive ChainStep (setting : Setting) (s : RunState) : Task → Move → Task → Prop where
  | bind (f : Frame) (e : Expression) (v : Variable) (rest : List PlanNode) (input : Sequence) :
    ChainStep setting s (.clauses f (.clause (.bind e v) :: rest) input) .here
      (.clauses f rest (f.context.bindAll setting.functions e v input s).1)
  | source (f : Frame) (document : IriPattern) (accept : Option IriPattern) (v : Variable)
      (rest : List PlanNode) (input : Sequence) :
    ChainStep setting s (.clauses f (.clause (.source document accept v) :: rest) input) .here
      (.fetching f rest v (input.declare v)
        (input.solutions.map (Fetch.ofSolution document accept)))
  | iterate (f : Frame) {name : Iri} {function : IteratorFunction}
      (hf : setting.functions.iterator? name = some function) (hopen : s.isClosed = false)
      (arguments : List Expression) (vars : List Variable) (rest : List PlanNode)
      (input : Sequence) :
    ChainStep setting s (.clauses f (.clause (.iterator name arguments vars) :: rest) input) .here
      (.iterating f rest (Iteration.start f.context setting.functions name function arguments vars
        input s).1 [] none)
  /-- A node that is no clause, or an iterator without its function or in a closed run. -/
  | refuse (f : Frame) {node : PlanNode} (hnode : node.isClause = true → node.isIterator = true)
      (rest : List PlanNode) (input : Sequence) (o : Outcome) :
    ChainStep setting s (.clauses f (node :: rest) input) .here (.finished o)
  | select (f : Frame) {select : Select} (hselect : f.plan.select = some (.select select))
      (input : Sequence) :
    ChainStep setting s (.clauses f [] input) .here
      (.selecting f select (if input.isEmpty then .unit else input))
  /-- There is nobody to select, or it is no select part. -/
  | fail (f : Frame) (input : Sequence) {node : PlanNode} (hnode : f.plan.select = some node)
      (hengine : ∀ select, node = .select select → setting.engine = none) (e : RunError) :
    ChainStep setting s (.clauses f [] input) .here (.failed e)
  | assemble (f : Frame) (hselect : f.plan.select = none) (input : Sequence) :
    ChainStep setting s (.clauses f [] input) .here (.assembling f input)
  | fetch (f : Frame) (nodes : List PlanNode) (v : Variable) (input : Sequence)
      {fetches : List Fetch} {index : Nat} {fetch : Fetch} (h : fetches[index]? = some fetch) :
    ChainStep setting s (.fetching f nodes v input fetches) (.item index)
      (.fetching f nodes v input (fetches.set index (fetch.advance setting.resolver v s).1))
  | fetched (f : Frame) (nodes : List PlanNode) (v : Variable) (input : Sequence)
      {fetches : List Fetch} (h : ∀ fetch ∈ fetches, fetch.isDone = true) :
    ChainStep setting s (.fetching f nodes v input fetches) .here
      (.clauses f nodes (input.withSolutions (fetches.map Fetch.solution)))
  | tell (f : Frame) (nodes : List PlanNode) {i : Iteration} (branches : List Task)
      (error : Outcome) {index : Nat} (h : i.isReadyAt s.isClosed index = true) :
    ChainStep setting s (.iterating f nodes i branches error) (.item index)
      (.iterating f nodes (i.tell index) branches error)
  | hear (f : Frame) (nodes : List PlanNode) {i : Iteration} (branches : List Task)
      (error : Outcome) (h : i.isAudible s.isClosed = true) :
    ChainStep setting s (.iterating f nodes i branches error) .here
      (.iterating f nodes (i.hear.takeSequences f.plan.select.isSome).2 (branches ++
        (i.hear.takeSequences f.plan.select.isSome).1.map (.clauses f nodes)) error)
  /-- There is nothing to hear any more, and no branch is left. -/
  | leave (f : Frame) (nodes : List PlanNode) {i : Iteration} (error : Outcome)
      (h : i.isAudible s.isClosed = false) (hmute : i.isListening = false) :
    ChainStep setting s (.iterating f nodes i [] error) .here (.finished error)
  | inside (f : Frame) (nodes : List PlanNode) (i : Iteration) {branches : List Task}
      (error : Outcome) {index : Nat} {move : Move} {u v : Task} {s' : RunState}
      (hu : branches[index]? = some u) (hm : u.step setting move s = some (v, s')) :
    ChainStep setting s (.iterating f nodes i branches error) (.inside index move)
      (v.replaceInside index (.iterating f nodes i branches error))
  | permit (f : Frame) (select : Select) (input : Sequence) (permit : Option Nat) :
    ChainStep setting s (.selecting f select input) .here (.evaluating f select input permit)
  | wait (f : Frame) (select : Select) (input : Sequence) :
    ChainStep setting s (.selecting f select input) .here (.selecting f select input)
  | evaluate (f : Frame) (select : Select) (input : Sequence) (permit : Option Nat) :
    ChainStep setting s (.evaluating f select input permit) .here
      (f.evaluate setting select input permit s).1

theorem chainStep_runClauses (f : Frame) (nodes : List PlanNode) (input : Sequence) (s : RunState) :
    ChainStep setting s (.clauses f nodes input) .here (f.runClauses setting input nodes s).1 := by
  cases nodes with
  | nil =>
    unfold Frame.runClauses
    cases hselect : f.plan.select with
    | none => exact .assemble f hselect input
    | some node =>
      cases node with
      | select select =>
        by_cases hengine : setting.engine.isNone = true
        · dsimp only
          rw [if_pos hengine]
          exact .fail f input hselect (fun _ _ => Option.isNone_iff_eq_none.mp hengine) _
        · dsimp only
          rw [if_neg hengine]
          exact .select f hselect input
      | clause | triples | call | template | plan =>
        exact .fail f input hselect (fun _ h => by cases h) _
  | cons node rest =>
    cases node with
    | clause clause =>
      cases clause with
      | bind e v => exact .bind f e v rest input
      | source document accept v => exact .source f document accept v rest input
      | iterator name arguments vars =>
        simp only [Frame.runClauses]
        cases hf : setting.functions.iterator? name with
        | none => exact .refuse f (fun _ => rfl) rest input _
        | some function =>
          by_cases hc : s.isClosed = true
          · simp only [bind_apply, get_apply, hc, if_true]
            exact .refuse f (fun _ => rfl) rest input _
          · simp only [bind_apply, get_apply, hc]
            exact .iterate f hf (by simpa using hc) arguments vars rest input
    | select | triples | call | template | plan =>
      exact .refuse f (fun h => by cases h) rest input _

theorem chainStep_act (hfinding : t.isFinding = false) (houtput : t.isOutput = false)
    (hready : t.isReady setting s = true) : ChainStep setting s t .here (t.act setting s).1 := by
  cases t with
  | clauses f nodes input => exact chainStep_runClauses f nodes input s
  | fetching f nodes v input fetches => exact .fetched f nodes v input (List.all_eq_true.mp hready)
  | iterating f nodes i branches error =>
    cases haudible : i.isAudible s.isClosed with
    | true =>
      rw [act_iterating_of_audible setting f nodes error haudible]
      exact .hear f nodes branches error haudible
    | false =>
      obtain ⟨hmute, rfl⟩ := eq_nil_of_isReady hready haudible
      rw [act_iterating_of_mute setting f nodes error haudible]
      exact .leave f nodes error haudible hmute
  | selecting f select input =>
    simp only [act, bind_apply]
    cases (RunM.lifecycle Lifecycle.acquire s).1 with
    | granted | refused => exact .permit f select input _
    | pending => exact .wait f select input
  | evaluating f select input permit => exact .evaluate f select input permit
  | finished | assembling | generating | writing | nesting => cases houtput
  | entering | asking => cases hfinding

/-- A move of a task of a chain is one of these. -/
theorem chainStep_of_step (hfinding : t.isFinding = false) (houtput : t.isOutput = false)
    (hm : t.step setting move s = some (t', s')) : ChainStep setting s t move t' := by
  cases move with
  | here =>
    rw [step, Option.ite_none_right_eq_some, Option.some.injEq] at hm
    obtain rfl : (t.act setting s).1 = t' := congrArg Prod.fst hm.2
    exact chainStep_act hfinding houtput hm.1
  | item index =>
    rw [step, Option.ite_none_right_eq_some, Option.some.injEq] at hm
    obtain ⟨hready, hact⟩ := hm
    obtain rfl : (t.actItem setting index s).1 = t' := congrArg Prod.fst hact
    cases t with
    | fetching f nodes v input fetches =>
      obtain ⟨fetch, hfetch, -⟩ := (Option.any_eq_true _ _).mp (Bool.and_eq_true_iff.mp hready).2
      rw [actItem, hfetch]
      exact .fetch f nodes v input hfetch
    | iterating f nodes i branches error => exact .tell f nodes branches error hready
    | _ => cases hready
  | inside index move =>
    simp only [Task.step, Option.bind_eq_bind, Option.bind_eq_some_iff] at hm
    obtain ⟨u, hu, ⟨v, s₁⟩, hinner, heq⟩ := hm
    obtain ⟨rfl, rfl⟩ := Prod.mk.inj (Option.some.inj heq)
    cases t with
    | iterating f nodes i branches error => exact .inside f nodes i error hu hinner
    | generating | nesting => cases houtput
    | _ => cases hu

/-! ### Behind a clause -/

/-- A task is about what comes behind the last so many clauses of a chain. -/
inductive IsBehind (n : Nat) : Task → Prop where
  | clauses (f : Frame) {nodes : List PlanNode} (h : nodes.length < n) (input : Sequence) :
    IsBehind n (.clauses f nodes input)
  | fetching (f : Frame) {nodes : List PlanNode} (h : nodes.length < n) (v : Variable)
      (input : Sequence) (fetches : List Fetch) : IsBehind n (.fetching f nodes v input fetches)
  | iterating (f : Frame) (nodes : List PlanNode) (i : Iteration) (branches : List Task)
      (error : Outcome) : IsBehind n (.iterating f nodes i branches error)
  | selecting (f : Frame) (select : Select) (input : Sequence) :
    IsBehind n (.selecting f select input)
  | evaluating (f : Frame) (select : Select) (input : Sequence) (permit : Option Nat) :
    IsBehind n (.evaluating f select input permit)
  | output {t : Task} (h : t.isOutput = true) : IsBehind n t

variable {n : Nat}

/-- A chain of so many clauses has got beyond them when it has made its next move. -/
theorem isBehind_of_clauses {f : Frame} {nodes : List PlanNode} {input : Sequence}
    (h : nodes.length ≤ n)
    (hm : (Task.clauses f nodes input).step setting move s = some (t', s')) : t'.IsBehind n := by
  cases chainStep_of_step rfl rfl hm with
  | bind => exact .clauses f h _
  | source => exact .fetching f h _ _ _
  | iterate => exact .iterating f _ _ _ _
  | select => exact .selecting f _ _
  | refuse | fail | assemble => exact .output rfl

theorem IsBehind.step (h : t.IsBehind n) (hm : t.step setting move s = some (t', s')) :
    t'.IsBehind n := by
  cases h with
  | output h => exact .output (isOutput_step h hm)
  | clauses f h input => exact isBehind_of_clauses (Nat.le_of_lt h) hm
  | fetching f h v input fetches =>
    cases chainStep_of_step rfl rfl hm with
    | fetch => exact .fetching f h v input _
    | fetched => exact .clauses f h _
  | iterating f nodes i branches error =>
    cases chainStep_of_step rfl rfl hm with
    | tell | hear => exact .iterating f nodes _ _ _
    | leave => exact .output rfl
    | inside =>
      unfold replaceInside
      dsimp only
      split <;> exact .iterating f nodes _ _ _
  | selecting f select input =>
    cases chainStep_of_step rfl rfl hm with
    | permit => exact .evaluating f select input _
    | wait => exact .selecting f select input
  | evaluating f select input permit =>
    cases chainStep_of_step rfl rfl hm
    exact .output (isOutput_evaluate f select input permit s)

end Task

end TripleLoom
