import TripleLoom.Proofs.Expression.Script
import TripleLoom.Proofs.Query.SharedNodes
import TripleLoom.Proofs.Run.Acts
import TripleLoom.Proofs.Run.Failing

/-!
# TripleLoom.Proofs.Run.Labels — the blank nodes that `BNODE` gives to labels

`BNODE` with a label gives the label's node in the scope of the context that the expression is
evaluated in.  A `BIND`, the bindings behind a select part and the arguments of the calls of an
element are evaluated in one context for all solutions, so equal labels get equal nodes there whichever
solutions they come from, and different labels get different ones (`Run.nodes_of_labels`).
-/

namespace TripleLoom

open RunM

/-! ### Evaluations one after the other -/

namespace Evaluation

/-- An evaluation calls `BNODE` with a label on the way, which gives it a node. -/
def Names (c : EvalContext) (r : Evaluation) (label : String) (node : BlankNode) : Prop :=
  ∃ script : Eval.Script Term, script.toEval c.scope = r.expression.eval c r.solution ∧
    (label, node) ∈ script.named c.scope r.scopes

/-- A call of `BNODE` with an operand that is a simple literal names it. -/
theorem names_bnode {c : EvalContext} {r : Evaluation} {operand : Expression} {label : String}
    {scopes : Scopes} (he : r.expression = .call (.builtin .bnode) [operand])
    (hlabel : (Eval.simple (operand.eval c r.solution)).run r.scopes = (some label, scopes)) :
    r.Names c label (scopes.mint c.scope label).1 := by
  obtain ⟨read, hread⟩ : Eval.HasScript c.scope (Eval.simple (operand.eval c r.solution)) :=
    (Eval.isClosed_hasScript c.scope).simple (operand.exists_script c r.solution)
  refine ⟨.bind read fun label => .bind (.mint label) fun b => .pure (.blank b), ?_, ?_⟩
  · rw [he]
    show read.toEval c.scope >>= _ = _
    rw [hread]
    rfl
  · rw [Eval.Script.named, hread, hlabel]
    exact List.mem_append_right _ (List.mem_append_left _ (List.mem_singleton_self _))

/-- Evaluations that are made one after the other, from some scopes to some others. -/
inductive Chain (c : EvalContext) : Scopes → List Evaluation → Scopes → Prop
  | nil (scopes : Scopes) : Chain c scopes [] scopes
  | cons {before after : Scopes} {r : Evaluation} {rest : List Evaluation} (hr : r.scopes = before)
      (h : Chain c (r.outcome c).2 rest after) : Chain c before (r :: rest) after

namespace Chain

variable {c : EvalContext} {before between after : Scopes} {rs rs' : List Evaluation}

theorem append (h : Chain c before rs between) (h' : Chain c between rs' after) :
    Chain c before (rs ++ rs') after := by
  induction h with
  | nil => exact h'
  | cons hr _ ih => exact .cons hr (ih h')

variable {s : RunState} {r : Evaluation}

/-- An evaluation leads from a state to another one. -/
theorem evolves_outcome (c : EvalContext) (r : Evaluation) (hs : r.scopes = s.scopes)
    (hscope : c.scope < s.scopes.count) :
    s.Evolves .all { s with scopes := (r.outcome c).2 } := by
  obtain ⟨script, hscript⟩ := r.expression.exists_script c r.solution
  have h := script.evolves hscope
  rwa [hscript, ← hs] at h

theorem evolves (h : Chain c before rs after) : ∀ {s : RunState}, before = s.scopes →
    c.scope < s.scopes.count → s.Evolves .all { s with scopes := after } := by
  induction h with
  | nil =>
    rintro s rfl -
    exact .refl s
  | cons hr _ ih =>
    rintro s rfl hscope
    have hone := evolves_outcome c _ hr hscope
    exact hone.trans (ih rfl (Nat.lt_of_lt_of_le hscope hone.grows.scopes))

/-- What one of the evaluations names is known when they are over. -/
theorem node?_of_names {label : String} {node : BlankNode} (h : Chain c before rs after) :
    ∀ {s : RunState}, before = s.scopes → s.IsSound → c.scope < s.scopes.count → r ∈ rs →
      r.Names c label node → after.node? c.scope label = some node := by
  induction h with
  | nil => exact fun _ _ _ hmem => nomatch hmem
  | @cons _ after first rest hr hrest ih =>
    rintro s rfl hsound hscope hmem hnames
    have hone := evolves_outcome c first hr hscope
    have hsound' := hsound.evolves hone
    have hscope' := Nat.lt_of_lt_of_le hscope hone.grows.scopes
    rcases List.mem_cons.mp hmem with rfl | hmem
    · obtain ⟨script, hscript, hnamed⟩ := hnames
      have hknown := script.node?_of_mem_named hsound hscope (hr ▸ hnamed)
      rw [hscript, ← hr] at hknown
      exact (hsound'.keeps (hrest.evolves rfl hscope')).node? _ hscope' label node hknown
    · exact ih rfl hsound' hscope' hmem hnames

end Chain

end Evaluation

open Evaluation (Chain)

namespace Context

variable (c : Context) (functions : FunctionRegistry)

/-- A binding is evaluated for one solution after the other. -/
theorem chain_evaluationsOf (b : Variable × Expression) : ∀ (solutions : List Solution)
    (index : Nat) (s : RunState), Chain (c.evalContext functions) s.scopes
      (c.evaluationsOf functions b index solutions s)
      (solutions.mapM (c.bindOne functions b.2 b.1) s).2.scopes
  | [], _, s => .nil s.scopes
  | u :: rest, index, s => by
    have hrest := chain_evaluationsOf b rest (index + 1) (c.bindOne functions b.2 b.1 u s).2
    rw [List.mapM_cons, RunM.bind_apply, RunM.bind_apply, evaluationsOf]
    rw [c.bindOne_apply] at hrest ⊢
    exact .cons rfl hrest

/-- Bindings are evaluated one after the other. -/
theorem chain_evaluations : ∀ (bindings : List (Variable × Expression)) (input : Sequence)
    (s : RunState), Chain (c.evalContext functions) s.scopes
      (c.evaluations functions bindings input s)
      (c.bindInOrder functions bindings input s).2.scopes
  | [], _, s => .nil s.scopes
  | b :: rest, input, s =>
    (c.chain_evaluationsOf functions b input.solutions 0 s).append
      (chain_evaluations rest (c.bindAll functions b.2 b.1 input s).1
        (c.bindAll functions b.2 b.1 input s).2)

/-- The evaluations of the arguments of a call, the first of which has the given index. -/
def argumentEvaluations (caller : Solution) :
    Nat → List (Variable × Expression) → RunState → List Evaluation
  | _, [], _ => []
  | index, b :: rest, s => ⟨b.1, b.2, index, caller, s.scopes⟩ ::
      argumentEvaluations caller (index + 1) rest (c.eval? functions b.2 caller s).2

/-- The arguments of a call are evaluated one after the other. -/
theorem chain_argumentEvaluations (caller : Solution) : ∀ (pairs : List (Variable × Expression))
    (index : Nat) (s : RunState), Chain (c.evalContext functions) s.scopes
      (c.argumentEvaluations functions caller index pairs s)
      (c.bindArguments functions caller pairs s).2.scopes
  | [], _, s => .nil s.scopes
  | (v, e) :: rest, index, s => by
    have hrest := chain_argumentEvaluations caller rest (index + 1) (c.eval? functions e caller s).2
    rw [argumentEvaluations, bindArguments, RunM.bind_apply]
    refine .cons rfl ?_
    cases (c.eval? functions e caller s).1 with
    | some value => exact hrest
    | none => exact hrest

theorem keepsTo_bindInOrder {p : Footprint} {base : RunState} (hc : c.IsIn base)
    (h : p.mints c.scope) : ∀ (bindings : List (Variable × Expression)) (input : Sequence),
    KeepsTo p base (c.bindInOrder functions bindings input)
  | [], _ => .pure _
  | (v, _) :: rest, input => .bind (c.keepsTo_bindAll functions hc (fun _ => h) v input) fun bound =>
      keepsTo_bindInOrder hc h rest bound

end Context

/-- The bindings behind the select part are evaluated in order, and then what comes behind them. -/
theorem Frame.assemble_append (f : Frame) (setting : Setting) (rest : List PlanNode) :
    ∀ (bindings : List (Variable × Expression)) (input : Sequence) (s : RunState),
      f.assemble setting input ((bindings.map fun (v, e) => .clause (.bind e v)) ++ rest) s =
        f.assemble setting (f.context.bindInOrder setting.functions bindings input s).1 rest
          (f.context.bindInOrder setting.functions bindings input s).2
  | [], _, _ => rfl
  | (v, e) :: more, input, s =>
    f.assemble_append setting rest more (f.context.bindAll setting.functions e v input s).1
      (f.context.bindAll setting.functions e v input s).2

/-! ### What an act evaluates -/

theorem Task.contexts_of_found {setting : Setting} {t : Task} {s s' : RunState} {name : Iri}
    {purpose : Purpose} {plan : Plan} (h : t.found? setting s = some (name, purpose, plan, s')) :
    t.contexts = purpose.contexts := by
  cases t with
  | entering n p =>
    obtain ⟨_, -, heq⟩ := Option.map_eq_some_iff.mp h
    simp only [Prod.mk.injEq] at heq
    rw [← heq.2.1, contexts]
  | asking n accept p =>
    simp only [found?] at h
    split at h
    · split at h
      · simp only [Option.some.injEq, Prod.mk.injEq] at h
        rw [← h.2.1, contexts]
      · cases h
    · cases h
    · cases h
  | _ => cases h

/-- A label that is named in an argument of a call stands for its node after the call is served. -/
theorem Purpose.node?_of_argument {setting : Setting} {name : Iri} {plan : Plan} {s : RunState}
    {c : Context} {arguments : List Expression} {caller : Solution} {once : Bool}
    {signature : List Variable} {r : Evaluation} {label : String} {node : BlankNode}
    (hs : plan.signature = some signature) (hl : signature.length = arguments.length)
    (hsound : s.IsSound) (hscope : c.scope < s.scopes.count)
    (hr : r ∈ c.argumentEvaluations setting.functions caller 0 (signature.zip arguments) s)
    (hnames : r.Names (c.evalContext setting.functions) label node) :
    ((Purpose.call c (some arguments) caller once).serve setting name plan s).2.scopes.node? c.scope
      label = some node := by
  have hchain := c.chain_argumentEvaluations setting.functions caller (signature.zip arguments) 0 s
  have hknown := hchain.node?_of_names rfl hsound hscope hr hnames
  obtain ⟨scopes, hbound⟩ := c.isScoped_bindArguments setting.functions caller
    (signature.zip arguments) s
  have hevolves := hchain.evolves rfl hscope
  rw [hbound] at hknown hevolves
  have hstart : ∀ (call : CallKey) (u : Solution) (once : Bool) (t : RunState),
      t.Evolves .all (c.startCall call plan u once t).2 := fun call u once t =>
    .trans (.note t (.started call plan once) fun _ _ he => by cases he) (.root _)
  have hserved : RunState.Evolves .all { s with scopes }
      ((Purpose.call c (some arguments) caller once).serve setting name plan s).2 := by
    have hparameters : (c.parameters setting.functions name plan (some arguments) caller s) =
        (.ok (.ofBindings (c.bindArguments setting.functions caller (signature.zip arguments) s).1),
          { s with scopes }) := by
      simp only [Context.parameters, hs, hl, ne_eq, not_true_eq_false, if_false, bind_apply, hbound]
      rfl
    simp only [Purpose.serve, bind_apply, hparameters]
    split
    · exact hstart _ _ _ _
    · have hrecorded : RunState.Evolves .all { s with scopes } _ :=
        KeepsTo.recordCall (.ofSolution name plan.signature (.ofBindings
          (c.bindArguments setting.functions caller (signature.zip arguments) s).1)) _ (.refl _)
      refine hrecorded.trans ?_
      simp only [bind_apply]
      split
      · exact hstart _ _ _ _
      · exact .note _ _ fun _ _ he => by cases he
  exact ((hsound.evolves hevolves).keeps hserved).node? _
    (Nat.lt_of_lt_of_le hscope hevolves.grows.scopes) label node hknown

/-- An act evaluates an expression for a solution in a context: as a `BIND`, as a binding behind the
select part, or as an argument of a call whose plan is found. -/
inductive Act.Evaluates (setting : Setting) (a : Act) : Context → Evaluation → Prop
  | bind {f : Frame} {e : Expression} {v : Variable} {rest : List PlanNode} {input : Sequence}
      {r : Evaluation} (ht : a.task = .clauses f (.clause (.bind e v) :: rest) input)
      (hr : r ∈ f.context.evaluationsOf setting.functions (v, e) 0 input.solutions a.before) :
    Evaluates setting a f.context r
  | behind {f : Frame} {input : Sequence} {bindings : List (Variable × Expression)}
      {rest : List PlanNode} {r : Evaluation} (ht : a.task = .assembling f input)
      (hp : f.plan.postSelect = (bindings.map fun (v, e) => .clause (.bind e v)) ++ rest)
      (hr : r ∈ f.context.evaluations setting.functions bindings input a.before) :
    Evaluates setting a f.context r
  | argument {name : Iri} {c : Context} {arguments : List Expression} {caller : Solution}
      {once : Bool} {plan : Plan} {signature : List Variable} {s : RunState} {r : Evaluation}
      (hf : a.task.found? setting a.before =
        some (name, .call c (some arguments) caller once, plan, s))
      (hs : plan.signature = some signature) (hl : signature.length = arguments.length)
      (hr : r ∈ c.argumentEvaluations setting.functions caller 0 (signature.zip arguments) s) :
    Evaluates setting a c r

namespace Act.Evaluates

variable {setting : Setting} {a : Act} {c : Context} {r : Evaluation}

/-- The context is one of the task's own. -/
theorem mem_contexts (h : a.Evaluates setting c r) : c ∈ a.task.contexts := by
  cases h with
  | bind ht | behind ht => rw [ht]; exact List.mem_cons_self
  | argument hf => exact Task.contexts_of_found hf ▸ List.mem_cons_self

/-- What evaluates an expression is no fetch and no stream. -/
theorem isItemReady_eq_false (h : a.Evaluates setting c r) (index : Nat) :
    a.task.isItemReady setting a.before index = false := by
  cases h with
  | bind ht | behind ht => rw [ht]; rfl
  | argument hf =>
    cases htask : a.task with
    | fetching | iterating => rw [htask] at hf; cases hf
    | _ => rfl

/-- A label that is named in an act stands for its node after the act. -/
theorem node?_after {label : String} {node : BlankNode} (h : a.Evaluates setting c r)
    (hafter : a.after = (a.task.act setting a.before).2) (hsound : a.before.IsSound)
    (hin : c.IsIn a.before) (hnames : r.Names (c.evalContext setting.functions) label node) :
    a.after.scopes.node? c.scope label = some node := by
  have hbase := RunState.Grows.refl a.before
  cases h with
  | @bind f e v rest input _ ht hr =>
    rw [hafter, ht]
    exact (f.context.chain_evaluationsOf setting.functions (v, e) input.solutions 0
      a.before).node?_of_names rfl hsound hin.scope hr hnames
  | @behind f input bindings rest _ ht hp hr =>
    rw [hafter, ht]
    show (f.assemble setting input f.plan.postSelect a.before).2.scopes.node? _ _ = _
    rw [hp, f.assemble_append]
    have hknown := (f.context.chain_evaluations setting.functions bindings input
      a.before).node?_of_names rfl hsound hin.scope hr hnames
    have hbound : a.before.Evolves .all
        (f.context.bindInOrder setting.functions bindings input a.before).2 :=
      f.context.keepsTo_bindInOrder setting.functions hin trivial bindings input _ hbase
    have hrest := f.keepsTo_assemble (p := .all) setting hin
      (f.context.bindInOrder setting.functions bindings input a.before).1 rest
      (fun _ _ _ => trivial) _ hbound.grows
    exact ((hsound.evolves hbound).keeps hrest).node? _
      (Nat.lt_of_lt_of_le hin.scope hbound.grows.scopes) label node hknown
  | @argument name c arguments caller once plan signature s _ hf hs hl hr =>
    rw [hafter, Task.act_of_found hf]
    obtain ⟨_, events, -, -, rfl⟩ := Task.found_state hf
    exact Purpose.node?_of_argument hs hl { hsound with } hin.scope hr hnames

end Act.Evaluates

/-! ### Along a run -/

/-- A blank node stands for one label at most. -/
theorem RunState.IsSound.label_eq_of_node? {s : RunState} (h : s.IsSound) {scope scope' : ScopeId}
    {label label' : String} {node : BlankNode} (hn : s.scopes.node? scope label = some node)
    (hn' : s.scopes.node? scope' label' = some node) : label = label' := by
  obtain ⟨_, -, hlookup⟩ := List.exists_of_findSome?_eq_some hn
  obtain ⟨_, -, hlookup'⟩ := List.exists_of_findSome?_eq_some hn'
  exact (Prod.mk.inj (h.eq_of_minted hlookup hlookup')).2

namespace Run

variable {setting : Setting} {state : RunState} {limit : Nat} {plan : Plan} {input : Sequence}
variable {moves : List RunMove} {acts : List Act} {r r' : Run} {move : RunMove}

/-- What `BNODE` has named in some acts is known in the state that they have led to. -/
structure KnowsNamed (setting : Setting) (acts : List Act) (r : Run) : Prop where
  sound : r.state.IsSound
  areIn : r.task.AreIn r.state
  known : ∀ a ∈ acts, ∀ c ev label node, a.Evaluates setting c ev →
    ev.Names (c.evalContext setting.functions) label node →
    c.scope < r.state.scopes.count ∧ r.state.scopes.node? c.scope label = some node

/-- Every move keeps what is known, and adds what it names. -/
theorem KnowsNamed.step (h : KnowsNamed setting acts r) (hs : r.step setting move = some r') :
    KnowsNamed setting (acts ++ (r.act? setting move).toList) r' := by
  obtain ⟨-, ⟨hact, htask, hevolves⟩ | ⟨m, u, u', hact, hturning⟩⟩ := step_cases h.areIn hs
  · have hkeeps := h.sound.keeps hevolves
    rw [hact, Option.toList_none, List.append_nil]
    refine ⟨h.sound.evolves hevolves, fun u hu c hc => ?_, fun a ha c ev label node he hn => ?_⟩
    · exact (h.areIn u (htask ▸ hu) c hc).grows hevolves.grows
    · obtain ⟨hscope, hknown⟩ := h.known a ha c ev label node he hn
      exact ⟨Nat.lt_of_lt_of_le hscope hkeeps.count, hkeeps.node? _ hscope label node hknown⟩
  · have hkeeps := h.sound.keeps hturning.evolves
    rw [hact, Option.toList_some]
    refine ⟨h.sound.evolves hturning.evolves, hturning.areIn h.areIn, fun a ha c ev label node he
      hn => ?_⟩
    rcases List.mem_append.mp ha with hold | hnew
    · obtain ⟨hscope, hknown⟩ := h.known a hold c ev label node he hn
      exact ⟨Nat.lt_of_lt_of_le hscope hkeeps.count, hkeeps.node? _ hscope label node hknown⟩
    · obtain rfl := List.mem_singleton.mp hnew
      have hin : c.IsIn r.state := h.areIn u hturning.within c he.mem_contexts
      have hafter : r'.state = (u.act setting r.state).2 := by
        have hacts := hturning.acts
        unfold Task.actOn? at hacts
        split at hacts
        · split at hacts
          · rw [Option.some.inj hacts]
          · cases hacts
        · rw [if_neg (by rw [he.isItemReady_eq_false]; exact Bool.false_ne_true)] at hacts
          cases hacts
      exact ⟨Nat.lt_of_lt_of_le hin.scope hkeeps.count, he.node?_after hafter h.sound hin hn⟩

/-- **`BNODE` goes by its label.**  Whatever is evaluated in a run, in whatever order: two calls of
`BNODE` with labels that are evaluated in one scope give the same blank node exactly if the labels are
the same.  A `BIND`, the bindings behind a select part, and the calls of an element with all their
arguments are evaluated in one context each, for all solutions of their sequence; so it makes no
difference there whether the two are evaluated for the same solution or for two different ones. -/
theorem nodes_of_labels (hstate : state.IsSound)
    (h : (start (state.renew limit) plan input).replay setting moves = some r) {a a' : Act}
    (ha : a ∈ (start (state.renew limit) plan input).acts setting moves)
    (ha' : a' ∈ (start (state.renew limit) plan input).acts setting moves) {c c' : Context}
    {ev ev' : Evaluation} (he : a.Evaluates setting c ev) (he' : a'.Evaluates setting c' ev')
    (hscope : c.scope = c'.scope) {label label' : String} {node node' : BlankNode}
    (hn : ev.Names (c.evalContext setting.functions) label node)
    (hn' : ev'.Names (c'.evalContext setting.functions) label' node') :
    node = node' ↔ label = label' := by
  obtain ⟨hevolves, hin⟩ := start_evolves (state.renew limit) plan input
  have hall : KnowsNamed setting ((start (state.renew limit) plan input).acts setting moves) r :=
    acts_induction (P := KnowsNamed setting) (fun _ _ _ _ hr hs => hr.step hs) []
      (start (state.renew limit) plan input)
      ⟨(hstate.renew limit).evolves hevolves, hin, fun _ hm => nomatch hm⟩ h
  have hknown := (hall.known a ha c ev label node he hn).2
  have hknown' := (hall.known a' ha' c' ev' label' node' he' hn').2
  constructor
  · rintro rfl
    exact hall.sound.label_eq_of_node? hknown hknown'
  · rintro rfl
    rw [hscope, hknown'] at hknown
    exact (Option.some.inj hknown).symm

/-! ### Three solutions with labels -/

/-- Solutions that bind a label each, two of them the same one. -/
def tagged : Sequence :=
  .ofLists [⟨"x"⟩, ⟨"y"⟩] ([("l", "1"), ("l", "2"), ("m", "3")].map fun (x, y) =>
    .ofBindings [(⟨"x"⟩, .ofText x), (⟨"y"⟩, .ofText y)])

/-- An expression that gives a label its node. -/
def tagNode : Expression := .call (.builtin .bnode) [.var ⟨"x"⟩]

/-- A plan that binds a node to each of them. -/
def taggingPlan : Plan :=
  ⟨none, none, none, [], [.clause (.bind tagNode ⟨"n"⟩)], none, [], .rows none⟩

/-- Its run. -/
def tagging : Run := start ((RunState.start 1).renew 1) taggingPlan tagged

/-- The first act of that run, which evaluates the expression for all solutions. -/
def taggingAct : Act :=
  ⟨tagging.task, tagging.state, (tagging.task.act bareSetting tagging.state).1,
    (tagging.task.act bareSetting tagging.state).2⟩

/-- The evaluations in that act. -/
def tagEvaluations : List Evaluation :=
  tagging.context.evaluationsOf bareSetting.functions (⟨"n"⟩, tagNode) 0 tagged.solutions
    tagging.state

theorem tagging_evaluates {r : Evaluation} (hr : r ∈ tagEvaluations) :
    taggingAct.Evaluates bareSetting tagging.context r :=
  .bind (f := ⟨taggingPlan, tagging.context⟩) rfl hr

theorem tagging_names {r : Evaluation} {label : String} (he : r.expression = tagNode)
    (hx : r.solution.get? ⟨"x"⟩ = some (.ofText label)) :
    r.Names (tagging.context.evalContext bareSetting.functions) label
      (r.scopes.mint tagging.context.scope label).1 := by
  refine Evaluation.names_bnode he ?_
  show (Eval.simple (Eval.ofOption (r.solution.get? ⟨"x"⟩))).run r.scopes = _
  rw [hx]
  rfl

/-- The nodes of the labels of two solutions are different, as the labels are. -/
theorem tagging_tells_labels_apart : ∃ a ∈ tagging.acts bareSetting [.work .here],
    ∃ c ev ev' node node', a.Evaluates bareSetting c ev ∧ a.Evaluates bareSetting c ev' ∧
      ev.Names (c.evalContext bareSetting.functions) "l" node ∧
      ev'.Names (c.evalContext bareSetting.functions) "m" node' ∧ node ≠ node' := by
  obtain ⟨ev₀, ev₁, ev₂, hall, he, hx, he', hx'⟩ : ∃ ev₀ ev₁ ev₂, tagEvaluations = [ev₀, ev₁, ev₂] ∧
      ev₀.expression = tagNode ∧ ev₀.solution.get? ⟨"x"⟩ = some (.ofText "l") ∧
      ev₂.expression = tagNode ∧ ev₂.solution.get? ⟨"x"⟩ = some (.ofText "m") :=
    ⟨_, _, _, rfl, rfl, rfl, rfl, rfl⟩
  have hmem : taggingAct ∈ tagging.acts bareSetting [.work .here] := List.mem_singleton_self _
  have hev := tagging_evaluates (r := ev₀) (hall ▸ List.mem_cons_self)
  have hev' := tagging_evaluates (r := ev₂) (hall ▸ by simp)
  have hn := tagging_names he hx
  have hn' := tagging_names he' hx'
  refine ⟨taggingAct, hmem, tagging.context, ev₀, ev₂, _, _, hev, hev', hn, hn', fun hsame => ?_⟩
  have hlabels := (nodes_of_labels (RunState.isSound_start 1) rfl hmem hmem hev hev' rfl
    hn hn').mp hsame
  exact absurd hlabels (by decide)

/-- The nodes of equal labels are the same for two different solutions. -/
theorem tagging_shares_across_solutions : ∃ a ∈ tagging.acts bareSetting [.work .here],
    ∃ c ev ev' node, a.Evaluates bareSetting c ev ∧ a.Evaluates bareSetting c ev' ∧
      ev.index ≠ ev'.index ∧ ev.solution.get? ⟨"y"⟩ ≠ ev'.solution.get? ⟨"y"⟩ ∧
      ev.Names (c.evalContext bareSetting.functions) "l" node ∧
      ev'.Names (c.evalContext bareSetting.functions) "l" node := by
  obtain ⟨ev₀, ev₁, ev₂, hall, he, hx, he', hx', hindex, hy, hnode⟩ : ∃ ev₀ ev₁ ev₂,
      tagEvaluations = [ev₀, ev₁, ev₂] ∧
      ev₀.expression = tagNode ∧ ev₀.solution.get? ⟨"x"⟩ = some (.ofText "l") ∧
      ev₁.expression = tagNode ∧ ev₁.solution.get? ⟨"x"⟩ = some (.ofText "l") ∧
      ev₀.index ≠ ev₁.index ∧ ev₀.solution.get? ⟨"y"⟩ ≠ ev₁.solution.get? ⟨"y"⟩ ∧
      (ev₁.scopes.mint tagging.context.scope "l").1 =
        (ev₀.scopes.mint tagging.context.scope "l").1 :=
    ⟨_, _, _, rfl, rfl, rfl, rfl, rfl, by decide, by decide, by decide +kernel⟩
  have hev := tagging_evaluates (r := ev₀) (hall ▸ List.mem_cons_self)
  have hev' := tagging_evaluates (r := ev₁) (hall ▸ by simp)
  have hn' := tagging_names he' hx'
  rw [hnode] at hn'
  exact ⟨taggingAct, List.mem_singleton_self _, tagging.context, ev₀, ev₁, _, hev, hev', hindex, hy,
    tagging_names he hx, hn'⟩

end Run

end TripleLoom
