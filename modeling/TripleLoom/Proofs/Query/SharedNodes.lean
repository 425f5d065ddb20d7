import TripleLoom.Proofs.Query.Reuse

/-!
# TripleLoom.Proofs.Query.SharedNodes — blank nodes that lifted expressions make

A call of `BNODE` without argument makes another blank node each time it is evaluated.  Lifting
evaluates an expression once for a solution, however many positions hold it.  A run evaluates the
bindings behind the select part one after the other (`Frame.assemble_bindings`), each for one
solution after the other, and an evaluation numbers its nodes behind those of the ones before it
(`Ordered`), so the nodes that two of them make are different.  Two positions therefore get the same
made node exactly if they hold the same expression (`Query.made_nodes_eq_iff`).
-/

namespace TripleLoom

/-! ### Fresh nodes are numbered on -/

/-- Whether the number of the next fresh node never goes back in a computation. -/
def Eval.CountsOn {α : Type} (m : Eval α) : Prop :=
  ∀ scopes, scopes.nextFresh ≤ (m.run scopes).2.nextFresh

namespace Eval

theorem isClosed_countsOn : IsClosed CountsOn where
  pure _ _ := Nat.le_refl _
  ofOption _ _ := Nat.le_refl _
  bind {_ _ m f} hm hf scopes := by
    have hfirst := hm scopes
    rw [run_bind]
    rcases hrun : m.run scopes with ⟨_ | a, after⟩ <;> rw [hrun] at hfirst
    · exact hfirst
    · exact Nat.le_trans hfirst (hf a after)
  attempt hm := hm
  orElse {_ m n} hm hn scopes := by
    have hfirst := hm scopes
    rw [run_orElse]
    rcases hrun : m.run scopes with ⟨_ | a, after⟩ <;> rw [hrun] at hfirst
    · exact Nat.le_trans hfirst (hn after)
    · exact hfirst

theorem mints_countsOn (scope : ScopeId) : Mints CountsOn scope where
  fresh scopes := Nat.le_succ scopes.nextFresh
  mint label scopes := by
    show scopes.nextFresh ≤ (scopes.mint scope label).2.nextFresh
    unfold Scopes.mint
    split
    · exact Nat.le_refl _
    · exact Nat.le_succ _

end Eval

theorem Expression.countsOn_eval (c : EvalContext) (s : Solution) (e : Expression) :
    (e.eval c s).CountsOn := Eval.isClosed_countsOn.eval c s fun _ => Eval.mints_countsOn _

/-! ### Evaluations -/

/-- The evaluation of a binding's expression for the solution at an index. -/
structure Evaluation where
  name : Variable
  expression : Expression
  index : Nat
  solution : Solution
  /-- The scopes that it begins with. -/
  scopes : Scopes

namespace Evaluation

variable (c : EvalContext) (r : Evaluation)

/-- What an evaluation gives, and the scopes after it. -/
def outcome : Option Term × Scopes := (r.expression.eval c r.solution).run r.scopes

/-- The solution with what an evaluation gives. -/
def bound : Solution := r.solution.bindValue r.name (r.outcome c).1

/-- An evaluation gives a blank node that it makes itself, as a call of `BNODE` without argument does:
one whose number is counted through on the way. -/
structure Makes (node : BlankNode) : Prop where
  value : (r.outcome c).1 = some (.blank node)
  fresh : ∃ n, r.scopes.nextFresh ≤ n ∧ n < (r.outcome c).2.nextFresh ∧ node = .fresh n

end Evaluation

/-- Some evaluations one after the other: the nodes that each makes are numbered behind those of the
ones before it, from one number on and below another one. -/
structure Ordered (c : EvalContext) (low high : Nat) (rs : List Evaluation) : Prop where
  le : low ≤ high
  pairwise : rs.Pairwise fun r r' => (r.outcome c).2.nextFresh ≤ r'.scopes.nextFresh
  bounds : ∀ r ∈ rs, low ≤ r.scopes.nextFresh ∧ (r.outcome c).2.nextFresh ≤ high

namespace Ordered

variable {c : EvalContext} {low mid high : Nat} {rs rs' : List Evaluation}

theorem nil (low : Nat) : Ordered c low low [] := ⟨Nat.le_refl _, .nil, fun _ h => nomatch h⟩

theorem single (c : EvalContext) (r : Evaluation) :
    Ordered c r.scopes.nextFresh (r.outcome c).2.nextFresh [r] := by
  refine ⟨r.expression.countsOn_eval c r.solution r.scopes, List.pairwise_singleton _ _, ?_⟩
  intro r' hr'
  obtain rfl := List.mem_singleton.mp hr'
  exact ⟨Nat.le_refl _, Nat.le_refl _⟩

theorem append (h : Ordered c low mid rs) (h' : Ordered c mid high rs') :
    Ordered c low high (rs ++ rs') := by
  refine ⟨Nat.le_trans h.le h'.le, List.pairwise_append.mpr ⟨h.pairwise, h'.pairwise, ?_⟩, ?_⟩
  · exact fun r hr r' hr' => Nat.le_trans (h.bounds r hr).2 (h'.bounds r' hr').1
  · intro r hr
    rcases List.mem_append.mp hr with hr | hr
    · exact ⟨(h.bounds r hr).1, Nat.le_trans (h.bounds r hr).2 h'.le⟩
    · exact ⟨Nat.le_trans h.le (h'.bounds r hr).1, (h'.bounds r hr).2⟩

/-- No two evaluations make the same node. -/
theorem eq_of_makes (h : Ordered c low high rs) {r r' : Evaluation} (hr : r ∈ rs) (hr' : r' ∈ rs)
    {node : BlankNode} (hm : r.Makes c node) (hm' : r'.Makes c node) : r = r' := by
  obtain ⟨n, hlow, hhigh, rfl⟩ := hm.fresh
  obtain ⟨n', hlow', hhigh', hnode⟩ := hm'.fresh
  obtain rfl := BlankNode.fresh_injective hnode
  obtain ⟨i, hi, rfl⟩ := List.mem_iff_getElem.mp hr
  obtain ⟨j, hj, rfl⟩ := List.mem_iff_getElem.mp hr'
  have hpairwise := List.pairwise_iff_getElem.mp h.pairwise
  rcases Nat.lt_trichotomy i j with hlt | rfl | hlt
  · have hapart := hpairwise i j hi hj hlt
    omega
  · rfl
  · have hapart := hpairwise j i hj hi hlt
    omega

end Ordered

/-! ### The evaluations of some bindings -/

namespace Context

variable (c : Context) (functions : FunctionRegistry)

/-- The evaluations of a binding for some solutions, the first of which has the given index. -/
def evaluationsOf (b : Variable × Expression) : Nat → List Solution → RunState → List Evaluation
  | _, [], _ => []
  | index, s :: rest, state => ⟨b.1, b.2, index, s, state.scopes⟩ ::
      evaluationsOf b (index + 1) rest (c.bindOne functions b.2 b.1 s state).2

/-- The evaluations of some bindings, one binding after the other. -/
def evaluations : List (Variable × Expression) → Sequence → RunState → List Evaluation
  | [], _, _ => []
  | b :: rest, input, state =>
    c.evaluationsOf functions b 0 input.solutions state ++
      evaluations rest (c.bindAll functions b.2 b.1 input state).1
        (c.bindAll functions b.2 b.1 input state).2

theorem bindOne_apply (e : Expression) (v : Variable) (s : Solution) (state : RunState) :
    c.bindOne functions e v s state =
      (s.bindValue v ((e.eval (c.evalContext functions) s).run state.scopes).1,
        { state with scopes := ((e.eval (c.evalContext functions) s).run state.scopes).2 }) := by
  have heval : c.eval? functions e s state =
      (((e.eval (c.evalContext functions) s).run state.scopes).1,
        { state with scopes := ((e.eval (c.evalContext functions) s).run state.scopes).2 }) := rfl
  rw [bindOne, RunM.bind_apply, heval]
  cases ((e.eval (c.evalContext functions) s).run state.scopes).1 <;> rfl

/-- Each solution is bound what its evaluation gives, and the fresh nodes are numbered on through
the evaluations. -/
theorem mapM_bindOne (b : Variable × Expression) : ∀ (solutions : List Solution) (index : Nat)
    (state : RunState),
    (solutions.mapM (c.bindOne functions b.2 b.1) state).1 =
      (c.evaluationsOf functions b index solutions state).map
        (Evaluation.bound (c.evalContext functions)) ∧
    Ordered (c.evalContext functions) state.scopes.nextFresh
      (solutions.mapM (c.bindOne functions b.2 b.1) state).2.scopes.nextFresh
      (c.evaluationsOf functions b index solutions state)
  | [], _, state => ⟨rfl, .nil _⟩
  | s :: rest, index, state => by
    obtain ⟨hmap, hordered⟩ :=
      mapM_bindOne b rest (index + 1) (c.bindOne functions b.2 b.1 s state).2
    have hone := c.bindOne_apply functions b.2 b.1 s state
    rw [List.mapM_cons, RunM.bind_apply, RunM.bind_apply, evaluationsOf, List.map_cons, ← hmap]
    refine ⟨?_, ?_⟩
    · rw [hone]
      rfl
    · have hfirst := Ordered.single (c.evalContext functions) ⟨b.1, b.2, index, s, state.scopes⟩
      rw [hone] at hordered ⊢
      exact hfirst.append hordered

theorem getElem?_evaluationsOf {b : Variable × Expression} {r : Evaluation} :
    ∀ {solutions : List Solution} {index i : Nat} {state : RunState},
      (c.evaluationsOf functions b index solutions state)[i]? = some r →
      r.name = b.1 ∧ r.expression = b.2 ∧ r.index = index + i
  | [], _, _, _, h => by cases h
  | s :: rest, _, 0, _, h => by
    obtain rfl := Option.some.inj h
    exact ⟨rfl, rfl, rfl⟩
  | s :: rest, index, i + 1, state, h => by
    have hrest : (c.evaluationsOf functions b (index + 1) rest
      (c.bindOne functions b.2 b.1 s state).2)[i]? = some r := h
    obtain ⟨hname, hexpression, hindex⟩ := getElem?_evaluationsOf hrest
    exact ⟨hname, hexpression, by omega⟩

theorem map_solution_evaluationsOf (b : Variable × Expression) :
    ∀ (solutions : List Solution) (index : Nat) (state : RunState),
      (c.evaluationsOf functions b index solutions state).map (·.solution) = solutions
  | [], _, _ => rfl
  | s :: rest, _, _ => congrArg (s :: ·) (map_solution_evaluationsOf b rest _ _)

theorem solutions_bindAll (b : Variable × Expression) (input : Sequence) (state : RunState) :
    (c.bindAll functions b.2 b.1 input state).1.solutions =
      (c.evaluationsOf functions b 0 input.solutions state).map
        (Evaluation.bound (c.evalContext functions)) := by
  rw [← (c.mapM_bindOne functions b input.solutions 0 state).1]
  rfl

/-- All evaluations of some bindings are ordered. -/
theorem ordered_evaluations : ∀ (bindings : List (Variable × Expression)) (input : Sequence)
    (state : RunState), Ordered (c.evalContext functions) state.scopes.nextFresh
      (c.bindInOrder functions bindings input state).2.scopes.nextFresh
      (c.evaluations functions bindings input state)
  | [], _, _ => .nil _
  | b :: rest, input, state =>
    (c.mapM_bindOne functions b input.solutions 0 state).2.append
      (ordered_evaluations rest (c.bindAll functions b.2 b.1 input state).1
        (c.bindAll functions b.2 b.1 input state).2)

theorem mem_of_mem_evaluations {r : Evaluation} : ∀ {bindings : List (Variable × Expression)}
    {input : Sequence} {state : RunState}, r ∈ c.evaluations functions bindings input state →
      (r.name, r.expression) ∈ bindings
  | [], _, _, h => by cases h
  | b :: rest, input, state, h => by
    rcases List.mem_append.mp h with h | h
    · obtain ⟨i, hi⟩ := List.mem_iff_getElem?.mp h
      obtain ⟨hname, hexpression, -⟩ := c.getElem?_evaluationsOf functions hi
      rw [hname, hexpression]
      exact List.mem_cons_self
    · exact List.mem_cons_of_mem _ (mem_of_mem_evaluations h)

theorem evaluations_append (bindings : List (Variable × Expression)) :
    ∀ (before : List (Variable × Expression)) (input : Sequence) (state : RunState),
      c.evaluations functions (before ++ bindings) input state =
        c.evaluations functions before input state ++
          c.evaluations functions bindings (c.bindInOrder functions before input state).1
            (c.bindInOrder functions before input state).2 ∧
      c.bindInOrder functions (before ++ bindings) input state =
        c.bindInOrder functions bindings (c.bindInOrder functions before input state).1
          (c.bindInOrder functions before input state).2
  | [], _, _ => ⟨rfl, rfl⟩
  | b :: before, input, state => by
    obtain ⟨hevaluations, hbind⟩ := evaluations_append bindings before
      (c.bindAll functions b.2 b.1 input state).1 (c.bindAll functions b.2 b.1 input state).2
    refine ⟨?_, hbind⟩
    rw [List.cons_append, evaluations, hevaluations, evaluations, List.append_assoc]
    rfl

/-! ### What the bindings leave behind -/

/-- A variable that some bindings do not bind keeps what it had. -/
theorem get?_bindInOrder {i : Nat} {w : Variable} : ∀ {bindings : List (Variable × Expression)}
    {input : Sequence} {state : RunState} {s : Solution}, w ∉ bindings.map (·.1) →
      input.solutions[i]? = some s → ∃ s',
        (c.bindInOrder functions bindings input state).1.solutions[i]? = some s' ∧
          s'.get? w = s.get? w
  | [], _, _, s, _, hs => ⟨s, hs, rfl⟩
  | b :: rest, input, state, s, hw, hs => by
    rw [List.map_cons, List.mem_cons, not_or] at hw
    -- the evaluation for the solution
    have hsolution : ((c.evaluationsOf functions b 0 input.solutions state)[i]?).map (·.solution) =
        some s := by
      rw [← List.getElem?_map, c.map_solution_evaluationsOf functions, hs]
    obtain ⟨r, hr, rfl⟩ := Option.map_eq_some_iff.mp hsolution
    obtain ⟨hname, -, -⟩ := c.getElem?_evaluationsOf functions hr
    have hbound : (c.bindAll functions b.2 b.1 input state).1.solutions[i]? =
        some (r.bound (c.evalContext functions)) := by
      rw [c.solutions_bindAll functions, List.getElem?_map, hr]
      rfl
    obtain ⟨s', hs', hget⟩ := get?_bindInOrder hw.2 hbound
    refine ⟨s', hs', ?_⟩
    rw [hget, Evaluation.bound, Solution.get?_bindValue, if_neg (hname ▸ hw.1)]

/-- A variable that is bound once holds what its expression's evaluation gave. -/
theorem get?_of_mem_evaluations {r : Evaluation} {t : Term}
    (ht : (r.outcome (c.evalContext functions)).1 = some t) :
    ∀ {bindings : List (Variable × Expression)} {input : Sequence} {state : RunState},
      (bindings.map (·.1)).Nodup → r ∈ c.evaluations functions bindings input state →
      ∃ s, (c.bindInOrder functions bindings input state).1.solutions[r.index]? = some s ∧
        s.get? r.name = some t
  | [], _, _, _, h => by cases h
  | b :: rest, input, state, hnodup, h => by
    rw [List.map_cons, List.nodup_cons] at hnodup
    rcases List.mem_append.mp h with h | h
    · obtain ⟨i, hi⟩ := List.mem_iff_getElem?.mp h
      obtain ⟨hname, -, hindex⟩ := c.getElem?_evaluationsOf functions hi
      rw [Nat.zero_add] at hindex
      have hbound : (c.bindAll functions b.2 b.1 input state).1.solutions[i]? =
          some (r.bound (c.evalContext functions)) := by
        rw [c.solutions_bindAll functions, List.getElem?_map, hi]
        rfl
      rw [hindex]
      obtain ⟨s, hs, hget⟩ := c.get?_bindInOrder functions (hname ▸ hnodup.1) hbound
      refine ⟨s, hs, ?_⟩
      rw [hget, Evaluation.bound, Solution.get?_bindValue, if_pos rfl, ht]
      rfl
    · have hrest : r ∈ c.evaluations functions rest
        (c.bindAll functions b.2 b.1 input state).1 (c.bindAll functions b.2 b.1 input state).2 := h
      have hlater := get?_of_mem_evaluations ht hnodup.2 hrest
      exact hlater

end Context

/-! ### Positions that get made nodes -/

namespace Query

variable (q : Query) (id : Nat) (c leaf : Context) (functions : FunctionRegistry) (input : Sequence)
  (state : RunState)

/-- In the bindings of a lifted query, the evaluation that the lifted expression's variable is bound
to for the solution at an index makes a blank node. -/
def MakesFor (e : Expression) (index : Nat) (node : BlankNode) : Prop :=
  ∃ r ∈ c.evaluations functions (q.normalized id).postSelect input state,
    (q.liftingFrom id).variableFor? e = some r.name ∧ r.expression = e ∧ r.index = index ∧
      r.Makes (c.evalContext functions) node

/-- The term inside the lists of one of a query's positions, given by its place among them, is
instantiated with a term for the solution at an index. -/
def InstantiatesAt (place index : Nat) (t : Term) : Prop :=
  ∃ p template s, (q.normalized id).form.positions[place]? = some p ∧
    TemplateTerm.ofPosition p.innermost = pure template ∧
    (c.bindInOrder functions (q.normalized id).postSelect input state).1.solutions[index]? =
      some s ∧
    template.instantiate leaf s = pure (some t)

variable {q id c leaf functions input state}

theorem postSelect_normalized_of_introduced
    (hpost : ∀ v ∈ q.introduced id, v ∉ q.postSelect.map (·.1)) :
    (q.normalized id).postSelect = q.postSelect ++ (q.liftingFrom id).bindings :=
  postSelect_normalized_eq_append id (q.pairs_liftingFrom id) fun b hb =>
    hpost b.2 (List.mem_map_of_mem (f := (·.2)) hb)

section Made

variable (hpost : ∀ v ∈ q.introduced id, v ∉ q.postSelect.map (·.1)) {e e' : Expression}
  {index index' : Nat} {node node' : BlankNode}
include hpost

/-- The evaluations that make nodes for lifted expressions are among those of the introduced
variables' bindings. -/
theorem MakesFor.mem_evaluations (h : q.MakesFor id c functions input state e index node) :
    ∃ r ∈ c.evaluations functions (q.liftingFrom id).bindings
        (c.bindInOrder functions q.postSelect input state).1
        (c.bindInOrder functions q.postSelect input state).2,
      (q.liftingFrom id).variableFor? e = some r.name ∧ r.expression = e ∧ r.index = index ∧
        r.Makes (c.evalContext functions) node := by
  obtain ⟨r, hr, hv, hmade⟩ := h
  refine ⟨r, ?_, hv, hmade⟩
  rw [postSelect_normalized_of_introduced hpost, (c.evaluations_append functions _ _ _ _).1,
    List.mem_append] at hr
  refine hr.resolve_left fun hgiven => hpost r.name (mem_introduced hv) ?_
  exact List.mem_map_of_mem (f := (·.1)) (c.mem_of_mem_evaluations functions hgiven)

/-- A node that is made for an expression is bound to the expression's variable. -/
theorem MakesFor.get? (h : q.MakesFor id c functions input state e index node) :
    ∃ v s, (q.liftingFrom id).variableFor? e = some v ∧
      (c.bindInOrder functions (q.normalized id).postSelect input state).1.solutions[index]? =
        some s ∧ s.get? v = some (.blank node) := by
  obtain ⟨r, hr, hv, -, rfl, hmakes⟩ := h.mem_evaluations hpost
  obtain ⟨s, hs, hget⟩ := c.get?_of_mem_evaluations functions hmakes.value
    (q.pairs_liftingFrom id).nodup_vars hr
  refine ⟨r.name, s, hv, ?_, hget⟩
  rw [postSelect_normalized_of_introduced hpost, (c.evaluations_append functions _ _ _ _).2]
  exact hs

/-- A position is instantiated with the node that is made for its expression. -/
theorem MakesFor.instantiatesAt (h : q.MakesFor id c functions input state e index node)
    {place : Nat} {p : Position} (hp : q.form.positions[place]? = some p)
    (he : p.embedded? = some e) :
    q.InstantiatesAt id c leaf functions input state place index (.blank node) := by
  obtain ⟨v, s, hv, hs, hget⟩ := h.get? hpost
  refine ⟨p.lifted (q.liftingFrom id), .var v, s, ?_, ?_, hs, ?_⟩
  · show (q.form.lifted (q.liftingFrom id)).positions[place]? = _
    rw [Form.positions_lifted, List.getElem?_map, hp, Option.map_some]
  · rw [Position.innermost_lifted he hv]
    rfl
  · rw [TemplateTerm.instantiate, hget]

/-- Two made nodes are the same exactly if they are made for the same expression and solution. -/
theorem MakesFor.eq_iff (h : q.MakesFor id c functions input state e index node)
    (h' : q.MakesFor id c functions input state e' index' node') :
    node = node' ↔ e = e' ∧ index = index' := by
  constructor
  · rintro rfl
    obtain ⟨r, hr, -, he, hindex, hmakes⟩ := h.mem_evaluations hpost
    obtain ⟨r', hr', -, he', hindex', hmakes'⟩ := h'.mem_evaluations hpost
    obtain rfl := (c.ordered_evaluations functions _ _ _).eq_of_makes hr hr' hmakes hmakes'
    exact ⟨he.symm.trans he', hindex.symm.trans hindex'⟩
  · rintro ⟨rfl, rfl⟩
    obtain ⟨v, s, hv, hs, hget⟩ := h.get? hpost
    obtain ⟨v', s', hv', hs', hget'⟩ := h'.get? hpost
    obtain rfl := Option.some.inj (hv.symm.trans hv')
    obtain rfl := Option.some.inj (hs.symm.trans hs')
    exact Term.blank.inj (Option.some.inj (hget.symm.trans hget'))

end Made

/-- **Which positions share a made node.**  Two positions of a query hold expressions whose
evaluations behind the select part make blank nodes for a solution each.  As far as the query was
given no bindings of the variables that lifting introduces, each position is instantiated with the
node that is made for its expression, and these are the same node exactly if the expressions and the
solutions are the same. -/
theorem made_nodes_eq_iff (hpost : ∀ v ∈ q.introduced id, v ∉ q.postSelect.map (·.1))
    {place place' index index' : Nat} {p p' : Position} {e e' : Expression} {node node' : BlankNode}
    (hp : q.form.positions[place]? = some p) (he : p.embedded? = some e)
    (h : q.MakesFor id c functions input state e index node)
    (hp' : q.form.positions[place']? = some p') (he' : p'.embedded? = some e')
    (h' : q.MakesFor id c functions input state e' index' node') :
    q.InstantiatesAt id c leaf functions input state place index (.blank node) ∧
      q.InstantiatesAt id c leaf functions input state place' index' (.blank node') ∧
      (node = node' ↔ e = e' ∧ index = index') :=
  ⟨h.instantiatesAt hpost hp he, h'.instantiatesAt hpost hp' he', h.eq_iff hpost h'⟩

/-- A new blank node. -/
def newNode : Expression := .call (.builtin .bnode) []

/-- A query that makes nodes for three positions: by one expression for two of them, and by another
one for the third. -/
def sharing : Query :=
  { (default : Query) with
    form := .generate [.triples [
      ⟨.expression newNode, .iri ⟨"urn:p"⟩, .expression newNode⟩,
      ⟨.iri ⟨"urn:s"⟩, .iri ⟨"urn:p"⟩, .expression (.coalesce [newNode])⟩]] }

/-- One solution without bindings. -/
def oneSolution : Sequence := .ofLists [] [default]

theorem postSelect_normalized_sharing : (sharing.normalized 0).postSelect =
    [(⟨"__generate0"⟩, newNode), (⟨"__generate1"⟩, .coalesce [newNode])] := by
  decide +kernel

/-- The node that the query makes for two of its positions. -/
theorem makesFor_newNode :
    sharing.MakesFor 0 default .empty oneSolution (.start 1) newNode 0 (.fresh 0) := by
  unfold MakesFor
  rw [postSelect_normalized_sharing]
  exact ⟨_, List.mem_append_left _ List.mem_cons_self, by decide +kernel, rfl, rfl,
    by decide +kernel, ⟨0, by decide +kernel⟩⟩

/-- The node that it makes for the third one. -/
theorem makesFor_coalesce_newNode :
    sharing.MakesFor 0 default .empty oneSolution (.start 1) (.coalesce [newNode]) 0
      (.fresh 1) := by
  unfold MakesFor
  rw [postSelect_normalized_sharing]
  exact ⟨_, List.mem_append_right _ (List.mem_append_left _ List.mem_cons_self), by decide +kernel,
    rfl, rfl, by decide +kernel, ⟨1, by decide +kernel⟩⟩

theorem made_nodes_differ_for_other_expression :
    (∀ v ∈ sharing.introduced 0, v ∉ sharing.postSelect.map (·.1)) ∧
      sharing.InstantiatesAt 0 default default .empty oneSolution (.start 1) 2 0
        (.blank (.fresh 0)) ∧
      sharing.InstantiatesAt 0 default default .empty oneSolution (.start 1) 5 0
        (.blank (.fresh 1)) ∧
      BlankNode.fresh 0 ≠ .fresh 1 := by
  have hpost : ∀ v ∈ sharing.introduced 0, v ∉ sharing.postSelect.map (·.1) :=
    fun _ _ => List.not_mem_nil
  have hplace : sharing.form.positions[2]? = some (.expression newNode) := rfl
  have hplace' : sharing.form.positions[5]? = some (.expression (.coalesce [newNode])) := rfl
  obtain ⟨hfirst, hsecond, heq⟩ :=
    made_nodes_eq_iff hpost hplace rfl makesFor_newNode hplace' rfl makesFor_coalesce_newNode
  exact ⟨hpost, hfirst, hsecond, fun h => absurd (heq.mp h).1 (by decide +kernel)⟩

/-- Two positions that hold a call of `BNODE` each get the same node. -/
theorem equal_expressions_get_same_node :
    ∃ place place' p p' node, place ≠ place' ∧ sharing.form.positions[place]? = some p ∧
      p.embedded? = some newNode ∧ sharing.form.positions[place']? = some p' ∧
      p'.embedded? = some newNode ∧
      sharing.MakesFor 0 default .empty oneSolution (.start 1) newNode 0 node ∧
      sharing.InstantiatesAt 0 default default .empty oneSolution (.start 1) place 0 (.blank node) ∧
      sharing.InstantiatesAt 0 default default .empty oneSolution (.start 1) place' 0
        (.blank node) := by
  have hpost : ∀ v ∈ sharing.introduced 0, v ∉ sharing.postSelect.map (·.1) :=
    fun _ _ => List.not_mem_nil
  exact ⟨0, 2, .expression newNode, .expression newNode, .fresh 0, by decide, rfl, rfl, rfl, rfl,
    makesFor_newNode, makesFor_newNode.instantiatesAt hpost rfl rfl,
    makesFor_newNode.instantiatesAt hpost rfl rfl⟩

end Query

end TripleLoom
