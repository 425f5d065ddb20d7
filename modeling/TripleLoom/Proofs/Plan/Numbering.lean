import TripleLoom.Proofs.Generation.ListNumbers
import TripleLoom.Proofs.Query.Freshness

/-!
# TripleLoom.Proofs.Plan.Numbering — names and numbers across one numbering

Queries that are compiled one after the other with one numbering, each with the queries in it, never
share what is numbered: no lifted variable is introduced twice, by whichever of them, and no two
lists of their plans have the same number (`Plan.builds_apart`).  This holds where compiling fails
on the way, too, for the numbering counts on.
-/

namespace TripleLoom

/-! ### The queries that are compiled with a query -/

namespace Build

variable {α β γ : Type} {m : Build α} {n n' : Numbering}

/-- What is listed behind a step of compiling, with its value and the numbering after it; nothing if
the step fails. -/
def behind (m : Build α) (n : Numbering) (list : α → Numbering → List γ) : List γ :=
  match m n with
  | (.ok a, n') => list a n'
  | (.error _, _) => []

theorem behind_ok {a : α} (h : m n = (.ok a, n')) (list : α → Numbering → List γ) :
    m.behind n list = list a n' := by
  rw [behind, h]

theorem snd_bind_pure (m : Build α) (f : α → β) (n : Numbering) :
    ((m >>= fun a => pure (f a)) n).2 = (m n).2 := by
  rw [bind_eq]
  rcases m n with ⟨_ | a, n₁⟩ <;> rfl

end Build

mutual

/-- The queries that are compiled when a query is, each with the numbering it is compiled with: the
query itself and then those in its form, up to the first fault. -/
def Query.compiled (n : Numbering) : Query → List (Query × Numbering)
  | ⟨base, prefixes, name, signature, dataset, bindings, pattern, modifiers, form, postSelect⟩ =>
    let q : Query :=
      ⟨base, prefixes, name, signature, dataset, bindings, pattern, modifiers, form, postSelect⟩
    (q, n) :: (Build.lift q).behind n fun (l, _) n =>
      (checkSignature signature).behind n fun _ n => form.compiled l n

/-- The queries that are compiled when a form is. -/
def Form.compiled (l : Lifting) (n : Numbering) : Form → List (Query × Numbering)
  | .generate elements => Element.compiledAll l .empty n elements
  | .template _ elements _ _ => TemplateElement.compiledAll l n elements
  | .select .. => []

/-- The queries that are compiled when some elements are, behind some triples. -/
def Element.compiledAll (l : Lifting) (before : TriplesPlan) (n : Numbering) :
    List Element → List (Query × Numbering)
  | [] => []
  | .triples ts :: rest =>
    ((ts.map (·.lifted l)).foldlM TriplesPlan.add before).behind n fun p n =>
      Element.compiledAll l p n rest
  | .query q :: rest =>
    q.compiled n ++ q.compile.behind n fun _ n => Element.compiledAll l .empty n rest
  | .call c :: rest =>
    (CallPlan.ofCall (c.lifted l)).behind n fun _ n => Element.compiledAll l .empty n rest

/-- The queries that are compiled when some elements of a template are. -/
def TemplateElement.compiledAll (l : Lifting) (n : Numbering) :
    List TemplateElement → List (Query × Numbering)
  | [] => []
  | .text _ :: rest | .expression _ :: rest => TemplateElement.compiledAll l n rest
  | .query q :: rest =>
    q.compiled n ++ q.compile.behind n fun _ n => TemplateElement.compiledAll l n rest
  | .call c :: rest =>
    (CallPlan.ofCall (c.lifted l)).behind n fun _ n => TemplateElement.compiledAll l n rest

end

/-! ### The variables that they introduce -/

/-- The variables that lifting introduces in some queries, each with its numbering, in order. -/
def Query.introducedBy (queries : List (Query × Numbering)) : List Variable :=
  queries.flatMap fun (q, n) => q.introduced n.nextVariable

/-- Between two numberings, lifting some queries introduces a variable for each number that is
counted through, and no other ones. -/
structure Introduces (queries : List (Query × Numbering)) (n n' : Numbering) : Prop where
  le : n.nextVariable ≤ n'.nextVariable
  vars : Query.introducedBy queries =
    (List.range' n.nextVariable (n'.nextVariable - n.nextVariable)).map Lifting.freshVariable

namespace Introduces

variable {queries more : List (Query × Numbering)} {n n₁ n' : Numbering} {α β : Type}
  {m : Build α} {f : α → Build β} {list : α → Numbering → List (Query × Numbering)}

theorem nil (h : n'.nextVariable = n.nextVariable) : Introduces [] n n' :=
  ⟨h.ge, by rw [h, Nat.sub_self]; rfl⟩

theorem append (h : Introduces queries n n₁) (h' : Introduces more n₁ n') :
    Introduces (queries ++ more) n n' := by
  refine ⟨Nat.le_trans h.le h'.le, ?_⟩
  obtain ⟨i, hi⟩ := Nat.exists_eq_add_of_le h.le
  obtain ⟨j, hj⟩ := Nat.exists_eq_add_of_le h'.le
  have hvars : Query.introducedBy (queries ++ more) =
      Query.introducedBy queries ++ Query.introducedBy more := List.flatMap_append
  rw [hvars, h.vars, h'.vars, ← List.map_append, hj, hi, Nat.add_sub_cancel_left,
    Nat.add_sub_cancel_left, List.range'_append_1, Nat.add_assoc, Nat.add_sub_cancel_left]

/-- Two steps: what the second one introduces counts only if the first one does not fail. -/
theorem bind (hm : Introduces queries n (m n).2)
    (hf : ∀ a n', Introduces (list a n') n' (f a n').2) :
    Introduces (queries ++ m.behind n list) n ((m >>= f) n).2 := by
  rw [Build.bind_eq]
  unfold Build.behind
  rcases h : m n with ⟨_ | a, n₁⟩ <;> rw [h] at hm
  · exact hm.append (nil rfl)
  · exact hm.append (hf a n₁)

/-- A step that lifts nothing before another one. -/
theorem behind (hm : m.LiftsNothing) (hf : ∀ a n', Introduces (list a n') n' (f a n').2) :
    Introduces (m.behind n list) n ((m >>= f) n).2 :=
  (nil (hm n).1).bind hf

theorem lift (q : Query) (n : Numbering) : Introduces [(q, n)] n (Build.lift q n).2 := by
  have hnext : (Build.lift q n).2.nextVariable = (q.liftingFrom n.nextVariable).nextId := by
    rw [Build.lift_eq]
    rfl
  refine ⟨?_, ?_⟩
  · rw [hnext, q.nextId_liftingFrom]
    exact Nat.le_add_right _ _
  · rw [hnext, ← q.introduced_eq]
    exact List.flatMap_singleton _ _

theorem nodup (h : Introduces queries n n') : (Query.introducedBy queries).Nodup := by
  rw [h.vars]
  exact List.Nodup.map (fun _ _ heq => Lifting.freshVariable_injective heq) List.nodup_range'

end Introduces

mutual

/-- Compiling a query introduces the variables of the queries that are compiled with it, also if it
fails. -/
theorem Query.introduces_compile : ∀ (q : Query) (n : Numbering),
    Introduces (q.compiled n) n (q.compile n).2
  | ⟨base, prefixes, name, signature, dataset, bindings, pattern, modifiers, form, postSelect⟩,
      n => by
    unfold Query.compiled Query.compile
    refine Introduces.bind (.lift _ n) fun (l, lifted) n₁ => ?_
    refine .behind (.checkSignature signature) fun _ n₂ => ?_
    rw [Build.snd_bind_pure]
    exact form.introduces_compile l n₂

theorem Form.introduces_compile (l : Lifting) : ∀ (form : Form) (n : Numbering),
    Introduces (form.compiled l n) n (form.compile l n).2
  | .generate elements, n => by
    unfold Form.compiled Form.compile
    rw [Build.snd_bind_pure]
    exact Element.introduces_compileAll l elements .empty n
  | .template before elements separator after, n => by
    unfold Form.compiled Form.compile
    rw [Build.snd_bind_pure]
    exact TemplateElement.introduces_compileAll l elements n
  | .select .., n => by
    unfold Form.compiled Form.compile
    exact .nil rfl

theorem Element.introduces_compileAll (l : Lifting) :
    ∀ (elements : List Element) (before : TriplesPlan) (n : Numbering),
      Introduces (Element.compiledAll l before n elements) n
        (Element.compileAll l before elements n).2
  | [], before, n => by
    unfold Element.compiledAll Element.compileAll
    exact .nil rfl
  | .triples ts :: rest, before, n => by
    unfold Element.compiledAll Element.compileAll
    exact .behind (.addAll _ before) fun p n₁ => Element.introduces_compileAll l rest p n₁
  | .query q :: rest, before, n => by
    unfold Element.compiledAll Element.compileAll
    refine (q.introduces_compile n).bind fun plan n₁ => ?_
    rw [Build.snd_bind_pure]
    exact Element.introduces_compileAll l rest .empty n₁
  | .call c :: rest, before, n => by
    unfold Element.compiledAll Element.compileAll
    refine .behind (.ofCall _) fun call n₁ => ?_
    rw [Build.snd_bind_pure]
    exact Element.introduces_compileAll l rest .empty n₁

theorem TemplateElement.introduces_compileAll (l : Lifting) :
    ∀ (elements : List TemplateElement) (n : Numbering),
      Introduces (TemplateElement.compiledAll l n elements) n
        (TemplateElement.compileAll l elements n).2
  | [], n => by
    unfold TemplateElement.compiledAll TemplateElement.compileAll
    exact .nil rfl
  | .text s :: rest, n => by
    unfold TemplateElement.compiledAll TemplateElement.compileAll
    rw [Build.snd_bind_pure]
    exact TemplateElement.introduces_compileAll l rest n
  | .expression e :: rest, n => by
    unfold TemplateElement.compiledAll TemplateElement.compileAll
    rw [Build.snd_bind_pure]
    exact TemplateElement.introduces_compileAll l rest n
  | .query q :: rest, n => by
    unfold TemplateElement.compiledAll TemplateElement.compileAll
    refine (q.introduces_compile n).bind fun plan n₁ => ?_
    rw [Build.snd_bind_pure]
    exact TemplateElement.introduces_compileAll l rest n₁
  | .call c :: rest, n => by
    unfold TemplateElement.compiledAll TemplateElement.compileAll
    refine .behind (.ofCall _) fun call n₁ => ?_
    rw [Build.snd_bind_pure]
    exact TemplateElement.introduces_compileAll l rest n₁

end

/-! ### The plans in a plan -/

mutual

/-- A plan and then all plans in it. -/
def Plan.plans : Plan → List Plan
  | ⟨name, signature, base, prefixes, bindings, select, postSelect, output⟩ =>
    ⟨name, signature, base, prefixes, bindings, select, postSelect, output⟩ :: output.plans

/-- The plans in an output. -/
def OutputPlan.plans : OutputPlan → List Plan
  | .generate nodes => PlanNode.plansAll nodes
  | .template node => node.plans
  | .rows _ => []

/-- The plans in a node. -/
def PlanNode.plans : PlanNode → List Plan
  | .plan p => p.plans
  | .template t => t.plans
  | .clause _ | .select _ | .triples _ | .call _ => []

/-- The plans in some nodes. -/
def PlanNode.plansAll : List PlanNode → List Plan
  | [] => []
  | node :: rest => node.plans ++ PlanNode.plansAll rest

/-- The plans in a template. -/
def TemplatePlan.plans : TemplatePlan → List Plan
  | ⟨_, parts, _, _⟩ => TemplatePart.plansAll parts

/-- The plans in some parts of a template. -/
def TemplatePart.plansAll : List TemplatePart → List Plan
  | [] => []
  | .plan p :: rest => p.plans ++ TemplatePart.plansAll rest
  | .expression _ :: rest | .call _ :: rest => TemplatePart.plansAll rest

end

theorem Plan.plans_eq (p : Plan) : p.plans = p :: p.output.plans := by
  cases p
  unfold plans
  rfl

/-- The numbers of the lists in some plans. -/
def Plan.listIdsAll (plans : List Plan) : List Nat := plans.flatMap Plan.listIds

theorem PlanNode.plansAll_append (nodes nodes' : List PlanNode) :
    plansAll (nodes ++ nodes') = plansAll nodes ++ plansAll nodes' := by
  induction nodes with
  | nil => rfl
  | cons node rest ih =>
    rw [List.cons_append, plansAll, plansAll, ih, List.append_assoc]

theorem TriplesPlan.plansAll_nodes (p : TriplesPlan) : PlanNode.plansAll p.nodes = [] := by
  unfold nodes
  split <;> rfl

/-! ### The numbers of their lists -/

/-- Different numbers, from one number on and below another one. -/
structure Between (low high : Nat) (ids : List Nat) : Prop where
  le : low ≤ high
  nodup : ids.Nodup
  bounds : ∀ id ∈ ids, low ≤ id ∧ id < high

namespace Between

variable {low mid high : Nat} {ids ids' : List Nat}

theorem nil (h : low ≤ high) : Between low high [] := ⟨h, .nil, fun _ hm => nomatch hm⟩

theorem append (h : Between low mid ids) (h' : Between mid high ids') :
    Between low high (ids ++ ids') := by
  refine ⟨Nat.le_trans h.le h'.le, List.nodup_append.mpr ⟨h.nodup, h'.nodup, ?_⟩, fun k hk => ?_⟩
  · rintro k hk k' hk' rfl
    exact Nat.lt_irrefl _ (Nat.lt_of_lt_of_le (h.bounds k hk).2 (h'.bounds k hk').1)
  · rcases List.mem_append.mp hk with hk | hk
    · exact ⟨(h.bounds k hk).1, Nat.lt_of_lt_of_le (h.bounds k hk).2 h'.le⟩
    · exact ⟨Nat.le_trans h.le (h'.bounds k hk).1, (h'.bounds k hk).2⟩

theorem perm (h : Between low high ids) (hp : ids.Perm ids') : Between low high ids' :=
  ⟨h.le, hp.nodup h.nodup, fun k hk => h.bounds k (hp.mem_iff.mpr hk)⟩

theorem of_increases (h : Increases low high ids) (hle : low ≤ high) : Between low high ids :=
  ⟨hle, h.pairwise.imp Nat.ne_of_lt, h.bounds⟩

theorem mono {low' high' : Nat} (h : Between low high ids) (hlow : low' ≤ low)
    (hhigh : high ≤ high') : Between low' high' ids := by
  have := h.le
  refine ⟨by omega, h.nodup, fun k hk => ?_⟩
  have := h.bounds k hk
  omega

end Between

/-- The bindings behind the select part of a query that is compiled with a numbering. -/
def Query.boundBehind (q : Query) (n : Numbering) : List PlanNode :=
  (q.normalized n.nextVariable).postSelect.map fun (v, e) => .clause (.bind e v)

/-- The numbers of the lists in an output, those of plans in it apart. -/
def OutputPlan.listIds : OutputPlan → List Nat
  | .generate nodes => PlanNode.listIds nodes
  | .template _ | .rows _ => []

theorem Plan.listIds_eq (p : Plan) : p.listIds = p.output.listIds := by
  obtain ⟨_, _, _, _, _, _, _, output⟩ := p
  cases output <;> rfl

/-- Some lists of a plan and the plans in it, made of some queries: no two lists of any of them have
the same number, and the plans are those of the queries, in the same order. -/
structure Numbered (low high : Nat) (own : List Nat) (plans : List Plan)
    (queries : List (Query × Numbering)) : Prop where
  ids : Between low high (own ++ Plan.listIdsAll plans)
  bound : plans.map (·.postSelect) = queries.map fun (q, n) => q.boundBehind n

namespace Numbered

variable {low mid high : Nat} {own own' : List Nat} {plans plans' : List Plan}
  {queries queries' : List (Query × Numbering)}

theorem of_between (h : Between low high own) : Numbered low high own [] [] :=
  ⟨by rwa [Plan.listIdsAll, List.flatMap_nil, List.append_nil], rfl⟩

theorem append (h : Numbered low mid own plans queries)
    (h' : Numbered mid high own' plans' queries') :
    Numbered low high (own ++ own') (plans ++ plans') (queries ++ queries') := by
  refine ⟨(h.ids.append h'.ids).perm ?_, ?_⟩
  · rw [Plan.listIdsAll, Plan.listIdsAll, Plan.listIdsAll, List.flatMap_append, List.append_assoc,
      List.append_assoc]
    exact (List.perm_append_comm_assoc _ _ _).append_left own
  · rw [List.map_append, List.map_append, h.bound, h'.bound]

end Numbered

theorem Query.compiled_eq (q : Query) (n : Numbering) : q.compiled n =
    (q, n) :: (Build.lift q).behind n fun (l, _) n =>
      (checkSignature q.signature).behind n fun _ n => q.form.compiled l n := by
  cases q
  unfold compiled
  rfl

/-- What it takes to compile a query. -/
theorem Query.compile_ok {q : Query} {n n' : Numbering} {p : Plan} (h : q.compile n = (.ok p, n')) :
    ∃ l n₁ n₂, Build.lift q n = (.ok (l, q.normalized n.nextVariable), n₁) ∧
      checkSignature q.signature n₁ = (.ok (), n₂) ∧ q.form.compile l n₂ = (.ok p.output, n') ∧
      p.postSelect = q.boundBehind n ∧
      p.select = (q.normalized n.nextVariable).selectPart.map .select := by
  cases q
  unfold compile at h
  obtain ⟨⟨l, lifted⟩, n₁, hlift, h⟩ := Build.bind_ok h
  obtain ⟨⟨⟩, n₂, hcheck, h⟩ := Build.bind_ok h
  obtain ⟨output, n₃, hform, h⟩ := Build.bind_ok h
  cases h
  rw [Build.lift_eq] at hlift
  cases hlift
  exact ⟨_, _, n₂, Build.lift_eq _ _, hcheck, hform, rfl, rfl⟩

/-- A query whose form is numbered well is so itself. -/
theorem Query.numbered_of_form {q : Query}
    (hinner : ∀ {l : Lifting} {n n' : Numbering} {output : OutputPlan},
      q.form.compile l n = (.ok output, n') →
      Numbered n.nextList n'.nextList output.listIds output.plans (q.form.compiled l n))
    {n n' : Numbering} {p : Plan} (h : q.compile n = (.ok p, n')) :
    Numbered n.nextList n'.nextList [] p.plans (q.compiled n) := by
  obtain ⟨l, n₁, n₂, hlift, hcheck, hform, hpost, -⟩ := Query.compile_ok h
  have hcount : n.nextList ≤ n₂.nextList := by
    have hfirst := Build.CountsOn.lift q n
    have hsecond := (Build.LiftsNothing.checkSignature q.signature).countsOn n₁
    rw [hlift] at hfirst
    rw [hcheck] at hsecond
    exact Nat.le_trans hfirst hsecond
  have hcompiled : q.compiled n = (q, n) :: q.form.compiled l n₂ := by
    rw [q.compiled_eq, Build.behind_ok hlift]
    exact congrArg ((q, n) :: ·) (Build.behind_ok hcheck _)
  rw [hcompiled, p.plans_eq]
  refine ⟨?_, ?_⟩
  · rw [List.nil_append, Plan.listIdsAll, List.flatMap_cons, p.listIds_eq]
    exact (hinner hform).ids.mono hcount (Nat.le_refl _)
  · rw [List.map_cons, List.map_cons, (hinner hform).bound, hpost]

mutual

/-- The plans of a query that is compiled have lists with different numbers, and the bindings of the
queries that were compiled with it. -/
theorem Query.numbered_compile : ∀ {q : Query} {n n' : Numbering} {p : Plan},
    q.compile n = (.ok p, n') → Numbered n.nextList n'.nextList [] p.plans (q.compiled n)
  | ⟨_, _, _, _, _, _, _, _, form, _⟩, _, _, _, h =>
    have hinner : ∀ {l : Lifting} {n n' : Numbering} {output : OutputPlan},
        form.compile l n = (.ok output, n') →
        Numbered n.nextList n'.nextList output.listIds output.plans (form.compiled l n) :=
      fun h => Form.numbered_compile h
    Query.numbered_of_form hinner h

theorem Form.numbered_compile {l : Lifting} : ∀ {form : Form} {n n' : Numbering}
    {output : OutputPlan}, form.compile l n = (.ok output, n') →
    Numbered n.nextList n'.nextList output.listIds output.plans (form.compiled l n)
  | .generate elements, n, n', output, h => by
    unfold Form.compile at h
    obtain ⟨nodes, n₁, hnodes, h⟩ := Build.bind_ok h
    cases h
    unfold Form.compiled
    exact Element.numbered_compileAll hnodes .nil (Nat.le_refl _)
  | .template before elements separator after, n, n', output, h => by
    unfold Form.compile at h
    obtain ⟨parts, n₁, hparts, h⟩ := Build.bind_ok h
    cases h
    unfold Form.compiled
    exact TemplateElement.numbered_compileAll hparts
  | .select .., n, n', output, h => by
    unfold Form.compile at h
    cases h
    unfold Form.compiled
    exact .of_between (.nil (Nat.le_refl _))

theorem Element.numbered_compileAll {l : Lifting} {low : Nat} {n' : Numbering} :
    ∀ {elements : List Element} {before : TriplesPlan} {n : Numbering} {nodes : List PlanNode},
      Element.compileAll l before elements n = (.ok nodes, n') →
      Increases low n.nextList before.listIds → low ≤ n.nextList →
      Numbered low n'.nextList (PlanNode.listIds nodes) (PlanNode.plansAll nodes)
        (Element.compiledAll l before n elements)
  | [], before, n, nodes, h, hbefore, hlow => by
    unfold Element.compileAll at h
    cases h
    unfold Element.compiledAll
    rw [before.listIds_nodes, before.plansAll_nodes]
    exact .of_between (.of_increases hbefore hlow)
  | .triples ts :: rest, before, n, nodes, h, hbefore, hlow => by
    unfold Element.compileAll at h
    obtain ⟨p, n₁, hadd, h⟩ := Build.bind_ok h
    have hcount := (Build.LiftsNothing.addAll (ts.map (·.lifted l)) before).countsOn n
    rw [hadd] at hcount
    unfold Element.compiledAll
    rw [Build.behind_ok hadd]
    exact Element.numbered_compileAll h (TriplesPlan.increases_addAll hadd hbefore hlow)
      (Nat.le_trans hlow hcount)
  | .query q :: rest, before, n, nodes, h, hbefore, hlow => by
    unfold Element.compileAll at h
    obtain ⟨plan, n₁, hplan, h⟩ := Build.bind_ok h
    obtain ⟨more, n₂, hmore, h⟩ := Build.bind_ok h
    cases h
    unfold Element.compiledAll
    rw [Build.behind_ok hplan, PlanNode.listIds_append, before.listIds_nodes,
      PlanNode.plansAll_append, before.plansAll_nodes]
    have hown := Numbered.of_between (.of_increases hbefore hlow)
    exact hown.append ((Query.numbered_compile hplan).append
      (Element.numbered_compileAll hmore .nil (Nat.le_refl _)))
  | .call c :: rest, before, n, nodes, h, hbefore, hlow => by
    unfold Element.compileAll at h
    obtain ⟨call, n₁, hcall, h⟩ := Build.bind_ok h
    obtain ⟨more, n₂, hmore, h⟩ := Build.bind_ok h
    cases h
    have hcount := (Build.LiftsNothing.ofCall (c.lifted l)).countsOn n
    rw [hcall] at hcount
    unfold Element.compiledAll
    rw [Build.behind_ok hcall, PlanNode.listIds_append, before.listIds_nodes,
      PlanNode.plansAll_append, before.plansAll_nodes]
    have hown := Numbered.of_between
      ((Between.of_increases hbefore hlow).mono (Nat.le_refl _) hcount)
    have hrest : Numbered n₁.nextList n'.nextList (PlanNode.listIds more) (PlanNode.plansAll more)
        (Element.compiledAll l .empty n₁ rest) :=
      Element.numbered_compileAll hmore .nil (Nat.le_refl _)
    exact hown.append hrest

theorem TemplateElement.numbered_compileAll {l : Lifting} {n' : Numbering} :
    ∀ {elements : List TemplateElement} {n : Numbering} {parts : List TemplatePart},
      TemplateElement.compileAll l elements n = (.ok parts, n') →
      Numbered n.nextList n'.nextList [] (TemplatePart.plansAll parts)
        (TemplateElement.compiledAll l n elements)
  | [], n, parts, h => by
    unfold TemplateElement.compileAll at h
    cases h
    unfold TemplateElement.compiledAll
    exact .of_between (.nil (Nat.le_refl _))
  | .text s :: rest, n, parts, h => by
    unfold TemplateElement.compileAll at h
    obtain ⟨more, n₁, hmore, h⟩ := Build.bind_ok h
    cases h
    unfold TemplateElement.compiledAll
    rw [TemplatePart.plansAll]
    exact TemplateElement.numbered_compileAll hmore
  | .expression e :: rest, n, parts, h => by
    unfold TemplateElement.compileAll at h
    obtain ⟨more, n₁, hmore, h⟩ := Build.bind_ok h
    cases h
    unfold TemplateElement.compiledAll
    rw [TemplatePart.plansAll]
    exact TemplateElement.numbered_compileAll hmore
  | .query q :: rest, n, parts, h => by
    unfold TemplateElement.compileAll at h
    obtain ⟨plan, n₁, hplan, h⟩ := Build.bind_ok h
    obtain ⟨more, n₂, hmore, h⟩ := Build.bind_ok h
    cases h
    unfold TemplateElement.compiledAll
    rw [Build.behind_ok hplan]
    exact (Query.numbered_compile hplan).append (TemplateElement.numbered_compileAll hmore)
  | .call c :: rest, n, parts, h => by
    unfold TemplateElement.compileAll at h
    obtain ⟨call, n₁, hcall, h⟩ := Build.bind_ok h
    obtain ⟨more, n₂, hmore, h⟩ := Build.bind_ok h
    cases h
    have hcount := (Build.LiftsNothing.ofCall (c.lifted l)).countsOn n
    rw [hcall] at hcount
    unfold TemplateElement.compiledAll
    rw [Build.behind_ok hcall]
    have hrest := TemplateElement.numbered_compileAll hmore
    exact ⟨hrest.ids.mono hcount (Nat.le_refl _), hrest.bound⟩

end

/-- In a compiled plan no two lists have the same number. -/
theorem Plan.nodup_listIds {q : Query} {n : Numbering} {p : Plan}
    (h : (Plan.build q n).1 = .ok p) : p.listIds.Nodup := by
  rcases hbuild : Plan.build q n with ⟨built, n'⟩
  rw [hbuild] at h
  subst h
  have hall := (Query.numbered_compile hbuild).ids.nodup
  rw [List.nil_append, p.plans_eq, Plan.listIdsAll, List.flatMap_cons] at hall
  exact hall.of_append_left

/-! ### Queries one after the other -/

theorem exists_of_isOk {ε α : Type} {x : Except ε α} (h : x.isOk = true) : ∃ a, x = .ok a := by
  cases x with
  | error e => cases h
  | ok a => exact ⟨a, rfl⟩

namespace Plan

/-- Some queries that are compiled one after the other, each with the numbering that those before it
left. -/
def builds (n : Numbering) : List Query → List (Query × Numbering)
  | [] => []
  | q :: rest => (q, n) :: builds (build q n).2 rest

/-- The numbering after some queries. -/
def numberingAfter (n : Numbering) (queries : List Query) : Numbering :=
  queries.foldl (fun n q => (build q n).2) n

/-- The queries that are compiled in some builds, those inside others and those of builds that fail
included. -/
def compiledIn (builds : List (Query × Numbering)) : List (Query × Numbering) :=
  builds.flatMap fun (q, n) => q.compiled n

/-- The plans that some builds return, with all plans in them. A build that fails returns none. -/
def returned (builds : List (Query × Numbering)) : List Plan :=
  builds.flatMap fun (q, n) => (build q n).1.toOption.toList.flatMap Plan.plans

theorem introduces_builds : ∀ (queries : List Query) (n : Numbering),
    Introduces (compiledIn (builds n queries)) n (numberingAfter n queries)
  | [], _ => .nil rfl
  | q :: rest, n => (q.introduces_compile n).append (introduces_builds rest (build q n).2)

theorem between_build (q : Query) (n : Numbering) :
    Between n.nextList (build q n).2.nextList
      (listIdsAll ((build q n).1.toOption.toList.flatMap Plan.plans)) := by
  have hcount : n.nextList ≤ (build q n).2.nextList := Build.CountsOn.compile q n
  rcases h : build q n with ⟨_ | p, n'⟩
  · rw [h] at hcount
    exact .nil hcount
  · have hlists : Between n.nextList n'.nextList ([] ++ listIdsAll p.plans) :=
      (Query.numbered_compile h).ids
    have hplans : (Except.ok p : Except PlanError Plan).toOption.toList.flatMap Plan.plans =
        p.plans := List.flatMap_singleton _ _
    rw [hplans]
    exact hlists

theorem between_builds : ∀ (queries : List Query) (n : Numbering),
    Between n.nextList (numberingAfter n queries).nextList
      (listIdsAll (returned (builds n queries)))
  | [], _ => .nil (Nat.le_refl _)
  | q :: rest, n => by
    have hall : listIdsAll (returned (builds n (q :: rest))) =
        listIdsAll ((build q n).1.toOption.toList.flatMap Plan.plans) ++
          listIdsAll (returned (builds (build q n).2 rest)) := List.flatMap_append
    rw [hall]
    exact (between_build q n).append (between_builds rest (build q n).2)

/-- **Nothing is numbered twice.**  Let queries be compiled one after the other with one numbering,
whether they fail or not.  All lists in the plans that come of them have different numbers.  All
variables that lifting introduces in them and in the queries inside them are different, and are just
those with the numbers that are counted through, so none is left out here.  And the plan that comes
of a query has, with the plans in it, one plan for each of the queries that were compiled with it,
in the same order, which binds what the lifted query binds behind its select part. -/
theorem builds_apart (queries : List Query) (n : Numbering) :
    (listIdsAll (returned (builds n queries))).Nodup ∧
    (Query.introducedBy (compiledIn (builds n queries))).Nodup ∧
    Query.introducedBy (compiledIn (builds n queries)) =
      (List.range' n.nextVariable ((numberingAfter n queries).nextVariable - n.nextVariable)).map
        Lifting.freshVariable ∧
    ∀ b ∈ builds n queries, ∀ p, (build b.1 b.2).1 = .ok p →
      p.plans.map (·.postSelect) = (b.1.compiled b.2).map fun (q, n) => q.boundBehind n := by
  refine ⟨(between_builds queries n).nodup, (introduces_builds queries n).nodup,
    (introduces_builds queries n).vars, fun b _ p hp => ?_⟩
  rcases h : build b.1 b.2 with ⟨built, n'⟩
  rw [h] at hp
  cases hp
  exact (Query.numbered_compile h).bound

/-- A query with a list and an expression to lift, inside another one that has a list and an
expression of its own. -/
def nesting (object : Position) : Query :=
  let inner : Query := { (default : Query) with
    form := .generate [.triples [
      ⟨.iri ⟨"urn:s"⟩, .iri ⟨"urn:p"⟩, .list (.expression (Query.textOf "urn:inner"))⟩]] }
  { (default : Query) with
    form := .generate [.triples [
        ⟨.iri ⟨"urn:s"⟩, .iri ⟨"urn:p"⟩, .list (.expression (Query.textOf "urn:outer"))⟩],
      .query inner, .triples [⟨.iri ⟨"urn:s"⟩, .iri ⟨"urn:p"⟩, object⟩]] }

/-- Such a query that fails behind the inner one, and then one that does not: the second one has
lists and variables with numbers behind those of the first. -/
theorem builds_apart_behind_failure :
    let queries := [nesting (.list (.list (.var ⟨"x"⟩))), nesting (.var ⟨"x"⟩)]
    (build (nesting (.list (.list (.var ⟨"x"⟩)))) .start).1.isOk = false ∧
      listIdsAll (returned (builds .start queries)) = [2, 3] ∧
      (listIdsAll (returned (builds .start queries))).Nodup ∧
      Query.introducedBy (compiledIn (builds .start queries)) =
        [⟨"__generate0"⟩, ⟨"__generate1"⟩, ⟨"__generate2"⟩, ⟨"__generate3"⟩] ∧
      (Query.introducedBy (compiledIn (builds .start queries))).Nodup ∧
      ∃ p, (build (nesting (.var ⟨"x"⟩)) ⟨2, 2⟩).1 = .ok p ∧ p.plans.map (·.postSelect) =
        ((nesting (.var ⟨"x"⟩)).compiled ⟨2, 2⟩).map fun (q, n) => q.boundBehind n := by
  intro queries
  have hbehind : (build (nesting (.list (.list (.var ⟨"x"⟩)))) .start).2 = ⟨2, 2⟩ := by
    decide +kernel
  have hmem : (nesting (.var ⟨"x"⟩), ⟨2, 2⟩) ∈ builds .start queries :=
    List.mem_cons_of_mem _ (hbehind ▸ List.mem_cons_self)
  obtain ⟨hids, hvars, -, hbound⟩ := builds_apart queries .start
  refine ⟨by decide +kernel, by decide +kernel, hids, by decide +kernel, hvars, ?_⟩
  have hok : (build (nesting (.var ⟨"x"⟩)) ⟨2, 2⟩).1.isOk = true := by decide +kernel
  obtain ⟨p, hp⟩ := exists_of_isOk hok
  exact ⟨p, hp, hbound _ hmem p hp⟩

end Plan

end TripleLoom
