import TripleLoom.Proofs.Generation.Executions
import TripleLoom.Proofs.Plan.Steps
import TripleLoom.Proofs.Query.Passes

/-!
# TripleLoom.Proofs.Generation.ListNumbers — the numbers of the lists in a plan

Compiling a query numbers its lists one after the other, and the lists of the queries inside it with
the same count.  So the count never goes back (`Build.CountsOn`), the steps that lift nothing leave
the count of the lifted variables as it is (`Build.LiftsNothing`), and the numbers of the lists in
consecutive triples increase (`TriplesPlan.increases_addAll`).
-/

namespace TripleLoom

/-! ### Counting on -/

namespace Build

/-- A step of compiling after which the next list has no smaller number. -/
def CountsOn {α : Type} (m : Build α) : Prop := ∀ n : Numbering, n.nextList ≤ (m n).2.nextList

/-- A step of compiling that numbers lists at most, and lifts nothing. -/
def LiftsNothing {α : Type} (m : Build α) : Prop :=
  ∀ n : Numbering, (m n).2.nextVariable = n.nextVariable ∧ n.nextList ≤ (m n).2.nextList

variable {α β : Type} {m : Build α} {f : α → Build β}

namespace LiftsNothing

theorem pure (a : α) : LiftsNothing (Pure.pure a : Build α) := fun _ => ⟨rfl, Nat.le_refl _⟩

theorem throw (e : PlanError) : LiftsNothing (MonadExcept.throw e : Build α) :=
  fun _ => ⟨rfl, Nat.le_refl _⟩

theorem bind (hm : LiftsNothing m) (hf : ∀ a, LiftsNothing (f a)) : LiftsNothing (m >>= f) := by
  intro n
  rw [bind_eq]
  have hfirst := hm n
  rcases h : m n with ⟨_ | a, n₁⟩ <;> rw [h] at hfirst
  · exact hfirst
  · exact ⟨(hf a n₁).1.trans hfirst.1, Nat.le_trans hfirst.2 (hf a n₁).2⟩

theorem ofPosition (p : Position) : LiftsNothing (TemplateTerm.ofPosition p) := by
  cases p <;> exact fun _ => ⟨rfl, Nat.le_refl _⟩

theorem ofCall (c : NamedCall) : LiftsNothing (CallPlan.ofCall c) := by
  unfold CallPlan.ofCall
  split <;> exact fun _ => ⟨rfl, Nat.le_refl _⟩

theorem listNumber : LiftsNothing Build.listNumber := fun n => ⟨rfl, Nat.le_succ n.nextList⟩

theorem add (p : TriplesPlan) (t : GenerateTriple) : LiftsNothing (p.add t) := by
  refine .bind (.ofPosition _) fun subject => .bind (.ofPosition _) fun predicate => ?_
  split
  · exact .throw _
  · exact .bind (.ofPosition _) fun _ => .bind listNumber fun _ => .pure _
  · exact .bind (.ofPosition _) fun _ => .pure _

theorem addAll : ∀ (ts : List GenerateTriple) (p : TriplesPlan),
    LiftsNothing (ts.foldlM TriplesPlan.add p)
  | [], p => .pure p
  | t :: ts, p => by
    rw [List.foldlM_cons]
    exact .bind (.add p t) fun q => addAll ts q

theorem checkSignature (signature : Option (List Variable)) :
    LiftsNothing (TripleLoom.checkSignature signature) := by
  unfold TripleLoom.checkSignature
  split <;> exact fun _ => ⟨rfl, Nat.le_refl _⟩

theorem countsOn (h : LiftsNothing m) : CountsOn m := fun n => (h n).2

end LiftsNothing

namespace CountsOn

theorem pure (a : α) : CountsOn (Pure.pure a : Build α) := fun _ => Nat.le_refl _

theorem bind (hm : CountsOn m) (hf : ∀ a, CountsOn (f a)) : CountsOn (m >>= f) := by
  intro n
  rw [bind_eq]
  have hfirst := hm n
  rcases h : m n with ⟨_ | a, n₁⟩ <;> rw [h] at hfirst
  · exact hfirst
  · exact Nat.le_trans hfirst (hf a n₁)

theorem lift (q : Query) : CountsOn (Build.lift q) := fun n => by
  rw [Build.lift_eq]

mutual

theorem compile : ∀ q : Query, CountsOn q.compile
  | ⟨_, _, _, signature, _, _, _, _, form, _⟩ => by
    unfold Query.compile
    exact .bind (.lift _) fun (l, _) => .bind (LiftsNothing.checkSignature _).countsOn fun _ =>
      .bind (compileForm l form) fun _ => .pure _

theorem compileForm (l : Lifting) : ∀ form : Form, CountsOn (form.compile l)
  | .generate elements => by
    unfold Form.compile
    exact .bind (compileElements l .empty elements) fun _ => .pure _
  | .template before elements separator after => by
    unfold Form.compile
    exact .bind (compileTemplate l elements) fun _ => .pure _
  | .select .. => by
    unfold Form.compile
    exact .pure _

theorem compileElements (l : Lifting) : ∀ (before : TriplesPlan) (elements : List Element),
    CountsOn (Element.compileAll l before elements)
  | before, [] => by
    unfold Element.compileAll
    exact .pure _
  | before, .triples ts :: rest => by
    unfold Element.compileAll
    exact .bind (LiftsNothing.addAll _ before).countsOn fun p => compileElements l p rest
  | before, .query q :: rest => by
    unfold Element.compileAll
    exact .bind (compile q) fun _ => .bind (compileElements l .empty rest) fun _ => .pure _
  | before, .call c :: rest => by
    unfold Element.compileAll
    exact .bind (LiftsNothing.ofCall _).countsOn fun _ =>
      .bind (compileElements l .empty rest) fun _ => .pure _

theorem compileTemplate (l : Lifting) : ∀ elements : List TemplateElement,
    CountsOn (TemplateElement.compileAll l elements)
  | [] => by
    unfold TemplateElement.compileAll
    exact .pure _
  | .text s :: rest => by
    unfold TemplateElement.compileAll
    exact .bind (compileTemplate l rest) fun _ => .pure _
  | .expression e :: rest => by
    unfold TemplateElement.compileAll
    exact .bind (compileTemplate l rest) fun _ => .pure _
  | .query q :: rest => by
    unfold TemplateElement.compileAll
    exact .bind (compile q) fun _ => .bind (compileTemplate l rest) fun _ => .pure _
  | .call c :: rest => by
    unfold TemplateElement.compileAll
    exact .bind (LiftsNothing.ofCall _).countsOn fun _ =>
      .bind (compileTemplate l rest) fun _ => .pure _

end

end CountsOn

end Build

/-! ### Numbers that increase -/

/-- The numbers of the lists in an element of triples. -/
def TriplesPlan.listIds (p : TriplesPlan) : List Nat := p.lists.map (·.id)

/-- The numbers of the lists in some elements, those of queries inside them apart. -/
def PlanNode.listIds (nodes : List PlanNode) : List Nat :=
  (nodes.filterMap PlanNode.triples?).flatMap TriplesPlan.listIds

/-- The numbers of the lists that a plan generates. -/
def Plan.listIds (p : Plan) : List Nat := PlanNode.listIds p.elements

/-- Numbers that increase, from one number on and below another one. -/
structure Increases (low high : Nat) (ids : List Nat) : Prop where
  pairwise : ids.Pairwise (· < ·)
  bounds : ∀ id ∈ ids, low ≤ id ∧ id < high

namespace Increases

variable {low mid mid' high : Nat} {ids ids' : List Nat}

theorem nil : Increases low high [] := ⟨.nil, fun _ h => nomatch h⟩

theorem append (h : Increases low mid ids) (h' : Increases mid' high ids') (hm : mid ≤ mid')
    (hlow : low ≤ mid') (hhigh : mid ≤ high) : Increases low high (ids ++ ids') := by
  refine ⟨List.pairwise_append.mpr ⟨h.pairwise, h'.pairwise, fun a ha b hb => ?_⟩, fun id hid => ?_⟩
  · have := (h.bounds a ha).2
    have := (h'.bounds b hb).1
    omega
  · rcases List.mem_append.mp hid with hid | hid
    · have := h.bounds id hid
      omega
    · have := h'.bounds id hid
      omega

end Increases

namespace TriplesPlan

variable {low : Nat} {p p' : TriplesPlan} {n n' : Numbering}

theorem increases_add {t : GenerateTriple} (h : p.add t n = (.ok p', n'))
    (hp : Increases low n.nextList p.listIds) (hlow : low ≤ n.nextList) :
    Increases low n'.nextList p'.listIds := by
  rcases add_ok h with ⟨template, -, rfl, rfl⟩ | ⟨template, -, hid, rfl, rfl⟩
  · exact hp
  · have hnumber : Increases n.nextList (n.nextList + 1) [template.id] := by
      refine ⟨List.pairwise_singleton _ _, fun id hmem => ?_⟩
      rw [List.mem_singleton.mp hmem, hid]
      exact ⟨Nat.le_refl _, Nat.lt_succ_self _⟩
    rw [listIds, List.map_append]
    exact hp.append hnumber (Nat.le_refl _) hlow (Nat.le_succ _)

theorem increases_addAll : ∀ {ts : List GenerateTriple} {p : TriplesPlan} {n : Numbering},
    ts.foldlM TriplesPlan.add p n = (.ok p', n') → Increases low n.nextList p.listIds →
    low ≤ n.nextList → Increases low n'.nextList p'.listIds
  | [], p, n, h, hp, _ => by
    cases h
    exact hp
  | t :: ts, p, n, h, hp, hlow => by
    rw [List.foldlM_cons] at h
    obtain ⟨q, n₁, hadd, h⟩ := Build.bind_ok h
    have hcount := (Build.LiftsNothing.add p t).countsOn n
    rw [hadd] at hcount
    exact increases_addAll h (increases_add hadd hp hlow) (Nat.le_trans hlow hcount)

/-- In elements whose lists have different numbers, a number tells where its list is. -/
theorem eq_of_listIds {plans : List TriplesPlan} (h : (plans.flatMap TriplesPlan.listIds).Nodup)
    {k k' m m' : Nat} {p p' : TriplesPlan} {t t' : ListTemplate} (hp : plans[k]? = some p)
    (hp' : plans[k']? = some p') (ht : p.lists[m]? = some t) (ht' : p'.lists[m']? = some t')
    (hid : t.id = t'.id) : k = k' ∧ m = m' := by
  obtain ⟨hone, hapart⟩ := List.nodup_flatMap.mp h
  have hmem : t.id ∈ p.listIds := List.mem_map_of_mem (List.mem_of_getElem? ht)
  have hmem' : t.id ∈ p'.listIds := hid ▸ List.mem_map_of_mem (List.mem_of_getElem? ht')
  obtain ⟨hk, rfl⟩ := List.getElem?_eq_some_iff.mp hp
  obtain ⟨hk', rfl⟩ := List.getElem?_eq_some_iff.mp hp'
  obtain rfl : k = k' := by
    rcases Nat.lt_trichotomy k k' with hlt | heq | hlt
    · exact (List.pairwise_iff_getElem.mp hapart _ _ hk hk' hlt hmem hmem').elim
    · exact heq
    · exact (List.pairwise_iff_getElem.mp hapart _ _ hk' hk hlt hmem' hmem).elim
  refine ⟨rfl, ?_⟩
  have hsame : (plans[k].listIds)[m]? = (plans[k].listIds)[m']? := by
    rw [listIds, List.getElem?_map, List.getElem?_map, ht, ht', Option.map_some, hid]
    rfl
  have hm : m < plans[k].listIds.length := by
    rw [listIds, List.length_map]
    exact (List.getElem?_eq_some_iff.mp ht).1
  exact (List.getElem?_inj hm (hone _ (List.getElem_mem hk))).mp hsame

theorem listIds_nodes (p : TriplesPlan) : PlanNode.listIds p.nodes = p.listIds := by
  unfold nodes
  split
  · next h =>
    rw [listIds, List.isEmpty_iff.mp h.2]
    rfl
  · exact List.append_nil _

end TriplesPlan

theorem PlanNode.listIds_append (nodes nodes' : List PlanNode) :
    listIds (nodes ++ nodes') = listIds nodes ++ listIds nodes' := by
  rw [listIds, List.filterMap_append, List.flatMap_append]
  rfl

end TripleLoom
