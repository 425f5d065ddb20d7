import TripleLoom.Proofs.Plan.Faults
import TripleLoom.Proofs.Plan.Numbering

/-!
# TripleLoom.Proofs.Plan.Layout — plans keep the order of the output

The elements of a query's output are cut into stretches of triples at the queries and calls among
them, and so are the nodes of its plan.  The cuts are the same ones in the same order, and between
two of them there is one node for all triples that stand there, if any (`Plan.build_layout`).  What
carries the proof is that the triples that are collected but not put into a node yet are those
behind the last cut (`TriplesPlan.Holds`), whatever elements they come from.
-/

namespace TripleLoom

/-! ### Lists in pieces -/

/-- A list that is cut at some of its entries. -/
structure Pieces (β γ : Type) where
  /-- What stands before the first cut. -/
  first : List β
  /-- The cuts, each with what stands behind it. -/
  behind : List (γ × List β)

/-- The pieces of a list that is cut at the entries on the right side. -/
def Pieces.of {α β γ : Type} (side : α → β ⊕ γ) : List α → Pieces β γ
  | [] => ⟨[], []⟩
  | a :: rest =>
    match side a with
    | .inl b => ⟨b :: (of side rest).first, (of side rest).behind⟩
    | .inr c => ⟨[], (c, (of side rest).first) :: (of side rest).behind⟩

namespace Pieces

variable {α β γ : Type} {side : α → β ⊕ γ} {a : α} {b : β} {c : γ}

theorem of_cons_left (h : side a = .inl b) (rest : List α) :
    of side (a :: rest) = ⟨b :: (of side rest).first, (of side rest).behind⟩ := by
  rw [of, h]

theorem of_cons_right (h : side a = .inr c) (rest : List α) :
    of side (a :: rest) = ⟨[], (c, (of side rest).first) :: (of side rest).behind⟩ := by
  rw [of, h]

end Pieces

/-- Elements are cut at queries and calls. -/
def Element.side : Element → List GenerateTriple ⊕ Element
  | .triples ts => .inl ts
  | .query q => .inr (.query q)
  | .call c => .inr (.call c)

/-- Nodes are cut at everything but triples. -/
def PlanNode.side : PlanNode → TriplesPlan ⊕ PlanNode
  | .triples p => .inl p
  | node => .inr node

theorem Element.side_triples (ts : List GenerateTriple) : (Element.triples ts).side = .inl ts := rfl

theorem PlanNode.side_triples (p : TriplesPlan) : (PlanNode.triples p).side = .inl p := rfl

/-! ### Triples in one node -/

/-- Some triples are all collected in a node: those without a list, and those with one, each in
order. -/
structure TriplesPlan.Holds (p : TriplesPlan) (ts : List GenerateTriple) : Prop where
  triples : p.triples.map TripleTemplate.triple = ts.filter (!·.object.isList)
  lists : p.lists.map ListTemplate.triple = ts.filter (·.object.isList)

namespace TriplesPlan

variable {p p' : TriplesPlan} {n n' : Numbering}

theorem holds_empty : empty.Holds [] := ⟨rfl, rfl⟩

theorem Holds.add {ts : List GenerateTriple} {t : GenerateTriple} (hp : p.Holds ts)
    (h : p.add t n = (.ok p', n')) : p'.Holds (ts ++ [t]) := by
  rcases add_ok h with ⟨template, rfl, rfl, -⟩ | ⟨template, rfl, -, rfl, -⟩
  · have hplain : template.triple.object.isList = false := template.object.isList_position
    refine ⟨?_, ?_⟩
    · rw [List.map_append, hp.triples, List.filter_append]
      simp [hplain]
    · rw [hp.lists, List.filter_append]
      simp [hplain]
  · have hlist : template.triple.object.isList = true := rfl
    refine ⟨?_, ?_⟩
    · rw [hp.triples, List.filter_append]
      simp [hlist]
    · rw [List.map_append, hp.lists, List.filter_append]
      simp [hlist]

theorem Holds.addAll : ∀ {more ts : List GenerateTriple} {p : TriplesPlan} {n : Numbering},
    p.Holds ts → more.foldlM TriplesPlan.add p n = (.ok p', n') → p'.Holds (ts ++ more)
  | [], ts, p, n, hp, h => by
    cases h
    rwa [List.append_nil]
  | t :: more, ts, p, n, hp, h => by
    rw [List.foldlM_cons] at h
    obtain ⟨q, n₁, hadd, h⟩ := Build.bind_ok h
    rw [List.append_cons]
    exact Holds.addAll (hp.add hadd) h

/-- There is a node for some triples exactly if there are any. -/
theorem Holds.nodes {ts : List GenerateTriple} (hp : p.Holds ts) :
    p.nodes = [] ∧ ts = [] ∨ p.nodes = [.triples p] ∧ ts ≠ [] := by
  unfold TriplesPlan.nodes
  split
  · next h =>
    have htriples := hp.triples
    have hlists := hp.lists
    rw [List.isEmpty_iff.mp h.1, List.map_nil, eq_comm, List.filter_eq_nil_iff] at htriples
    rw [List.isEmpty_iff.mp h.2, List.map_nil, eq_comm, List.filter_eq_nil_iff] at hlists
    refine .inl ⟨rfl, List.eq_nil_iff_forall_not_mem.mpr fun t ht => hlists t ht ?_⟩
    simpa using htriples t ht
  · next h =>
    refine .inr ⟨rfl, ?_⟩
    rintro rfl
    have htriples := hp.triples
    have hlists := hp.lists
    exact h ⟨by simpa using htriples, by simpa using hlists⟩

end TriplesPlan

/-! ### Output that is laid out as a plan -/

/-- What is made of the triples between two cuts: nothing of none, and else one node for them. -/
inductive Stretch : List GenerateTriple → List TriplesPlan → Prop
  | none : Stretch [] []
  | one {ts : List GenerateTriple} {p : TriplesPlan} (hne : ts ≠ []) (h : p.Holds ts) :
    Stretch ts [p]

/-- What is made of a cut: the plan of a query, or the planned call. -/
inductive CutOf : Element → PlanNode → Prop
  | query {q : Query} {p : Plan} {n : Numbering} (h : (Plan.build q n).1 = .ok p) :
    CutOf (.query q) (.plan p)
  | call (call : CallPlan) : CutOf (.call call.namedCall) (.call call)

/-- Some nodes have the cuts of some elements in the same order, and between them what is made of
the triples there. -/
structure LaidOut (elements : List Element) (nodes : List PlanNode) : Prop where
  first : Stretch (Pieces.of Element.side elements).first.flatten
    (Pieces.of PlanNode.side nodes).first
  behind : List.Forall₂ (fun e node => CutOf e.1 node.1 ∧ Stretch e.2.flatten node.2)
    (Pieces.of Element.side elements).behind (Pieces.of PlanNode.side nodes).behind

namespace LaidOut

variable {ts : List GenerateTriple} {p : TriplesPlan} {elements : List Element}
  {nodes : List PlanNode}

/-- The triples that are left at the end. -/
theorem last (hp : p.Holds ts) : LaidOut [.triples ts] p.nodes := by
  rcases hp.nodes with ⟨hnodes, rfl⟩ | ⟨hnodes, hne⟩ <;> rw [hnodes]
  · exact ⟨.none, .nil⟩
  · refine ⟨?_, .nil⟩
    have hflatten : (Pieces.of Element.side [.triples ts]).first.flatten = ts := List.append_nil ts
    rw [hflatten]
    exact .one hne hp

/-- The triples before a cut, and the cut. -/
theorem cut {e : Element} {node : PlanNode} (hp : p.Holds ts) (hcut : CutOf e node)
    (h : LaidOut elements nodes) :
    LaidOut (.triples ts :: e :: elements) (p.nodes ++ node :: nodes) := by
  have he : e.side = .inr e := by cases hcut <;> rfl
  have hnode : node.side = .inr node := by cases hcut <;> rfl
  have helements : Pieces.of Element.side (.triples ts :: e :: elements) =
      ⟨[ts], (e, (Pieces.of Element.side elements).first) ::
        (Pieces.of Element.side elements).behind⟩ := by
    rw [Pieces.of_cons_left (Element.side_triples ts), Pieces.of_cons_right he]
  have hcuts := Pieces.of_cons_right hnode nodes
  have hflatten : [ts].flatten = ts := List.append_nil ts
  rcases hp.nodes with ⟨hnodes, rfl⟩ | ⟨hnodes, hne⟩ <;> rw [hnodes]
  · rw [List.nil_append]
    refine ⟨?_, ?_⟩ <;> rw [helements, hcuts]
    · exact .none
    · exact .cons ⟨hcut, h.first⟩ h.behind
  · rw [List.cons_append, List.nil_append]
    have hpieces : Pieces.of PlanNode.side (.triples p :: node :: nodes) =
        ⟨[p], (node, (Pieces.of PlanNode.side nodes).first) ::
          (Pieces.of PlanNode.side nodes).behind⟩ := by
      rw [Pieces.of_cons_left (PlanNode.side_triples p), hcuts]
    refine ⟨?_, ?_⟩ <;> rw [helements, hpieces]
    · rw [hflatten]
      exact .one hne hp
    · exact .cons ⟨hcut, h.first⟩ h.behind

/-- Triples may be spread over elements. -/
theorem merge {more : List GenerateTriple} (h : LaidOut (.triples (ts ++ more) :: elements) nodes) :
    LaidOut (.triples ts :: .triples more :: elements) nodes := by
  obtain ⟨hfirst, hbehind⟩ := h
  refine ⟨?_, hbehind⟩
  simp only [Pieces.of, Element.side, List.flatten_cons, List.append_assoc] at hfirst ⊢
  exact hfirst

theorem of_nil_cons (h : LaidOut (.triples [] :: elements) nodes) : LaidOut elements nodes :=
  ⟨h.first, h.behind⟩

end LaidOut

/-- Compiling some elements behind some triples lays them out. -/
theorem Element.laidOut_compileAll {l : Lifting} {n' : Numbering} : ∀ {elements : List Element}
    {before : TriplesPlan} {ts : List GenerateTriple} {n : Numbering} {nodes : List PlanNode},
    before.Holds ts → Element.compileAll l before elements n = (.ok nodes, n') →
      LaidOut (.triples ts :: elements.map (·.lifted l)) nodes
  | [], before, ts, n, nodes, hbefore, h => by
    unfold Element.compileAll at h
    cases h
    exact .last hbefore
  | .triples more :: rest, before, ts, n, nodes, hbefore, h => by
    unfold Element.compileAll at h
    obtain ⟨p, n₁, hadd, h⟩ := Build.bind_ok h
    exact .merge (laidOut_compileAll (hbefore.addAll hadd) h)
  | .query q :: rest, before, ts, n, nodes, hbefore, h => by
    unfold Element.compileAll at h
    obtain ⟨plan, n₁, hplan, h⟩ := Build.bind_ok h
    obtain ⟨more, n₂, hmore, h⟩ := Build.bind_ok h
    cases h
    have hcut : CutOf (.query q) (.plan plan) := .query (congrArg Prod.fst hplan)
    exact .cut hbefore hcut (laidOut_compileAll TriplesPlan.holds_empty hmore).of_nil_cons
  | .call c :: rest, before, ts, n, nodes, hbefore, h => by
    unfold Element.compileAll at h
    obtain ⟨call, n₁, hcall, h⟩ := Build.bind_ok h
    obtain ⟨more, n₂, hmore, h⟩ := Build.bind_ok h
    cases h
    have hcut : CutOf (.call (c.lifted l)) (.call call) :=
      (CallPlan.ofCall_ok hcall).1 ▸ .call call
    exact .cut hbefore hcut (laidOut_compileAll TriplesPlan.holds_empty hmore).of_nil_cons

/-- A query without anything to lift is normalized already. -/
theorem Query.form_normalized_of_not_liftable {q : Query} (h : q.form.isLiftable = false)
    (id : Nat) : (q.normalized id).form = q.form := by
  rw [form_normalized, Form.lifted_eq_self h]

namespace Plan

/-- **Plans keep the order of the output.**  If a query can be compiled and its output, once its
expressions are lifted, is a list of elements, then its plan generates nodes with the same cuts: the
plan of each query and the planned form of each call among the elements, in the same order.  Before
the first cut, between two of them and behind the last one there is no node if there are no triples
in the elements there, and else one, which holds those without a list and those with one, each in
their order. -/
theorem build_layout {q : Query} {n : Numbering} {p : Plan} {elements : List Element}
    (hform : (q.normalized n.nextVariable).form = .generate elements)
    (h : (build q n).1 = .ok p) : ∃ nodes, p.output = .generate nodes ∧ LaidOut elements nodes := by
  rcases hbuild : build q n with ⟨built, n'⟩
  rw [hbuild] at h
  subst h
  obtain ⟨l, n₁, n₂, hlift, -, hcompile, -⟩ := Query.compile_ok hbuild
  rw [Build.lift_eq] at hlift
  cases hlift
  rw [Query.form_normalized] at hform
  cases hq : q.form with
  | generate own =>
    rw [hq] at hform hcompile
    cases hform
    unfold Form.compile at hcompile
    obtain ⟨nodes, n₃, hnodes, hcompile⟩ := Build.bind_ok hcompile
    have houtput : Except.ok (OutputPlan.generate nodes) = (.ok p.output : Except PlanError _) :=
      congrArg Prod.fst hcompile
    have hlaid := Element.laidOut_compileAll TriplesPlan.holds_empty hnodes
    exact ⟨nodes, (Except.ok.inj houtput).symm, hlaid.of_nil_cons⟩
  | template | select =>
    rw [hq] at hform
    cases hform

/-- A list behind a plain triple, a query, a call, and two elements of triples. -/
def alternating : List Element :=
  let plain : GenerateTriple := ⟨.iri ⟨"urn:s"⟩, .iri ⟨"urn:p"⟩, .var ⟨"x"⟩⟩
  let list : GenerateTriple := ⟨.iri ⟨"urn:s"⟩, .iri ⟨"urn:q"⟩, .list (.var ⟨"x"⟩)⟩
  [.triples [plain, list], .query default, .call ⟨.iri ⟨"urn:f"⟩, none⟩, .triples [list],
    .triples [plain]]

theorem build_layout_alternating :
    ∃ p nodes, (build { (default : Query) with form := .generate alternating } .start).1 = .ok p ∧
      p.output = .generate nodes ∧ LaidOut alternating nodes := by
  let q : Query := { (default : Query) with form := .generate alternating }
  have hlift : q.form.isLiftable = false := by decide
  have hform : (q.normalized Numbering.start.nextVariable).form = .generate alternating :=
    Query.form_normalized_of_not_liftable hlift _
  have hok : (build q .start).1.isOk = true := by decide +kernel
  obtain ⟨p, hbuild⟩ := exists_of_isOk hok
  obtain ⟨nodes, houtput, hlaid⟩ := build_layout hform hbuild
  exact ⟨p, nodes, hbuild, houtput, hlaid⟩

end Plan

end TripleLoom
