import Mathlib.Data.Multiset.Bind
import TripleLoom.Proofs.Generation.Placeholders
import TripleLoom.Proofs.Plan.Numbering

/-!
# TripleLoom.Proofs.Generation.Lists — the lists of a form

A list is written in pieces, one for each solution: a triple of its value, and a triple to the next
solution's node; the first solution adds the triple that leads to the list.  `IsList` says what a list
is by its triples alone, and `Writeout.wellFormed` that the pieces make one.  Lists of different
numbers and of different executions have different nodes (`Run.History.disjoint_nodesOf`), and every
list of a compiled plan has a number of its own (`Plan.nodup_listIds`).
-/

namespace TripleLoom

open RunM

/-! ### What a list is -/

/-- The objects that a subject has for a predicate in some triples. -/
def objectsOf (triples : List Triple) (subject : Resource) (predicate : Iri) : List Term :=
  (triples.filter fun t => t.subject = subject ∧ t.predicate = predicate).map (·.object)

/-- Triples in which a list of nodes and their values starts at a term: every node has one
`rdf:first`, its value, and one `rdf:rest`, at which the rest of the list starts; the empty list is
`rdf:nil`. -/
inductive IsList (triples : List Triple) : Term → List BlankNode → List Term → Prop where
  | nil : IsList triples Term.nil [] []
  | cons {node : BlankNode} {next value : Term} {nodes : List BlankNode} {values : List Term}
      (first : objectsOf triples (.blank node) (Iri.rdf "first") = [value])
      (rest : objectsOf triples (.blank node) (Iri.rdf "rest") = [next])
      (h : IsList triples next nodes values) :
    IsList triples (.blank node) (node :: nodes) (value :: values)

/-- The term at which a list of some nodes starts. -/
def startOf : List BlankNode → Term
  | [] => Term.nil
  | node :: _ => .blank node

/-- The triples of a list of nodes and their values. -/
def spine : List BlankNode → List Term → List Triple
  | node :: nodes, value :: values =>
    ⟨.blank node, Iri.rdf "first", value⟩ :: ⟨.blank node, Iri.rdf "rest", startOf nodes⟩ ::
      spine nodes values
  | _, _ => []

theorem length_spine : ∀ {nodes : List BlankNode} {values : List Term},
    nodes.length = values.length → (spine nodes values).length = 2 * values.length
  | [], [], _ => rfl
  | node :: nodes, value :: values, h => by
    have ih := length_spine (Nat.succ.inj h)
    rw [spine, List.length_cons, List.length_cons, ih, List.length_cons]
    omega

theorem objectsOf_append (ts us : List Triple) (subject : Resource) (predicate : Iri) :
    objectsOf (ts ++ us) subject predicate =
      objectsOf ts subject predicate ++ objectsOf us subject predicate := by
  rw [objectsOf, List.filter_append, List.map_append]
  rfl

theorem objectsOf_eq_nil {ts : List Triple} {subject : Resource}
    (h : ∀ t ∈ ts, t.subject ≠ subject) (predicate : Iri) : objectsOf ts subject predicate = [] := by
  rw [objectsOf, List.filter_eq_nil_iff.mpr fun t ht => by simp [h t ht]]
  rfl

theorem subject_of_mem_spine : ∀ {nodes : List BlankNode} {values : List Term} {t : Triple},
    t ∈ spine nodes values → ∃ node ∈ nodes, t.subject = .blank node
  | node :: nodes, value :: values, t, h => by
    rw [spine] at h
    rcases List.mem_cons.mp h with rfl | h
    · exact ⟨node, List.mem_cons_self, rfl⟩
    · rcases List.mem_cons.mp h with rfl | h
      · exact ⟨node, List.mem_cons_self, rfl⟩
      · obtain ⟨other, hmem, heq⟩ := subject_of_mem_spine h
        exact ⟨other, List.mem_cons_of_mem _ hmem, heq⟩
  | [], _, _, h => by cases h
  | _ :: _, [], _, h => by cases h

theorem first_ne_rest : Iri.rdf "first" ≠ Iri.rdf "rest" := by decide +kernel

/-- The triples of a list make it one, whatever triples of other subjects stand before them. -/
theorem isList_append_spine : ∀ {nodes : List BlankNode} {values : List Term}
    (before : List Triple), nodes.Nodup → nodes.length = values.length →
    (∀ node ∈ nodes, ∀ t ∈ before, t.subject ≠ .blank node) →
    IsList (before ++ spine nodes values) (startOf nodes) nodes values
  | [], [], _, _, _, _ => .nil
  | node :: nodes, value :: values, before, hnodup, hlength, hbefore => by
    obtain ⟨hnode, hnodes⟩ := List.nodup_cons.mp hnodup
    have hrest : ∀ predicate, objectsOf (spine nodes values) (.blank node) predicate = [] := by
      refine objectsOf_eq_nil fun t ht heq => ?_
      obtain ⟨other, hmem, hother⟩ := subject_of_mem_spine ht
      rw [hother] at heq
      exact hnode (Resource.blank.inj heq ▸ hmem)
    have hpieces : ∀ predicate : Iri, objectsOf (before ++ spine (node :: nodes) (value :: values))
        (.blank node) predicate = objectsOf [⟨.blank node, Iri.rdf "first", value⟩,
          ⟨.blank node, Iri.rdf "rest", startOf nodes⟩] (.blank node) predicate := by
      intro predicate
      rw [spine, objectsOf_append, objectsOf_eq_nil (hbefore node List.mem_cons_self), List.nil_append]
      refine (objectsOf_append [_, _] (spine nodes values) _ _).trans ?_
      rw [hrest, List.append_nil]
    have hfirst : objectsOf (before ++ spine (node :: nodes) (value :: values)) (.blank node)
        (Iri.rdf "first") = [value] := by
      rw [hpieces]
      simp [objectsOf, first_ne_rest.symm]
    have hnext : objectsOf (before ++ spine (node :: nodes) (value :: values)) (.blank node)
        (Iri.rdf "rest") = [startOf nodes] := by
      rw [hpieces]
      simp [objectsOf, first_ne_rest]
    refine .cons hfirst hnext ?_
    -- the node's own triples join those before the rest of the list
    have ih := isList_append_spine (before ++ [⟨.blank node, Iri.rdf "first", value⟩,
      ⟨.blank node, Iri.rdf "rest", startOf nodes⟩]) hnodes (Nat.succ.inj hlength) ?_
    · rwa [List.append_assoc] at ih
    · intro other hmem t ht
      rcases List.mem_append.mp ht with ht | ht
      · exact hbefore other (List.mem_cons_of_mem _ hmem) t ht
      · intro heq
        have hsubject : t.subject = .blank node := by
          rcases List.mem_cons.mp ht with rfl | ht
          · rfl
          · rw [List.mem_singleton.mp ht]
        exact hnode (Resource.blank.inj (hsubject.symm.trans heq) ▸ hmem)

/-! ### Pieces -/

namespace ListTemplate

variable {t : ListTemplate} {labels : String → Option BlankNode} {u : Solution} {terms : List Term}
  {node : BlankNode} {nodes : List BlankNode} {value : Term} {values : List Term} {k : Nat}

theorem getElem?_of_drop (h : terms.drop k = (node :: nodes).map Term.blank ++ [Term.nil]) :
    terms[k]? = some (.blank node) ∧ terms[k + 1]? = some (startOf nodes) ∧
      terms.drop (k + 1) = nodes.map Term.blank ++ [Term.nil] := by
  have hrest : terms.drop (k + 1) = nodes.map Term.blank ++ [Term.nil] := by
    rw [← List.tail_drop, h]
    rfl
  refine ⟨?_, ?_, hrest⟩
  · rw [← Nat.add_zero k, ← List.getElem?_drop, h]
    rfl
  · rw [← Nat.add_zero (k + 1), ← List.getElem?_drop, hrest]
    cases nodes <;> rfl

/-- A solution contributes the triples of its node, and the first one the triple to the list. -/
theorem triplesIn_eq (h : terms.drop k = (node :: nodes).map Term.blank ++ [Term.nil])
    (hvalue : t.element.termIn labels u = some value) : t.triplesIn labels u terms k =
      (if k = 0 then t.linkIn labels u (.blank node) else none).toList ++
        [⟨.blank node, Iri.rdf "first", value⟩, ⟨.blank node, Iri.rdf "rest", startOf nodes⟩] := by
  obtain ⟨hnode, hnext, -⟩ := getElem?_of_drop h
  rw [triplesIn, hnode, hnext]
  dsimp only
  rw [firstIn, hvalue, List.append_assoc]
  rfl

/-- The solutions behind the first contribute the triples of their nodes. -/
theorem flatMap_triplesIn {labels : Context → String → Option BlankNode} :
    ∀ {sites : List (Context × Solution)} {nodes : List BlankNode} {values : List Term} {k : Nat},
      0 < k → terms.drop k = nodes.map Term.blank ++ [Term.nil] → nodes.length = sites.length →
      sites.map (fun site => t.element.termIn (labels site.1) site.2) = values.map some →
      (sites.zipIdx k).flatMap (fun site =>
        t.triplesIn (labels site.1.1) site.1.2 terms site.2) = spine nodes values
  | [], [], [], _, _, _, _, _ => rfl
  | (c, u) :: sites, node :: nodes, value :: values, k, hk, hdrop, hlength, hvalues => by
    obtain ⟨hvalue, hvalues⟩ := List.cons.inj hvalues
    rw [List.zipIdx_cons, List.flatMap_cons, triplesIn_eq hdrop hvalue,
      flatMap_triplesIn (Nat.succ_pos k) (getElem?_of_drop hdrop).2.2 (Nat.succ.inj hlength) hvalues,
      if_neg (Nat.ne_of_gt hk)]
    rfl

/-- All solutions together contribute a list and the triple that leads to it. -/
theorem flatMap_triplesIn_cons (labels : Context → String → Option BlankNode) {c : Context}
    {sites : List (Context × Solution)} {link : Triple}
    (hterms : terms = (node :: nodes).map Term.blank ++ [Term.nil])
    (hlength : nodes.length = sites.length)
    (hvalues : ((c, u) :: sites).map (fun site => t.element.termIn (labels site.1) site.2) =
      values.map some) (hlink : t.linkIn (labels c) u (.blank node) = some link) :
    (((c, u) :: sites).zipIdx).flatMap (fun site =>
      t.triplesIn (labels site.1.1) site.1.2 terms site.2) = link :: spine (node :: nodes) values := by
  cases values with
  | nil => cases hvalues
  | cons value values =>
    obtain ⟨hvalue, hvalues⟩ := List.cons.inj hvalues
    rw [List.zipIdx_cons, List.flatMap_cons, triplesIn_eq (k := 0) hterms hvalue,
      flatMap_triplesIn (Nat.succ_pos 0) (getElem?_of_drop (k := 0) hterms).2.2 hlength hvalues,
      if_pos rfl, hlink]
    rfl

end ListTemplate

/-! ### Lists of an element -/

namespace Writeout

variable (w : Writeout) (t : ListTemplate)

/-- What the element of a list stands for in each solution. -/
def elementsOf : List (Option Term) :=
  w.generation.sites.map fun site => t.element.termIn (site.1.label? w.after) site.2

/-- The triples that are written for a list, solution by solution. -/
def listTriples : List Triple :=
  w.generation.sites.zipIdx.flatMap fun site =>
    t.triplesIn (site.1.1.label? w.after) site.1.2 (w.generation.fork.listIn w.after t.id) site.2

/-- The triples that are written for no list. -/
def plainTriples : List Triple :=
  w.generation.sites.flatMap fun site =>
    w.plan.triples.filterMap (·.tripleIn (site.1.label? w.after) site.2)

/-- What is written are the plain triples and those of the lists. -/
theorem triples_perm :
    w.triples.Perm (w.plainTriples ++ w.plan.lists.flatMap w.listTriples) := by
  have hplain : w.plainTriples = w.generation.sites.zipIdx.flatMap fun site =>
      w.plan.triples.filterMap (·.tripleIn (site.1.1.label? w.after) site.1.2) := by
    rw [plainTriples, ← List.zipIdx_map_fst 0 w.generation.sites, List.flatMap_map]
    simp only [List.zipIdx_map_fst]
  -- the lists are written solution by solution, and here stand one by one
  have hlists : (w.generation.sites.zipIdx.flatMap fun site => w.plan.lists.flatMap fun t =>
      t.triplesIn (site.1.1.label? w.after) site.1.2 (w.generation.fork.listIn w.after t.id)
        site.2).Perm (w.plan.lists.flatMap w.listTriples) := by
    refine Multiset.coe_eq_coe.mp ?_
    simp only [← Multiset.coe_bind, listTriples]
    exact Multiset.bind_bind _ _
  rw [hplain]
  exact (List.flatMap_append_perm _ _ _).symm.trans (hlists.append_left _)

end Writeout

/-- How the list of a template should come out for some values: fresh nodes, one for each solution,
and triples that are their list, one of which leads to it from the subject.  Only if the subject is
bound to a node that nobody has made yet might the leading triple be taken for one of the list. -/
structure Writeout.WellFormed (w : Writeout) (t : ListTemplate) (first size : Nat)
    (subject : Resource) (predicate : Iri) (values : List Term) : Prop where
  length : (w.nodesOf t).length = size
  nodup : (w.nodesOf t).Nodup
  fresh : ∀ node ∈ w.nodesOf t, ∃ k ≥ first, node = .fresh k
  count : (w.listTriples t).length = 2 * size + 1
  list : ∃ head rest, w.listTriples t = ⟨subject, predicate, head⟩ :: rest ∧
    IsList rest head (w.nodesOf t) values ∧
    ((∀ v k, t.subject = .var v → subject = .blank (.fresh k) → k < first) →
      IsList (w.listTriples t) head (w.nodesOf t) values)

section WellFormed

variable {w : Writeout} {t : ListTemplate} {first number : Nat} {c : Context} {u : Solution}
  {subject : Resource}

theorem Writeout.nodesOf_eq {size : Nat}
    (hnodes : w.generation.fork.listIn w.after t.id = Scopes.listFrom number size) :
    w.nodesOf t = (List.range' number size).map .fresh := by
  rw [nodesOf, hnodes, RunState.filterMap_listFrom]

/-- The subject of a list is none of its nodes: these are no labels' nodes, and were not made yet
when the subject was bound. -/
theorem Writeout.subject_ne (hsubject : t.subject.termIn (c.label? w.after) u = some subject.toTerm)
    (hfresh : ∀ node ∈ w.nodesOf t, ∃ k ≥ first, node = .fresh k)
    (hlabels : ∀ label node, c.label? w.after label = some node → node ∉ w.nodesOf t)
    (hmade : ∀ v k, t.subject = .var v → subject = .blank (.fresh k) → k < first)
    {node : BlankNode} (hnode : node ∈ w.nodesOf t) : subject ≠ .blank node := by
  rintro rfl
  cases hterm : t.subject with
  | iri i | literal l => rw [hterm] at hsubject; cases hsubject
  | blank b =>
    rw [hterm] at hsubject
    obtain ⟨other, hlabel, hother⟩ := Option.map_eq_some_iff.mp hsubject
    obtain rfl : other = node := Term.blank.inj hother
    exact hlabels _ _ hlabel hnode
  | var v =>
    obtain ⟨k, hk, rfl⟩ := hfresh node hnode
    exact Nat.not_lt.mpr hk (hmade v k hterm rfl)

/-- Nodes made one after the other, as many as there are solutions, make a well-formed list. -/
theorem Writeout.wellFormed {sites : List (Context × Solution)} {predicate : Iri}
    {values : List Term} (hsites : w.generation.sites = (c, u) :: sites) (hfirst : first ≤ number)
    (hnodes : w.generation.fork.listIn w.after t.id = Scopes.listFrom number (sites.length + 1))
    (hsubject : t.subject.termIn (c.label? w.after) u = some subject.toTerm)
    (hpredicate : t.predicate.termIn (c.label? w.after) u = some (.iri predicate))
    (hvalues : w.elementsOf t = values.map some)
    (hlabels : ∀ label node, c.label? w.after label = some node → node ∉ w.nodesOf t) :
    w.WellFormed t first (sites.length + 1) subject predicate values := by
  have hnumbers := nodesOf_eq hnodes
  have hnodup : (w.nodesOf t).Nodup := by
    rw [hnumbers]
    exact List.Nodup.map (fun _ _ => BlankNode.fresh_injective) List.nodup_range'
  have hfresh : ∀ node ∈ w.nodesOf t, ∃ k ≥ first, node = .fresh k := by
    intro node hnode
    obtain ⟨k, hk, rfl⟩ := List.mem_map.mp (hnumbers ▸ hnode)
    exact ⟨k, Nat.le_trans hfirst (List.mem_range'_1.mp hk).1, rfl⟩
  have hcount : values.length = sites.length + 1 := by
    have hsame := congrArg List.length hvalues
    rwa [elementsOf, List.length_map, List.length_map, hsites, List.length_cons, eq_comm] at hsame
  have hlength : (w.nodesOf t).length = values.length := by
    rw [hnumbers, List.length_map, List.length_range', hcount]
  have hterms : w.generation.fork.listIn w.after t.id =
      (w.nodesOf t).map Term.blank ++ [Term.nil] := by
    rw [hnodes, hnumbers, List.map_map]
    rfl
  -- the first node is the head
  obtain ⟨node, nodes, hcons⟩ : ∃ node nodes, w.nodesOf t = node :: nodes :=
    ⟨_, _, hnumbers.trans (congrArg _ (List.range'_succ ..))⟩
  have hother : ∀ node ∈ w.nodesOf t, _ → subject ≠ .blank node := fun node hnode hmade =>
    subject_ne hsubject hfresh hlabels hmade hnode
  rw [hcons] at hterms hlength hnodup hother
  have hlink : t.linkIn (c.label? w.after) u (.blank node) =
      some ⟨subject, predicate, .blank node⟩ := by
    simp [ListTemplate.linkIn, hsubject, hpredicate, Triple.ofTerms?, Term.toIri?]
  have htriples : w.listTriples t =
      ⟨subject, predicate, .blank node⟩ :: spine (node :: nodes) values := by
    rw [elementsOf, hsites] at hvalues
    rw [listTriples, hsites]
    exact ListTemplate.flatMap_triplesIn_cons (·.label? w.after) hterms
      (Nat.succ.inj (hlength.trans hcount)) hvalues hlink
  refine ⟨?_, hcons ▸ hnodup, hfresh, ?_, .blank node, spine (node :: nodes) values, htriples, ?_,
    fun hmade => ?_⟩
  · rw [hcons, hlength, hcount]
  · rw [htriples, List.length_cons, length_spine hlength, hcount]
  · rw [hcons]
    exact isList_append_spine [] hnodup hlength fun _ _ _ h => nomatch h
  · rw [htriples, hcons]
    refine isList_append_spine [_] hnodup hlength fun other hmem triple htriple => ?_
    rw [List.mem_singleton.mp htriple]
    exact hother other hmem hmade

end WellFormed

/-! ### Along a run -/

namespace Run

variable {setting : Setting} {acts : List Act} {r r' : Run} {move : RunMove} {e e' : Execution}
  {w w' : Writeout} {t t' : ListTemplate}

/-- **Lists are well-formed.**  Take any run, and in it an execution of a compiled plan.  It writes
the elements of its plan from the first one on, and all of them by the end of the run; and for each
element the plain triples and those of its lists.  If the subject and the predicate of a list stand for
a resource and an IRI in the first solution, and its element for some value in every one, then what is
written for it is a well-formed list of the values.  No node is shared by two lists of the execution,
or with a list of another one. -/
theorem lists_well_formed {state : RunState} (hstate : state.IsSound) (limit : Nat) (plan : Plan)
    (input : Sequence) {moves : List RunMove}
    (hreplay : (start (state.renew limit) plan input).replay setting moves = some r)
    (hacts : (start (state.renew limit) plan input).acts setting moves = acts)
    (he : e ∈ executions setting acts) {query : Query} {numbering : Numbering}
    (hbuild : (Plan.build query numbering).1 = .ok e.frame.plan) :
    (∃ rest, (e.writeouts acts).map (·.plan) ++ rest = PlanNode.triplesOf e.frame.plan.elements ∧
      (r.isOver = true → rest = [])) ∧
    ∀ (k : Nat) (w : Writeout), (e.writeouts acts)[k]? = some w → w.generation = e.generation ∧
      w.calls = w.triples.map .triple ∧
      w.triples.Perm (w.plainTriples ++ w.plan.lists.flatMap w.listTriples) ∧
      ∀ (m : Nat) (t : ListTemplate), w.plan.lists[m]? = some t →
        (∀ (c : Context) (u : Solution) (subject : Resource) (predicate : Iri) (values : List Term),
          e.generation.sites.head? = some (c, u) →
          t.subject.termIn (c.label? w.after) u = some subject.toTerm →
          t.predicate.termIn (c.label? w.after) u = some (.iri predicate) →
          w.elementsOf t = values.map some →
          w.WellFormed t e.began.scopes.nextFresh e.input.size subject predicate values) ∧
        (∀ (k' m' : Nat) (w' : Writeout) (t' : ListTemplate), (e.writeouts acts)[k']? = some w' →
          w'.plan.lists[m']? = some t' → (k, m) ≠ (k', m') →
          List.Disjoint (w.nodesOf t) (w'.nodesOf t')) ∧
        ∀ e' ∈ executions setting acts, e' ≠ e → ∀ w' ∈ e'.writeouts acts, ∀ t' ∈ w'.plan.lists,
          List.Disjoint (w.nodesOf t) (w'.nodesOf t') := by
  obtain ⟨hr, htracks, hl⟩ := tracked hstate limit plan input hreplay hacts
  obtain ⟨rest, hplans, hover⟩ := htracks.elements_written he
  have hids : (((e.writeouts acts).map (·.plan)).flatMap TriplesPlan.listIds).Nodup := by
    have hall := Plan.nodup_listIds hbuild
    rw [Plan.listIds, PlanNode.listIds, ← PlanNode.triplesOf, ← hplans, List.flatMap_append] at hall
    exact (List.nodup_append.mp hall).1
  refine ⟨⟨rest, hplans, hover⟩, fun k w hk => ?_⟩
  have hw := List.mem_of_getElem? hk
  obtain ⟨hmem, heq, -⟩ := hr.of_mem_writeouts he hw
  refine ⟨heq, hr.calls_eq hmem, w.triples_perm, fun m t hm => ⟨?_, ?_, ?_⟩⟩
  · intro c u subject predicate values hhead hsubject hpredicate hvalues
    obtain ⟨sites, hsites⟩ := List.head?_eq_some_iff.mp hhead
    have hsize : e.input.size = sites.length + 1 := by
      have hlength := congrArg List.length hsites
      rw [Generation.sites, List.length_zip] at hlength
      simpa [Execution.generation, Frame.generation, Sequence.size] using hlength
    obtain ⟨first, hfirst, hnodes⟩ := hl.listIn_eq hr he hw (by rw [heq, hsites]; simp)
      (List.mem_of_getElem? hm)
    rw [hsize] at hnodes ⊢
    exact w.wellFormed (heq ▸ hsites) hfirst hnodes hsubject hpredicate hvalues
      fun _ _ hlabel => hr.label_not_mem_nodesOf he hw hlabel
  · intro k' m' w' t' hk' hm' hne
    refine hr.disjoint_nodesOf he hw he (List.mem_of_getElem? hk') fun _ hid => hne ?_
    obtain ⟨rfl, rfl⟩ := TriplesPlan.eq_of_listIds hids
      (List.getElem?_map .. ▸ congrArg (Option.map _) hk)
      (List.getElem?_map .. ▸ congrArg (Option.map _) hk') hm hm' hid
    rfl
  · intro e' he' hne w' hw' t' _
    exact hr.disjoint_nodesOf he hw he' hw' fun heq => absurd heq.symm hne

/-- A query of two lists of the same variable. -/
def listing : Query :=
  { (default : Query) with
    form := .generate [.triples [⟨.iri ⟨"urn:s"⟩, .iri ⟨"urn:p"⟩, .list (.var ⟨"x"⟩)⟩,
      ⟨.iri ⟨"urn:s"⟩, .iri ⟨"urn:q"⟩, .list (.var ⟨"x"⟩)⟩]] }

/-- The list of the variable for a predicate. -/
def listOf (id : Nat) (predicate : String) : ListTemplate :=
  ⟨id, .iri ⟨"urn:s"⟩, .iri ⟨predicate⟩, .var ⟨"x"⟩⟩

/-- Its plan. -/
def listingPlan : Plan := formPlan [.triples ⟨[], [listOf 0 "urn:p", listOf 1 "urn:q"]⟩]

/-- Two solutions for it. -/
def listed : Sequence :=
  .ofLists [⟨"x"⟩]
    [.ofBindings [(⟨"x"⟩, .iri ⟨"urn:one"⟩)], .ofBindings [(⟨"x"⟩, .iri ⟨"urn:two"⟩)]]

/-- The element of a plan that has nothing else. -/
def onlyElement? : Plan → Option TriplesPlan
  | ⟨none, none, none, [], [], none, [], .generate [.triples p]⟩ => some p
  | _ => none

theorem eq_of_onlyElement? {plan : Plan} {p : TriplesPlan} (h : onlyElement? plan = some p) :
    plan = formPlan [.triples p] := by
  unfold onlyElement? at h
  split at h
  · obtain rfl := Option.some.inj h
    rfl
  · cases h

/-- The moves of its run. -/
def listingMoves : List RunMove := movesAt [] [.here, .here, .here, .here]

theorem listing_well_formed :
    ∃ r e w, (start ((RunState.start 1).renew 1) listingPlan listed).replay bareSetting
        listingMoves = some r ∧ r.isOver = true ∧
      e ∈ executions bareSetting ((start ((RunState.start 1).renew 1) listingPlan listed).acts
        bareSetting listingMoves) ∧
      w ∈ e.writeouts ((start ((RunState.start 1).renew 1) listingPlan listed).acts
        bareSetting listingMoves) ∧
      w.WellFormed (listOf 0 "urn:p") e.began.scopes.nextFresh 2 (.iri ⟨"urn:s"⟩) ⟨"urn:p"⟩
        [.iri ⟨"urn:one"⟩, .iri ⟨"urn:two"⟩] ∧
      w.WellFormed (listOf 1 "urn:q") e.began.scopes.nextFresh 2 (.iri ⟨"urn:s"⟩) ⟨"urn:q"⟩
        [.iri ⟨"urn:one"⟩, .iri ⟨"urn:two"⟩] ∧
      List.Disjoint (w.nodesOf (listOf 0 "urn:p")) (w.nodesOf (listOf 1 "urn:q")) := by
  let acts := (start ((RunState.start 1).renew 1) listingPlan listed).acts bareSetting listingMoves
  let plan : TriplesPlan := ⟨[], [listOf 0 "urn:p", listOf 1 "urn:q"]⟩
  let values : List Term := [.iri ⟨"urn:one"⟩, .iri ⟨"urn:two"⟩]
  have hrun : ((start ((RunState.start 1).renew 1) listingPlan listed).replay bareSetting
      listingMoves).any (·.isOver) = true := by
    decide +kernel
  obtain ⟨r, hr, hover⟩ := (Option.any_eq_true _ _).mp hrun
  have hfound : (executions bareSetting acts).any (fun e =>
      onlyElement? e.frame.plan == some plan && e.generation.sites.head?.isSome && e.input.size == 2 &&
        (e.writeouts acts)[0]?.any fun w => w.plan == plan &&
          plan.lists.all fun t => w.elementsOf t == values.map some) = true := by
    decide +kernel
  obtain ⟨e, he, hfound⟩ := List.any_eq_true.mp hfound
  simp only [Bool.and_eq_true, Option.isSome_iff_exists, Option.any_eq_true, beq_iff_eq,
    List.all_eq_true] at hfound
  obtain ⟨⟨⟨hform, ⟨c, u⟩, hhead⟩, hsize⟩, w, hw, hplan, hvalues⟩ := hfound
  have hbuild : (Plan.build listing .start).1 = .ok e.frame.plan := by
    rw [eq_of_onlyElement? hform]
    rfl
  obtain ⟨-, -, -, hlists⟩ :=
    (lists_well_formed (RunState.isSound_start 1) 1 _ _ hr rfl he hbuild).2 0 w hw
  have hwell : ∀ (m : Nat) (t : ListTemplate) (predicate : Iri), plan.lists[m]? = some t →
      t.subject = .iri ⟨"urn:s"⟩ →
      t.predicate = .iri predicate →
      w.WellFormed t e.began.scopes.nextFresh 2 (.iri ⟨"urn:s"⟩) predicate values := by
    intro m t predicate ht hsubject hpredicate
    have hone := (hlists m t (hplan ▸ ht)).1 c u (.iri ⟨"urn:s"⟩) predicate values hhead
      (by rw [hsubject]; rfl) (by rw [hpredicate]; rfl) (hvalues t (List.mem_of_getElem? ht))
    exact hsize ▸ hone
  refine ⟨r, e, w, hr, hover, he, List.mem_of_getElem? hw, hwell 0 _ _ rfl rfl rfl,
    hwell 1 _ _ rfl rfl rfl, ?_⟩
  exact (hlists 0 _ (hplan ▸ rfl)).2.1 0 1 w _ hw (hplan ▸ rfl) (by decide)

end Run

end TripleLoom
