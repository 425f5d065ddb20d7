import TripleLoom.Proofs.Run.Keeping

/-!
# TripleLoom.Proofs.Generation.Instances — instances of templates, as they are read later

Instantiating a template mints the nodes that are not there yet, writes, and goes on; which node a
label stood for depends on when it was asked.  But nothing is taken back in a sound state, so the
same terms and triples can be read off any later state, where all labels that were minted stand for
their nodes and all lists are made: `TriplesPlan.triplesIn` only looks, and
`TriplesPlan.settles_writeAll` says that it finds what was written.
-/

namespace TripleLoom

open RunM

/-! ### Reading -/

/-- What a label stands for in the scope of a context. -/
def Context.label? (c : Context) (s : RunState) (label : String) : Option BlankNode :=
  s.scopes.node? c.scope label

/-- The nodes of a list of a context's fork, as far as the list is made. -/
def Context.listIn (c : Context) (s : RunState) (list : Nat) : List Term :=
  (s.lists.lookup (c.fork, list)).getD []

/-- The term that a term of a template stands for in a solution, where labels stand for nodes. -/
def TemplateTerm.termIn (labels : String → Option BlankNode) (u : Solution) :
    TemplateTerm → Option Term
  | .iri i => some (.iri i)
  | .blank b => (labels b.label).map .blank
  | .literal l => some (.literal l)
  | .var v => u.get? v

/-- The triple that a template stands for in a solution. -/
def TripleTemplate.tripleIn (labels : String → Option BlankNode) (u : Solution)
    (t : TripleTemplate) : Option Triple := do
  Triple.ofTerms? (← t.subject.termIn labels u) (← t.predicate.termIn labels u)
    (← t.object.termIn labels u)

namespace ListTemplate

variable (labels : String → Option BlankNode) (u : Solution) (t : ListTemplate)

/-- The triple that leads to the first node of a list. -/
def linkIn (node : Term) : Option Triple := do
  Triple.ofTerms? (← t.subject.termIn labels u) (← t.predicate.termIn labels u) node

/-- The triple of the value at a node of a list. -/
def firstIn (node : Term) : Option Triple := do
  Triple.ofTerms? node (.iri (Iri.rdf "first")) (← t.element.termIn labels u)

/-- The triples that the solution at an index contributes to a list with given nodes. -/
def triplesIn (nodes : List Term) (index : Nat) : List Triple :=
  match nodes[index]?, nodes[index + 1]? with
  | some node, some next =>
    (if index = 0 then t.linkIn labels u node else none).toList ++ (t.firstIn labels u node).toList ++
      (Triple.ofTerms? node (.iri (Iri.rdf "rest")) next).toList
  | _, _ => []

/-- What the solution at an index makes of the nodes of a list. -/
def contribute (c : Context) (index : Nat) (u : Solution) (t : ListTemplate) (nodes : List Term) :
    RunM (List Triple) :=
  match nodes[index]?, nodes[index + 1]? with
  | some node, some next => do
    let head ← if index = 0 then t.head c u node else pure none
    let value ← t.element.instantiate c u
    let first := value.bind fun value => Triple.ofTerms? node (.iri (Iri.rdf "first")) value
    let rest := Triple.ofTerms? node (.iri (Iri.rdf "rest")) next
    return head.toList ++ first.toList ++ rest.toList
  | _, _ => return []

theorem instantiate_eq (fork c : Context) (index : Nat) (u : Solution) (t : ListTemplate) :
    t.instantiate fork c index u = fork.listNodes t.id >>= t.contribute c index u := rfl

end ListTemplate

/-- The triples of a solution at an index, with the solution's context. -/
def TriplesPlan.triplesIn (p : TriplesPlan) (fork : Context) (s : RunState)
    (site : (Context × Solution) × Nat) : List Triple :=
  p.triples.filterMap (·.tripleIn (site.1.1.label? s) site.1.2) ++
    p.lists.flatMap fun l => l.triplesIn (site.1.1.label? s) site.1.2 (fork.listIn s l.id) site.2

/-! ### Settling -/

/-- What a computation gives and writes into a sink can be read off any later state. -/
structure RunM.Settles {α : Type} (p : Footprint) (base : RunState) (sink : SinkId) (m : RunM α)
    (value : RunState → α) (writes : RunState → List SinkCall) : Prop where
  keepsTo : KeepsTo p base m
  reads : ∀ s, base.Grows s → s.IsSound → ∀ t, (m s).2.Keeps t →
    (m s).1 = value t ∧ (m s).2.output sink = s.output sink ++ writes t

namespace RunM.Settles

variable {α β : Type} {p : Footprint} {base : RunState} {sink : SinkId} {m : RunM α}
  {v v' : RunState → α} {w w' : RunState → List SinkCall}

theorem pure (a : α) : Settles p base sink (Pure.pure a) (fun _ => a) fun _ => [] :=
  ⟨.pure a, fun _ _ _ _ _ => ⟨rfl, (List.append_nil _).symm⟩⟩

theorem bind {f : α → RunM β} {g : α → RunState → β} {x : α → RunState → List SinkCall}
    (hm : Settles p base sink m v w) (hf : ∀ a, Settles p base sink (f a) (g a) (x a)) :
    Settles p base sink (m >>= f) (fun t => g (v t) t) fun t => w t ++ x (v t) t where
  keepsTo := hm.keepsTo.bind fun a => (hf a).keepsTo
  reads := by
    intro s hs hsound t ht
    have hfirst := hm.keepsTo s hs
    have hgrown := hs.trans hfirst.grows
    have hsound' := hsound.evolves hfirst
    have hsecond := (hf (m s).1).keepsTo _ hgrown
    obtain ⟨hvalue, hwrites⟩ := hm.reads s hs hsound t ((hsound'.keeps hsecond).trans ht)
    obtain ⟨hvalue', hwrites'⟩ := (hf (m s).1).reads _ hgrown hsound' t ht
    rw [← hvalue]
    exact ⟨hvalue', by rw [← List.append_assoc, ← hwrites]; exact hwrites'⟩

theorem of_eq (h : Settles p base sink m v w) (hv : ∀ t, v t = v' t) (hw : ∀ t, w t = w' t) :
    Settles p base sink m v' w' :=
  ⟨h.keepsTo, fun s hs hsound t ht => hv t ▸ hw t ▸ h.reads s hs hsound t ht⟩

/-- One thing behind another, where the first may give nothing, and nothing is written. -/
theorem bindOption {m : RunM (Option α)} {f : Option α → RunM (Option β)}
    {v : RunState → Option α} {g : α → RunState → Option β}
    (hm : Settles p base sink m v fun _ => []) (hnone : f none = Pure.pure none)
    (hf : ∀ a, Settles p base sink (f (some a)) (g a) fun _ => []) :
    Settles p base sink (m >>= f) (fun t => (v t).bind (g · t)) fun _ => [] := by
  refine (hm.bind (g := fun a t => a.bind (g · t)) (x := fun _ _ => []) fun a => ?_).of_eq
    (fun _ => rfl) fun _ => rfl
  cases a with
  | none => exact hnone ▸ .pure none
  | some a => exact hf a

theorem forM {f : α → RunM Unit} {x : α → RunState → List SinkCall} : ∀ {l : List α},
    (∀ a ∈ l, Settles p base sink (f a) (fun _ => ()) (x a)) →
    Settles p base sink (l.forM f) (fun _ => ()) fun t => l.flatMap (x · t)
  | [], _ => .pure ()
  | a :: _, hf => (hf a List.mem_cons_self).bind fun _ =>
    forM fun b hb => hf b (List.mem_cons_of_mem a hb)

theorem write (c : Context) (call : SinkCall) :
    Settles p base c.sink (c.write call) (fun _ => ()) fun _ => [call] := by
  refine ⟨c.keepsTo_write call, fun s _ _ t _ => ⟨rfl, ?_⟩⟩
  show (List.filterMap _ (_ :: s.record)).reverse = _
  rw [List.filterMap_cons_some (b := call) (by simp [Event.writtenTo?]), List.reverse_cons]
  rfl

end RunM.Settles

section Instances

variable {p : Footprint} {base : RunState} {sink : SinkId} {c fork : Context}

theorem Context.settles_mint (hc : c.IsIn base) (h : p.mints c.scope) (label : String) :
    Settles p base sink ((some ·) <$> c.mint label)
      (fun t => (c.label? t label).map .blank) fun _ => [] := by
  refine ⟨.bind (c.keepsTo_mint hc h label) fun _ => .pure _, fun s hs _ t ht => ⟨?_, ?_⟩⟩
  · have hnode := ht.node? c.scope ?_ label _ (Scopes.node?_mint s.scopes c.scope label)
    · show _ = Option.map _ _
      rw [label?, hnode]
      rfl
    · exact Nat.lt_of_lt_of_le hc.scope
        (hs.trans (c.keepsTo_mint (p := .minting [c.scope]) hc List.mem_cons_self label s
          hs).grows).scopes
  · exact (List.append_nil _).symm

theorem Context.settles_listNodes (hf : fork.IsIn base) (h : p.lists fork.fork fork.size)
    (list : Nat) : Settles p base sink (fork.listNodes list) (fork.listIn · list) fun _ => [] := by
  refine ⟨fork.keepsTo_listNodes hf h list, fun s _ _ t ht => ?_⟩
  have hlists := ht.lists (fork.fork, list)
  rw [listIn]
  unfold listNodes at hlists ⊢
  cases hn : s.lists.lookup (fork.fork, list) with
  | some nodes =>
    rw [hn] at hlists
    rw [hlists nodes hn]
    exact ⟨rfl, (List.append_nil _).symm⟩
  | none =>
    rw [hn] at hlists
    rw [hlists _ List.lookup_cons_self]
    exact ⟨rfl, (List.append_nil _).symm⟩

variable (hc : c.IsIn base) (h : p.mints c.scope) (u : Solution)

include hc h

theorem TemplateTerm.settles_instantiate (t : TemplateTerm) :
    Settles p base sink (t.instantiate c u) (fun s => t.termIn (c.label? s) u) fun _ => [] := by
  cases t with
  | blank b => exact c.settles_mint hc h b.label
  | iri | literal | var => exact .pure _

theorem TripleTemplate.settles_instantiate (t : TripleTemplate) :
    Settles p base sink (t.instantiate c u) (fun s => t.tripleIn (c.label? s) u) fun _ => [] :=
  .bindOption (t.subject.settles_instantiate hc h u) rfl fun _ =>
    .bindOption (t.predicate.settles_instantiate hc h u) rfl fun _ =>
      .bindOption (t.object.settles_instantiate hc h u) rfl fun _ => .pure _

theorem ListTemplate.settles_head (node : Term) (t : ListTemplate) :
    Settles p base sink (t.head c u node) (fun s => t.linkIn (c.label? s) u node) fun _ => [] := by
  refine ((t.subject.settles_instantiate hc h u).bind fun subject =>
    (t.predicate.settles_instantiate hc h u).bind
      (g := fun predicate _ => do Triple.ofTerms? (← subject) (← predicate) node)
      (x := fun _ _ => []) fun predicate => ?_).of_eq (fun _ => ?_) fun _ => rfl
  · cases subject <;> cases predicate <;> exact .pure _
  · rfl

theorem ListTemplate.settles_contribute (nodes : List Term) (index : Nat) (t : ListTemplate) :
    Settles p base sink (t.contribute c index u nodes)
      (fun s => t.triplesIn (c.label? s) u nodes index) fun _ => [] := by
  unfold contribute
  split
  · next node next hnode hnext =>
    have htail : ∀ head : Option Triple, Settles p base sink (do
        let value ← t.element.instantiate c u
        let first := value.bind fun value => Triple.ofTerms? node (.iri (Iri.rdf "first")) value
        let rest := Triple.ofTerms? node (.iri (Iri.rdf "rest")) next
        return head.toList ++ first.toList ++ rest.toList)
        (fun s => head.toList ++ (t.firstIn (c.label? s) u node).toList ++
          (Triple.ofTerms? node (.iri (Iri.rdf "rest")) next).toList) fun _ => [] := fun _ =>
      ((t.element.settles_instantiate hc h u).bind fun _ => .pure _).of_eq (fun _ => rfl) fun _ => rfl
    simp only [triplesIn, hnode, hnext]
    split
    · exact ((t.settles_head hc h u node).bind htail).of_eq (fun _ => rfl) fun _ => rfl
    · exact ((Settles.pure none).bind htail).of_eq (fun _ => rfl) fun _ => rfl
  · next hnone =>
    refine (Settles.pure []).of_eq (fun s => ?_) fun _ => rfl
    unfold triplesIn
    split
    · next hnode hnext => exact absurd hnext (hnone _ _ hnode)
    · rfl

variable (hf : fork.IsIn base) (hlists : p.lists fork.fork fork.size)

include hf hlists

theorem ListTemplate.settles_instantiate (index : Nat) (t : ListTemplate) :
    Settles p base sink (t.instantiate fork c index u)
      (fun s => t.triplesIn (c.label? s) u (fork.listIn s t.id) index) fun _ => [] :=
  ((fork.settles_listNodes hf hlists t.id).bind (x := fun _ _ => []) fun nodes =>
    t.settles_contribute hc h u nodes index).of_eq (fun _ => rfl) fun _ => rfl

theorem ListTemplate.keepsTo_instantiate (index : Nat) (t : ListTemplate) :
    KeepsTo p base (t.instantiate fork c index u) :=
  (t.settles_instantiate hc h u hf hlists index : Settles p base fork.sink _ _ _).keepsTo

omit hf hlists in
theorem TriplesPlan.settles_writeTriples (plan : TriplesPlan) :
    Settles p base fork.sink (plan.triples.forM fun t => do
      match ← t.instantiate c u with
      | some triple => fork.write (.triple triple)
      | none => return) (fun _ => ())
      fun s => (plan.triples.filterMap (·.tripleIn (c.label? s) u)).map .triple := by
  refine (Settles.forM (x := fun t s => ((t.tripleIn (c.label? s) u).map SinkCall.triple).toList)
    fun t _ => ?_).of_eq (fun _ => rfl) fun s => ?_
  · refine ((t.settles_instantiate hc h u).bind (g := fun _ _ => ())
      (x := fun triple _ => (triple.map SinkCall.triple).toList) fun triple => ?_).of_eq
        (fun _ => rfl) fun _ => rfl
    cases triple with
    | none => exact .pure ()
    | some triple => exact .write fork _
  · simp only [List.map_flatMap, List.filterMap_eq_flatMap_toList, Option.toList_map]

theorem TriplesPlan.settles_writeLists (index : Nat) (lists : List ListTemplate) :
    Settles p base fork.sink (lists.forM fun t => do
      (← t.instantiate fork c index u).forM fun triple => fork.write (.triple triple)) (fun _ => ())
      fun s => (lists.flatMap fun t =>
        t.triplesIn (c.label? s) u (fork.listIn s t.id) index).map .triple := by
  refine (Settles.forM fun t _ => (t.settles_instantiate hc h u hf hlists index).bind fun triples =>
    .forM fun triple _ => .write fork (.triple triple)).of_eq (fun _ => rfl) fun s => ?_
  simp only [List.map_flatMap, List.nil_append, ← List.map_eq_flatMap]

theorem TriplesPlan.settles_writeOne (index : Nat) (plan : TriplesPlan) :
    Settles p base fork.sink (plan.writeOne fork c index u) (fun _ => ())
      fun s => (plan.triplesIn fork s ((c, u), index)).map .triple :=
  ((plan.settles_writeTriples hc h u).bind fun _ =>
    settles_writeLists hc h u hf hlists index plan.lists).of_eq (fun _ => rfl)
      fun _ => List.map_append.symm

end Instances

/-- What is written can be read off later: for each solution its triples. -/
theorem TriplesPlan.settles_writeAll {p : Footprint} {base : RunState} {fork : Context}
    (hf : fork.IsIn base) (hlists : p.lists fork.fork fork.size) (plan : TriplesPlan) :
    ∀ (index : Nat) {sites : List (Context × Solution)},
      (∀ site ∈ sites, site.1.IsIn base ∧ p.mints site.1.scope) →
      Settles p base fork.sink (plan.writeAll fork index sites) (fun _ => ())
        fun s => ((sites.zipIdx index).flatMap (plan.triplesIn fork s)).map .triple
  | _, [], _ => .pure ()
  | index, (c, u) :: rest, hsites => by
    obtain ⟨hc, h⟩ := hsites _ List.mem_cons_self
    refine ((plan.settles_writeOne hc h u hf hlists index).bind fun _ =>
      settles_writeAll hf hlists plan (index + 1) fun site hs =>
        hsites site (List.mem_cons_of_mem _ hs)).of_eq (fun _ => rfl) fun s => ?_
    rw [List.zipIdx_cons, List.flatMap_cons, List.map_append]

end TripleLoom
