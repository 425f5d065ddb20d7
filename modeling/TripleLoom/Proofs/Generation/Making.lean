import TripleLoom.Proofs.Generation.Instances

/-!
# TripleLoom.Proofs.Generation.Making — what writing an element makes

Reading the triples of an element off a later state is one thing; that the nodes they speak of are
there is another.  `RunM.Makes` says of a computation that something holds whatever happens behind it.
So writing makes the nodes of all lists, and a node for every label that a solution asks for: a label
behind a term that is missing is not asked for (`TriplesPlan.askedIn`), and gets no node either
(`RunM.Misses`).
-/

namespace TripleLoom

open RunM

/-! ### What is made -/

/-- Whatever happens after a computation, something holds. -/
def RunM.Makes {α : Type} (base : RunState) (Q : RunState → Prop) (m : RunM α) : Prop :=
  ∀ s, base.Grows s → s.IsSound → ∀ t, (m s).2.Keeps t → Q t

theorem RunM.KeepsTo.option {α β : Type} {p : Footprint} {base : RunState}
    {f : Option α → RunM (Option β)} (hnone : f none = Pure.pure none)
    (hf : ∀ a, KeepsTo p base (f (some a))) : ∀ a, KeepsTo p base (f a)
  | none => hnone ▸ .pure _
  | some a => hf a

namespace RunM.Makes

variable {α β : Type} {p : Footprint} {base : RunState} {sink : SinkId} {m : RunM α}
  {v : RunState → α} {w : RunState → List SinkCall} {Q Q' : RunState → Prop}

theorem mono (h : Makes base Q m) (hQ : ∀ t, Q t → Q' t) : Makes base Q' m :=
  fun s hs hsound t ht => hQ t (h s hs hsound t ht)

theorem bind_left {f : α → RunM β} (hm : Makes base Q m) (hk : KeepsTo p base m)
    (hf : ∀ a, KeepsTo p base (f a)) : Makes base Q (m >>= f) := fun s hs hsound t ht =>
  have hfirst := hk s hs
  have hsecond := hf (m s).1 (m s).2 (hs.trans hfirst.grows)
  hm s hs hsound t (((hsound.evolves hfirst).keeps hsecond).trans ht)

theorem bind_right {f : α → RunM β} (hk : KeepsTo p base m) (hf : ∀ a, Makes base Q (f a)) :
    Makes base Q (m >>= f) := fun s hs hsound t ht =>
  have hfirst := hk s hs
  hf (m s).1 (m s).2 (hs.trans hfirst.grows) (hsound.evolves hfirst) t ht

/-- What comes second may rely on what the first gives, as it is read later. -/
theorem bind_of_settles {f : α → RunM β} (hm : Settles p base sink m v w)
    (hk : ∀ a, KeepsTo p base (f a)) (hf : ∀ a, Makes base (fun t => v t = a → Q t) (f a)) :
    Makes base Q (m >>= f) := fun s hs hsound t ht =>
  have hfirst := hm.keepsTo s hs
  have hgrown := hs.trans hfirst.grows
  have hsound' := hsound.evolves hfirst
  have hkeeps := (hsound'.keeps (hk (m s).1 (m s).2 hgrown)).trans ht
  hf (m s).1 (m s).2 hgrown hsound' t ht (hm.reads s hs hsound t hkeeps).1.symm

theorem bindOption {m : RunM (Option α)} {f : Option α → RunM (Option β)}
    {v : RunState → Option α} (hm : Settles p base sink m v w) (hnone : f none = pure none)
    (hk : ∀ a, KeepsTo p base (f (some a))) (hf : ∀ a, Makes base Q (f (some a))) :
    Makes base (fun t => (v t).isSome → Q t) (m >>= f) := by
  refine bind_of_settles hm (.option hnone hk) fun a => ?_
  cases a with
  | none =>
    intro s _ _ t _ hnone hsome
    rw [hnone] at hsome
    cases hsome
  | some a => exact (hf a).mono fun _ hQ _ _ => hQ

theorem forM {f : α → RunM Unit} {a : α} (hf : ∀ b, KeepsTo p base (f b)) (ha : Makes base Q (f a)) :
    ∀ {l : List α}, a ∈ l → Makes base Q (l.forM f)
  | b :: l, hmem => by
    rcases List.mem_cons.mp hmem with rfl | hmem
    · exact bind_left ha (hf a) fun _ => .forM fun b _ => hf b
    · exact bind_right (hf b) fun _ => forM hf ha hmem

theorem listNodes (c : Context) (list : Nat) :
    Makes base (fun t => ∃ nodes, t.lists.lookup (c.fork, list) = some nodes)
      (c.listNodes list) := by
  intro s _ _ t ht
  have hlists := ht.lists (c.fork, list)
  unfold Context.listNodes at hlists
  cases hn : s.lists.lookup (c.fork, list) with
  | some nodes =>
    rw [hn] at hlists
    exact ⟨nodes, hlists nodes hn⟩
  | none =>
    rw [hn] at hlists
    exact ⟨_, hlists _ List.lookup_cons_self⟩

end RunM.Makes

/-- The labels of a template's term. -/
def TemplateTerm.labels : TemplateTerm → List String
  | .blank b => [b.label]
  | _ => []

/-- The labels that a triple asks for in a solution: its terms are found one after the other, up to
the first that is missing. -/
def TripleTemplate.askedIn (labels : String → Option BlankNode) (u : Solution)
    (t : TripleTemplate) : List String :=
  t.subject.labels ++
    if (t.subject.termIn labels u).isSome then
      t.predicate.labels ++ if (t.predicate.termIn labels u).isSome then t.object.labels else []
    else []

/-- The labels that the solution at an index asks for in a list. -/
def ListTemplate.askedIn (index : Nat) (t : ListTemplate) : List String :=
  (if index = 0 then t.subject.labels ++ t.predicate.labels else []) ++ t.element.labels

/-- The labels that an element asks for in the solution at an index. -/
def TriplesPlan.askedIn (p : TriplesPlan) (labels : String → Option BlankNode) (u : Solution)
    (index : Nat) : List String :=
  p.triples.flatMap (·.askedIn labels u) ++ p.lists.flatMap (·.askedIn index)

section Asked

variable {p : Footprint} {base : RunState} {c fork : Context} {label : String} (hc : c.IsIn base)
  (h : p.mints c.scope) (u : Solution)

include hc h

theorem TemplateTerm.makes_instantiate {t : TemplateTerm} (hl : label ∈ t.labels) :
    Makes base (fun s => ∃ node, c.label? s label = some node) (t.instantiate c u) := by
  cases t with
  | blank b =>
    obtain rfl := List.mem_singleton.mp hl
    intro s hs hsound s' hs'
    have hvalue := ((c.settles_mint hc h b.label : Settles p base c.sink _ _ _).reads s hs hsound s'
      hs').1
    cases hnode : c.label? s' b.label with
    | some node => exact ⟨node, rfl⟩
    | none =>
      rw [hnode] at hvalue
      exact (Option.some_ne_none _ hvalue).elim
  | iri | literal | var => cases hl

/-- A triple has nodes for the labels that it asks for. -/
theorem TripleTemplate.makes_instantiate (t : TripleTemplate) (label : String) :
    Makes base (fun s => label ∈ t.askedIn (c.label? s) u → ∃ node, c.label? s label = some node)
      (t.instantiate c u) := by
  have hsubject : Settles p base c.sink _ _ _ := t.subject.settles_instantiate hc h u
  have hpredicate : Settles p base c.sink _ _ _ := t.predicate.settles_instantiate hc h u
  have hobject : Settles p base c.sink _ _ _ := t.object.settles_instantiate hc h u
  have hfirst (hl : label ∈ t.subject.labels) :
      Makes base (fun s => ∃ node, c.label? s label = some node) (t.instantiate c u) :=
    .bind_left (t.subject.makes_instantiate hc h u hl) hsubject.keepsTo <|
      .option rfl fun _ => hpredicate.keepsTo.bind <| .option rfl fun _ =>
        hobject.keepsTo.bind <| .option rfl fun _ => .pure _
  have hsecond (hl : label ∈ t.predicate.labels) :
      Makes base (fun s => (t.subject.termIn (c.label? s) u).isSome →
        ∃ node, c.label? s label = some node) (t.instantiate c u) :=
    .bindOption hsubject rfl (fun _ => hpredicate.keepsTo.bind <| .option rfl fun _ =>
        hobject.keepsTo.bind <| .option rfl fun _ => .pure _) fun _ =>
      .bind_left (t.predicate.makes_instantiate hc h u hl) hpredicate.keepsTo <|
        .option rfl fun _ => hobject.keepsTo.bind <| .option rfl fun _ => .pure _
  have hthird (hl : label ∈ t.object.labels) :
      Makes base (fun s => (t.subject.termIn (c.label? s) u).isSome →
        (t.predicate.termIn (c.label? s) u).isSome → ∃ node, c.label? s label = some node)
        (t.instantiate c u) :=
    .bindOption hsubject rfl (fun _ => hpredicate.keepsTo.bind <| .option rfl fun _ =>
        hobject.keepsTo.bind <| .option rfl fun _ => .pure _) fun _ =>
      .bindOption hpredicate rfl (fun _ => hobject.keepsTo.bind <| .option rfl fun _ => .pure _)
        fun _ => .bind_left (t.object.makes_instantiate hc h u hl) hobject.keepsTo <|
          .option rfl fun _ => .pure _
  intro s hs hsound s' hs' hasked
  rcases List.mem_append.mp hasked with hl | hl
  · exact hfirst hl s hs hsound s' hs'
  · split at hl
    · next hsome =>
      rcases List.mem_append.mp hl with hl | hl
      · exact hsecond hl s hs hsound s' hs' hsome
      · split at hl
        · next hsome' => exact hthird hl s hs hsound s' hs' hsome hsome'
        · cases hl
    · cases hl

theorem ListTemplate.makes_head (node : Term) {t : ListTemplate}
    (hl : label ∈ t.subject.labels ++ t.predicate.labels) :
    Makes base (fun s => ∃ node, c.label? s label = some node) (t.head c u node) := by
  have hsubject : Settles p base c.sink _ _ _ := t.subject.settles_instantiate hc h u
  have hpredicate : Settles p base c.sink _ _ _ := t.predicate.settles_instantiate hc h u
  rcases List.mem_append.mp hl with hl | hl
  · refine .bind_left (t.subject.makes_instantiate hc h u hl) hsubject.keepsTo fun subject =>
      hpredicate.keepsTo.bind fun predicate => ?_
    cases subject <;> cases predicate <;> exact .pure _
  · refine .bind_right hsubject.keepsTo fun subject =>
      .bind_left (t.predicate.makes_instantiate hc h u hl) hpredicate.keepsTo fun predicate => ?_
    cases subject <;> cases predicate <;> exact .pure _

theorem ListTemplate.makes_contribute {nodes : List Term} {index : Nat} {t : ListTemplate}
    (hl : label ∈ t.askedIn index) (hlong : index + 1 < nodes.length) :
    Makes base (fun s => ∃ node, c.label? s label = some node) (t.contribute c index u nodes) := by
  have helement : Settles p base c.sink _ _ _ := t.element.settles_instantiate hc h u
  have hhead : ∀ node : Term, KeepsTo p base (t.head c u node) := fun node =>
    (t.settles_head hc h u node : Settles p base c.sink _ _ _).keepsTo
  rw [contribute, List.getElem?_eq_getElem (Nat.lt_of_succ_lt hlong),
    List.getElem?_eq_getElem hlong]
  dsimp only
  rcases List.mem_append.mp hl with hl | hl
  · split at hl
    · next hzero =>
      rw [if_pos hzero]
      exact .bind_left (t.makes_head hc h u _ hl) (hhead _) fun _ =>
        helement.keepsTo.bind fun _ => .pure _
    · cases hl
  · have hmakes := t.element.makes_instantiate hc h u hl
    split
    · exact .bind_right (hhead _) fun _ => .bind_left hmakes helement.keepsTo fun _ => .pure _
    · exact .bind_right (p := p) (.pure none) fun _ => .bind_left hmakes helement.keepsTo fun _ => .pure _

variable (hf : fork.IsIn base) (hlists : p.lists fork.fork fork.size)

include hf hlists

/-- A list has nodes for the labels that it asks for, if it reaches to the solution. -/
theorem ListTemplate.makes_instantiate {index : Nat} {t : ListTemplate}
    (hl : label ∈ t.askedIn index) :
    Makes base (fun s => index + 1 < (fork.listIn s t.id).length →
      ∃ node, c.label? s label = some node) (t.instantiate fork c index u) := by
  have hcontribute : ∀ nodes : List Term, KeepsTo p base (t.contribute c index u nodes) :=
    fun nodes => (t.settles_contribute hc h u nodes index : Settles p base c.sink _ _ _).keepsTo
  rw [t.instantiate_eq]
  refine .bind_of_settles (fork.settles_listNodes hf hlists t.id : Settles p base c.sink _ _ _)
    hcontribute fun nodes => ?_
  by_cases hlong : index + 1 < nodes.length
  · exact (t.makes_contribute hc h u hl hlong).mono fun _ hnode _ _ => hnode
  · exact fun _ _ _ _ _ heq hlong' => absurd (heq ▸ hlong') hlong

/-- A list is made when one of its pieces is. -/
theorem ListTemplate.makes_list (index : Nat) (t : ListTemplate) :
    Makes base (fun s => ∃ nodes, s.lists.lookup (fork.fork, t.id) = some nodes)
      (t.instantiate fork c index u) := by
  rw [t.instantiate_eq]
  exact .bind_left (.listNodes fork t.id) (fork.keepsTo_listNodes hf hlists t.id) fun nodes =>
    (t.settles_contribute hc h u nodes index : Settles p base c.sink _ _ _).keepsTo

theorem TriplesPlan.makes_writeOne_of_triple {Q : RunState → Prop} {plan : TriplesPlan}
    {t : TripleTemplate} (ht : t ∈ plan.triples) (hmakes : Makes base Q (t.instantiate c u))
    (index : Nat) : Makes base Q (plan.writeOne fork c index u) := by
  have htriple : ∀ b : TripleTemplate, KeepsTo p base (b.instantiate c u) := fun b =>
    (b.settles_instantiate hc h u : Settles p base c.sink _ _ _).keepsTo
  have hall : KeepsTo p base _ := (plan.settles_writeTriples hc h u :
    Settles p base fork.sink _ _ _).keepsTo
  refine .bind_left (.forM (fun b => (htriple b).bind fun triple => ?_)
    (.bind_left hmakes (htriple t) fun triple => ?_) ht) hall fun _ =>
      (settles_writeLists hc h u hf hlists index plan.lists).keepsTo
  all_goals
    cases triple with
    | none => exact .pure _
    | some triple => exact fork.keepsTo_write _

theorem TriplesPlan.makes_writeOne_of_list {Q : RunState → Prop} {plan : TriplesPlan}
    {index : Nat} {t : ListTemplate} (ht : t ∈ plan.lists)
    (hmakes : Makes base Q (t.instantiate fork c index u)) :
    Makes base Q (plan.writeOne fork c index u) := by
  have hlist : ∀ b : ListTemplate, KeepsTo p base (do
      (← b.instantiate fork c index u).forM fun triple => fork.write (.triple triple)) := fun b =>
    (b.keepsTo_instantiate hc h u hf hlists index).bind fun _ =>
      .forM fun _ _ => fork.keepsTo_write _
  exact .bind_right (plan.settles_writeTriples hc h u).keepsTo fun _ =>
    .forM hlist (.bind_left hmakes (t.keepsTo_instantiate hc h u hf hlists index) fun _ =>
      .forM fun _ _ => fork.keepsTo_write _) ht

end Asked

/-- What the triples of one solution make is made when those of all are written. -/
theorem TriplesPlan.makes_writeAll {p : Footprint} {base : RunState} {fork : Context}
    (hf : fork.IsIn base) (hlists : p.lists fork.fork fork.size) (plan : TriplesPlan)
    {Q : RunState → Prop} : ∀ {index : Nat} {sites : List (Context × Solution)},
      (∀ site ∈ sites, site.1.IsIn base ∧ p.mints site.1.scope) →
      ∀ site ∈ sites.zipIdx index, Makes base Q (plan.writeOne fork site.1.1 site.2 site.1.2) →
      Makes base Q (plan.writeAll fork index sites)
  | index, (c, u) :: rest, hsites, site, hsite, hmakes => by
    obtain ⟨hc, h⟩ := hsites _ List.mem_cons_self
    have hone : KeepsTo p base (plan.writeOne fork c index u) :=
      (plan.settles_writeOne hc h u hf hlists index).keepsTo
    have hrest : ∀ site ∈ rest, site.1.IsIn base ∧ p.mints site.1.scope :=
      fun site hs => hsites site (List.mem_cons_of_mem _ hs)
    rw [List.zipIdx_cons] at hsite
    rcases List.mem_cons.mp hsite with rfl | hlater
    · exact .bind_left hmakes hone fun _ =>
        (plan.settles_writeAll hf hlists (index + 1) hrest).keepsTo
    · exact .bind_right hone fun _ => makes_writeAll hf hlists plan hrest site hlater hmakes

/-- Once all is written there are nodes for all labels that were asked for. -/
theorem TriplesPlan.exists_label {p : Footprint} {base s s' : RunState} {fork : Context}
    (hf : fork.IsIn base) (hlists : p.lists fork.fork fork.size) (plan : TriplesPlan)
    {index : Nat} {sites : List (Context × Solution)}
    (hsites : ∀ site ∈ sites, site.1.IsIn base ∧ p.mints site.1.scope) (hs : base.Grows s)
    (hsound : s.IsSound) (hs' : (plan.writeAll fork index sites s).2.Keeps s')
    {site : (Context × Solution) × Nat} (hsite : site ∈ sites.zipIdx index) {label : String}
    (hlabel : label ∈ plan.askedIn (site.1.1.label? s') site.1.2 site.2)
    (hlong : ∀ t ∈ plan.lists, site.2 + 1 < (fork.listIn s' t.id).length) :
    ∃ node, site.1.1.label? s' label = some node := by
  obtain ⟨hc, h⟩ := hsites site.1 (List.fst_mem_of_mem_zipIdx hsite)
  rcases List.mem_append.mp hlabel with hl | hl
  · obtain ⟨t, ht, hl⟩ := List.mem_flatMap.mp hl
    have hmakes := makes_writeOne_of_triple hc h site.1.2 hf hlists ht
      (t.makes_instantiate hc h site.1.2 label) site.2
    exact plan.makes_writeAll hf hlists hsites site hsite hmakes s hs hsound s' hs' hl
  · obtain ⟨t, ht, hl⟩ := List.mem_flatMap.mp hl
    have hmakes := makes_writeOne_of_list hc h site.1.2 hf hlists ht
      (t.makes_instantiate hc h site.1.2 hf hlists hl)
    exact plan.makes_writeAll hf hlists hsites site hsite hmakes s hs hsound s' hs' (hlong t ht)

/-! ### What is not made -/

/-- Gives no node to a label in a scope. -/
def RunM.Misses {α : Type} (key : ScopeId × String) (m : RunM α) : Prop :=
  ∀ s, (m s).2.scopes.minted.lookup key = s.scopes.minted.lookup key

namespace RunM.Misses

variable {α β : Type} {key : ScopeId × String} {m : RunM α}

theorem pure (a : α) : Misses key (Pure.pure a) := fun _ => rfl

theorem bind {f : α → RunM β} (hm : Misses key m) (hf : ∀ a, Misses key (f a)) :
    Misses key (m >>= f) := fun s => (hf (m s).1 (m s).2).trans (hm s)

theorem forM {f : α → RunM Unit} : ∀ {l : List α}, (∀ a ∈ l, Misses key (f a)) →
    Misses key (l.forM f)
  | [], _ => .pure _
  | _ :: _, hf => .bind (hf _ List.mem_cons_self) fun _ =>
    forM fun b hb => hf b (List.mem_cons_of_mem _ hb)

theorem write (c : Context) (call : SinkCall) : Misses key (c.write call) := fun _ => rfl

theorem listNodes (c : Context) (list : Nat) : Misses key (c.listNodes list) := by
  intro s
  unfold Context.listNodes
  cases s.lists.lookup (c.fork, list) with
  | some nodes => rfl
  | none => rw [Scopes.allocateList_eq]

/-- A label is minted in the scope of the context and nowhere else. -/
theorem mint {c : Context} {label : String} (h : (c.scope, label) ≠ key) :
    Misses key (c.mint label) := by
  intro s
  show (s.scopes.mint c.scope label).2.minted.lookup key = _
  rcases s.scopes.minted_mint_cases c.scope label with he | ⟨-, he⟩ <;> rw [he]
  rw [List.lookup_cons, beq_false_of_ne h.symm]

end RunM.Misses

section Missed

variable {key : ScopeId × String} {c fork : Context} {u : Solution}
  {labels : String → Option BlankNode}

theorem TemplateTerm.misses_instantiate {t : TemplateTerm} (h : ∀ l ∈ t.labels, (c.scope, l) ≠ key) :
    Misses key (t.instantiate c u) := by
  cases t with
  | blank b => exact .bind (.mint (h _ List.mem_cons_self)) fun _ => .pure _
  | iri | literal | var => exact .pure _

/-- Only a variable can be missing once there are nodes for the labels. -/
theorem TemplateTerm.instantiate_of_missing {t : TemplateTerm}
    (hknown : ∀ l ∈ t.labels, (labels l).isSome) (hnone : t.termIn labels u = none) :
    t.instantiate c u = pure none := by
  cases t with
  | blank b =>
    obtain ⟨node, hnode⟩ := Option.isSome_iff_exists.mp (hknown _ List.mem_cons_self)
    rw [termIn, hnode] at hnone
    cases hnone
  | iri | literal => cases hnone
  | var v =>
    show (pure (u.get? v) : RunM (Option Term)) = _
    rw [show u.get? v = none from hnone]

/-- A triple gives no node to a label that it does not ask for. -/
theorem TripleTemplate.misses_instantiate {t : TripleTemplate}
    (hknown : ∀ l ∈ t.askedIn labels u, (labels l).isSome)
    (h : ∀ l ∈ t.askedIn labels u, (c.scope, l) ≠ key) : Misses key (t.instantiate c u) := by
  unfold askedIn at hknown h
  rw [List.forall_mem_append] at hknown h
  unfold instantiate
  cases hs : t.subject.termIn labels u with
  | none =>
    rw [t.subject.instantiate_of_missing hknown.1 hs]
    exact .pure none
  | some subject =>
    rw [hs, Option.isSome_some, if_pos rfl, List.forall_mem_append] at hknown h
    refine .bind (t.subject.misses_instantiate h.1) fun subject => ?_
    cases subject with
    | none => exact .pure none
    | some subject =>
      cases hp : t.predicate.termIn labels u with
      | none =>
        rw [t.predicate.instantiate_of_missing hknown.2.1 hp]
        exact .pure none
      | some predicate =>
        rw [hp, Option.isSome_some, if_pos rfl] at h
        refine .bind (t.predicate.misses_instantiate h.2.1) fun predicate => ?_
        cases predicate with
        | none => exact .pure none
        | some predicate =>
          refine .bind (t.object.misses_instantiate h.2.2) fun object => ?_
          cases object <;> exact .pure _

/-- A list gives no node to a label that it does not ask for. -/
theorem ListTemplate.misses_instantiate {index : Nat} {t : ListTemplate}
    (h : ∀ l ∈ t.askedIn index, (c.scope, l) ≠ key) :
    Misses key (t.instantiate fork c index u) := by
  obtain ⟨hhead, helement⟩ := List.forall_mem_append.mp h
  refine .bind (.listNodes fork t.id) fun nodes => ?_
  split
  · next node _ _ _ =>
    split
    · next hzero =>
      rw [if_pos hzero, List.forall_mem_append] at hhead
      have hlink : Misses key (t.head c u node) := by
        refine .bind (t.subject.misses_instantiate hhead.1) fun subject =>
          .bind (t.predicate.misses_instantiate hhead.2) fun predicate => ?_
        cases subject <;> cases predicate <;> exact .pure _
      exact .bind hlink fun _ => .bind (t.element.misses_instantiate helement) fun _ => .pure _
    · exact .bind (.pure none) fun _ =>
        .bind (t.element.misses_instantiate helement) fun _ => .pure _
  · exact .pure []

theorem TriplesPlan.misses_writeOne {index : Nat} {p : TriplesPlan}
    (hknown : ∀ l ∈ p.askedIn labels u index, (labels l).isSome)
    (h : ∀ l ∈ p.askedIn labels u index, (c.scope, l) ≠ key) :
    Misses key (p.writeOne fork c index u) := by
  refine .bind (.forM fun t ht => ?_) fun _ => .forM fun t ht => ?_
  · have hsub : t.askedIn labels u ⊆ p.askedIn labels u index := fun l hl =>
      List.mem_append_left _ (List.mem_flatMap.mpr ⟨t, ht, hl⟩)
    refine .bind (t.misses_instantiate (fun l hl => hknown l (hsub hl)) fun l hl => h l (hsub hl))
      fun triple => ?_
    cases triple with
    | none => exact .pure _
    | some triple => exact .write fork _
  · refine .bind (t.misses_instantiate fun l hl => h l ?_) fun _ => .forM fun _ _ => .write fork _
    exact List.mem_append_right _ (List.mem_flatMap.mpr ⟨t, ht, hl⟩)

/-- Writing the triples of some solutions gives no node to a label that none asks for in its scope. -/
theorem TriplesPlan.misses_writeAll (p : TriplesPlan) : ∀ {index : Nat}
    {sites : List (Context × Solution)}, (∀ site ∈ sites.zipIdx index,
      ∃ labels : String → Option BlankNode, ∀ l ∈ p.askedIn labels site.1.2 site.2,
        (labels l).isSome ∧ (site.1.1.scope, l) ≠ key) → Misses key (p.writeAll fork index sites)
  | _, [], _ => .pure _
  | index, (c, u) :: rest, h => by
    obtain ⟨labels, hlabels⟩ := h ((c, u), index) List.mem_cons_self
    exact .bind (p.misses_writeOne (fun l hl => (hlabels l hl).1) fun l hl => (hlabels l hl).2)
      fun _ => misses_writeAll p fun site hs => h site (List.mem_cons_of_mem _ hs)

end Missed

end TripleLoom
