import TripleLoom.Proofs.Pipeline.Minting
import TripleLoom.Proofs.Pipeline.Parts

/-!
# TripleLoom.Proofs.Pipeline.Accounts — nothing is lost and nothing comes twice

Each part of a pipeline's tasks owes solutions to the output (`Pipeline.Owes`), and once it has
become a `GENERATE` form at work, triples to the sink (`Pipeline.pending`).  Whatever part acts, it
passes on to its successors what it owes: what they owe together with the solutions that got a scope
of their own is what it owed, and what they have still to write together with what it wrote is what
it had to write and what those solutions come to (`Pipeline.Advances`).  A close does no harm to
parts that have nothing to wait for (`Task.isSettled`).
-/

namespace TripleLoom

open RunM

/-! ### What the parts are about -/

/-- The clauses among some nodes. -/
def PlanNode.clauses (nodes : List PlanNode) : List BindingClause :=
  nodes.filterMap fun
    | .clause b => some b
    | _ => none

/-- The templates among some nodes. -/
def PlanNode.templates (nodes : List PlanNode) : List (List TripleTemplate) :=
  nodes.filterMap fun
    | .triples p => some p.triples
    | _ => none

@[simp] theorem PlanNode.clauses_map (bs : List BindingClause) :
    clauses (bs.map .clause) = bs := by
  rw [clauses, List.filterMap_map]
  exact List.filterMap_some

@[simp] theorem PlanNode.templates_map (templates : List (List TripleTemplate)) :
    PlanNode.templates (templates.map fun ts => .triples ⟨ts, []⟩) = templates := by
  rw [PlanNode.templates, List.filterMap_map]
  exact List.filterMap_some

/-- Whether a clause only evaluates. -/
def BindingClause.isBind : BindingClause → Bool
  | .bind .. => true
  | .source .. | .iterator .. => false

namespace Task

/-- Whether a close would break nothing off in a part: no document and no stream is waited for, and
none will be. -/
def isSettledPart : Task → Bool
  | .clauses _ nodes _ => (PlanNode.clauses nodes).all BindingClause.isBind
  | .fetching _ nodes _ _ fetches =>
    fetches.all Fetch.isDone && (PlanNode.clauses nodes).all BindingClause.isBind
  | .iterating _ nodes i _ _ =>
    !i.isListening ||
      (i.feeds.all Feed.isOver && (PlanNode.clauses nodes).all BindingClause.isBind)
  | _ => true

/-- Whether a close would break nothing off. -/
def isSettled (t : Task) : Bool := t.parts.all isSettledPart

/-- The solutions of a `GENERATE` form with the contexts of their own. -/
def sites : Task → List (Context × Solution)
  | .generating g .. => g.sites
  | _ => []

/-- The templates that a `GENERATE` form has still to write. -/
def templates : Task → List (List TripleTemplate)
  | .generating _ nodes .. => PlanNode.templates nodes
  | _ => []

/-- The triples that a `GENERATE` form has still to write. -/
def pending (F : Naming) (t : Task) : List Triple :=
  t.templates.flatMap fun ts => t.sites.flatMap fun (c, s) => instances (F c.scope) s ts

theorem pending_of_sites {F : Naming} {t : Task} (h : t.sites = []) : t.pending F = [] := by
  rw [pending, List.flatMap_eq_nil_iff]
  intro ts _
  rw [h, List.flatMap_nil]

end Task

/-- The solution that will come of a fetch. -/
def Fetch.result (resolver : Resolver) (v : Variable) : Fetch → Solution
  | .waiting s uri accept => s.bindValue v ((resolver.fetch? uri accept).map Document.toTerm)
  | .asked s uri accept _ => s.bindValue v ((resolver.fetch? uri accept).map Document.toTerm)
  | .done s => s

/-- In an open run, a fetch goes on towards its result. -/
theorem Fetch.advance_spec (resolver : Resolver) (v : Variable) (f : Fetch) {s : RunState}
    (h : s.isClosed = false) :
    (f.advance resolver v s).1.result resolver v = f.result resolver v ∧
      s.Still (f.advance resolver v s).2 := by
  have hfinish : ∀ (u : Solution) (permit : Nat), (Fetch.finish u permit s).1 = .done u ∧
      s.Still (Fetch.finish u permit s).2 := fun u permit => ⟨rfl, rfl, fun _ => rfl⟩
  cases f with
  | done u => exact ⟨rfl, .refl s⟩
  | waiting u uri accept =>
    have hclosed : s.lifecycle.closed = false := h
    by_cases hnone : s.lifecycle.available = 0
    · have hacquire : s.lifecycle.acquire = (.pending, s.lifecycle) := by
        rw [Lifecycle.acquire, hclosed, hnone]
        rfl
      simp only [advance, bind_apply, RunM.lifecycle, hacquire]
      exact ⟨rfl, rfl, fun _ => rfl⟩
    · have hacquire : s.lifecycle.acquire.1 = .granted s.lifecycle.permits.size := by
        rw [Lifecycle.acquire, hclosed, if_neg (by simp), if_neg hnone]
      simp only [advance, bind_apply, RunM.lifecycle, hacquire]
      refine ⟨rfl, ?_⟩
      refine RunState.Still.trans (t := { s with lifecycle := s.lifecycle.acquire.2 })
        ⟨rfl, fun _ => rfl⟩ (.note _ fun _ => rfl)
  | asked u uri accept permit =>
    simp only [advance, bind_apply, get_apply, h, Bool.false_eq_true, if_false]
    cases hr : resolver uri accept with
    | found document =>
      obtain ⟨hdone, hs⟩ := hfinish (u.overlay v document.toTerm) permit
      refine ⟨?_, hs⟩
      simp only [hdone, result, Resolver.fetch?, hr]
      rfl
    | missing =>
      cases accept with
      | some mediaType =>
        refine ⟨?_, .note s fun _ => rfl⟩
        show u.bindValue v ((resolver.fetch? uri none).map Document.toTerm) = _
        simp only [result, Resolver.fetch?, hr]
        cases resolver uri none <;> rfl
      | none =>
        obtain ⟨hdone, hs⟩ := hfinish u permit
        refine ⟨?_, hs⟩
        simp only [hdone, result, Resolver.fetch?, hr]
        rfl
    | never => exact ⟨rfl, .refl s⟩

namespace Pipeline

variable (P : Pipeline)

/-- The scope of a pipeline. -/
def root : Nat := P.frame.context.scope

/-- The sink of a pipeline. -/
def sink : SinkId := P.frame.context.sink

/-- The solutions that some clauses make of a solution. -/
def loops (bs : List BindingClause) (s : Solution) : List Solution :=
  nestedLoops P.setting.resolver (P.frame.context.evalContext P.setting.functions) P.produce bs s

/-- The solutions that a clause makes of a solution. -/
def results (b : BindingClause) (s : Solution) : List Solution :=
  b.results P.setting.resolver (P.frame.context.evalContext P.setting.functions) P.produce s

/-- The solutions that a part will hand to the output. -/
def Owes : Task → List Solution → Prop
  | .clauses _ nodes input, l => l = input.solutions.flatMap (P.loops (PlanNode.clauses nodes))
  | .fetching _ nodes v _ fetches, l => l =
    (fetches.map (·.result P.setting.resolver v)).flatMap (P.loops (PlanNode.clauses nodes))
  | .iterating _ nodes i _ _, l =>
    ∃ gathered, i.Owes gathered ∧ l = gathered.flatMap (P.loops (PlanNode.clauses nodes))
  | .assembling _ input, l => l = input.solutions
  | _, l => l = []

/-- What holds of the parts of a pipeline at all times. -/
structure Standing (leaves : List Nat) (ps : List Task) (s : RunState) : Prop where
  fits : ∀ p ∈ ps, P.Fits p
  layered : s.scopes.Layered P.root leaves
  within : ∀ p ∈ ps, ∀ site ∈ p.sites, site.1.scope ∈ leaves
  settled : s.isClosed = true → ∀ p ∈ ps, p.isSettledPart = true

/-- What parts become, some solutions getting scopes of their own on the way. -/
structure Advances (ps : List Task) (s : RunState) (qs : List Task) (t : RunState)
    (named : List (ScopeId × Solution)) : Prop where
  owed : ∀ l, Piecewise P.Owes qs l → ∃ l', Piecewise P.Owes ps l' ∧ l'.Perm (named.map (·.2) ++ l)
  kept : s.scopes.Extends t.scopes
  written : ∀ F, t.scopes.Agrees F → ∃ triples : List Triple,
    t.output P.sink = s.output P.sink ++ triples.map .triple ∧
    (triples ++ qs.flatMap (·.pending F)).Perm (ps.flatMap (·.pending F) ++
      named.flatMap fun (σ, s) => instances (F σ) s P.templates.flatten)

variable {P} {leaves : List Nat} {p : Task} {ps qs : List Task} {s t : RunState}

theorem flatMap_loops_nil (l : List Solution) : l.flatMap (P.loops []) = l :=
  List.flatMap_singleton' l

theorem flatMap_loops_cons (b : BindingClause) (bs : List BindingClause) (l : List Solution) :
    l.flatMap (P.loops (b :: bs)) = (l.flatMap (P.results b)).flatMap (P.loops bs) := by
  rw [List.flatMap_assoc]
  rfl

/-! ### Parts that write nothing -/

theorem piecewise_singleton {l : List Solution} : Piecewise P.Owes [p] l ↔ P.Owes p l := by
  constructor
  · rintro ⟨first, -, h, rfl, rfl⟩
    rwa [List.append_nil]
  · exact fun h => ⟨l, [], h, rfl, (List.append_nil l).symm⟩

theorem piecewise_clauses (f : Frame) (nodes : List PlanNode) :
    ∀ {inputs : List Sequence} {l : List Solution},
      Piecewise P.Owes (inputs.map (.clauses f nodes)) l →
        l = (inputs.flatMap (·.solutions)).flatMap (P.loops (PlanNode.clauses nodes))
  | [], _, h => h
  | input :: rest, l, ⟨first, second, hfirst, hsecond, h⟩ => by
    rw [List.flatMap_cons, List.flatMap_append, ← piecewise_clauses f nodes hsecond, h, hfirst]

/-- What comes of a part that neither writes anything nor gives out scopes. -/
structure Silent (P : Pipeline) (p : Task) (s : RunState) (qs : List Task) (t : RunState) :
    Prop where
  still : s.Still t
  fits : ∀ q ∈ qs, P.Fits q
  unnamed : ∀ q ∈ qs, q.sites = []
  settled : s.isClosed = true → ∀ q ∈ qs, q.isSettledPart = true
  owed : ∀ l, Piecewise P.Owes qs l → ∃ l', P.Owes p l' ∧ l'.Perm l

theorem Silent.advances (h : P.Silent p s qs t) (hp : p.sites = [])
    (hclosed : t.isClosed = s.isClosed) (hs : P.Standing leaves [p] s) :
    P.Standing leaves qs t ∧ P.Advances [p] s qs t [] := by
  refine ⟨⟨h.fits, ?_, fun q hq site hsite => ?_, fun hc => ?_⟩, fun l hl => ?_, ?_, fun F _ => ?_⟩
  · rw [h.still.scopes]
    exact hs.layered
  · rw [h.unnamed q hq] at hsite
    cases hsite
  · rw [hclosed] at hc
    exact h.settled hc
  · obtain ⟨l', hl', hperm⟩ := h.owed l hl
    exact ⟨l', piecewise_singleton.mpr hl', hperm⟩
  · rw [h.still.scopes]
    exact .refl _
  · refine ⟨[], by rw [h.still.output, List.map_nil, List.append_nil], ?_⟩
    have hqs : qs.flatMap (·.pending F) = [] :=
      List.flatMap_eq_nil_iff.mpr fun q hq => Task.pending_of_sites (h.unnamed q hq)
    rw [hqs, List.flatMap_cons, Task.pending_of_sites hp]
    exact .refl _

/-- A part that becomes a single silent one. -/
theorem Silent.single {q : Task} (hstill : s.Still t) (hfits : P.Fits q) (hsites : q.sites = [])
    (hsettled : s.isClosed = true → q.isSettledPart = true)
    (howed : ∀ l, P.Owes q l → ∃ l', P.Owes p l' ∧ l'.Perm l) : P.Silent p s [q] t where
  still := hstill
  fits := List.forall_mem_singleton.mpr hfits
  unnamed := List.forall_mem_singleton.mpr hsites
  settled h := List.forall_mem_singleton.mpr (hsettled h)
  owed l hl := howed l (piecewise_singleton.mp hl)

theorem owes_clauses (b : BindingClause) (rest : List BindingClause) (input : Sequence) :
    P.Owes (.clauses P.frame (.clause b :: rest.map .clause) input)
      ((input.solutions.flatMap (P.results b)).flatMap
        (P.loops (PlanNode.clauses (rest.map .clause)))) := by
  rw [PlanNode.clauses_map, ← flatMap_loops_cons, Owes, ← List.map_cons, PlanNode.clauses_map]

section

variable {rest : List BindingClause} {input : Sequence}

theorem silent_bind {e : Expression} {v : Variable} (he : e.callsBnode = false)
    (hrest : ∀ b ∈ rest, b.Runs P.setting.functions)
    (hset : s.isClosed = true → rest.all BindingClause.isBind = true) :
    P.Silent (.clauses P.frame (.clause (.bind e v) :: rest.map .clause) input) s
      (Task.act P.setting
        (.clauses P.frame (.clause (.bind e v) :: rest.map .clause) input) s).1.parts
      (Task.act P.setting
        (.clauses P.frame (.clause (.bind e v) :: rest.map .clause) input) s).2 := by
  have hact : Task.act P.setting
      (.clauses P.frame (.clause (.bind e v) :: rest.map .clause) input) s =
      (.clauses P.frame (rest.map .clause) ((input.declare v).withSolutions
        (input.solutions.map fun s => s.bindValue v
          (e.value? (P.frame.context.evalContext P.setting.functions) s))), s) := by
    simp only [Task.act, Frame.runClauses, P.frame.context.bindAll_eq P.setting.functions he,
      pure_bind]
    rfl
  rw [hact]
  refine .single (.refl s) (.clauses hrest) rfl (fun hc => ?_)
    fun l hl => ⟨_, owes_clauses _ rest input, .of_eq ?_⟩
  · rw [Task.isSettledPart, PlanNode.clauses_map]
    exact hset hc
  · have hresults : input.solutions.flatMap (P.results (.bind e v)) = input.solutions.map
        fun s => s.bindValue v (e.value? (P.frame.context.evalContext P.setting.functions) s) :=
      List.map_eq_flatMap.symm
    rw [hl, hresults, Sequence.solutions_withSolutions]

theorem silent_source {document : IriPattern} {accept : Option IriPattern} {v : Variable}
    (hrest : ∀ b ∈ rest, b.Runs P.setting.functions) (hopen : s.isClosed ≠ true) :
    P.Silent (.clauses P.frame (.clause (.source document accept v) :: rest.map .clause) input) s
      [.fetching P.frame (rest.map .clause) v (input.declare v)
        (input.solutions.map (Fetch.ofSolution document accept))] s := by
  refine .single (.refl s) (.fetching hrest) rfl (fun hc => absurd hc hopen)
    fun l hl => ⟨_, owes_clauses _ rest input, .of_eq ?_⟩
  have hresults : input.solutions.flatMap (P.results (.source document accept v)) =
      (input.solutions.map (Fetch.ofSolution document accept)).map
        (·.result P.setting.resolver v) := by
    rw [List.map_map, List.map_eq_flatMap]
    refine List.flatMap_congr fun u _ => ?_
    rw [results, BindingClause.results, Function.comp_apply, Fetch.ofSolution]
    cases document.text? u <;> rfl
  rw [hl, hresults]

theorem silent_iterator {name : Iri} {arguments : List Expression} {vars : List Variable}
    (hruns : (BindingClause.iterator name arguments vars).Runs P.setting.functions)
    (hrest : ∀ b ∈ rest, b.Runs P.setting.functions) (hopen : s.isClosed ≠ true) :
    P.Silent (.clauses P.frame (.clause (.iterator name arguments vars) :: rest.map .clause)
        input) s
      (Task.act P.setting (.clauses P.frame
        (.clause (.iterator name arguments vars) :: rest.map .clause) input) s).1.parts
      (Task.act P.setting (.clauses P.frame
        (.clause (.iterator name arguments vars) :: rest.map .clause) input) s).2 := by
  obtain ⟨hpure, hknown⟩ := hruns
  obtain ⟨f, hf⟩ := Option.isSome_iff_exists.mp hknown
  have hact : Task.act P.setting (.clauses P.frame
      (.clause (.iterator name arguments vars) :: rest.map .clause) input) s =
      (.iterating P.frame (rest.map .clause) (Iteration.start P.frame.context
          P.setting.functions name f arguments vars input s).1 [] none,
        (Iteration.start P.frame.context P.setting.functions name f arguments vars input
          s).2) := by
    simp only [Task.act, Frame.runClauses, hf, bind_apply, get_apply, hopen]
    rfl
  obtain ⟨hsound, hstill, howed⟩ := Iteration.start_spec P.setting.resolver P.frame.context vars hf
    P.produces (Expression.callBnode_eq_false.mpr hpure) input s
  rw [hact]
  refine .single hstill (.iterating hrest hsound) rfl (fun hc => absurd hc hopen) fun l hl => ?_
  obtain ⟨gathered, hg, rfl⟩ := hl
  exact ⟨_, owes_clauses _ rest input, ((howed gathered hg).flatMap_right _).symm⟩

end

theorem silent_clauses {bs : List BindingClause} {input : Sequence}
    (hruns : ∀ b ∈ bs, b.Runs P.setting.functions)
    (hset : s.isClosed = true → bs.all BindingClause.isBind = true) :
    P.Silent (.clauses P.frame (bs.map .clause) input) s
      (Task.act P.setting (.clauses P.frame (bs.map .clause) input) s).1.parts
      (Task.act P.setting (.clauses P.frame (bs.map .clause) input) s).2 := by
  cases bs with
  | nil =>
    have hact : Task.act P.setting (.clauses P.frame [] input) s =
        (.assembling P.frame input, s) := by
      simp only [Task.act, Frame.runClauses, P.select]
      rfl
    rw [List.map_nil, hact]
    refine .single (.refl s) .assembling rfl (fun _ => rfl) fun l hl => ⟨l, ?_, .refl l⟩
    exact hl.trans (flatMap_loops_nil input.solutions).symm
  | cons b rest =>
    obtain ⟨hb, hrest⟩ := List.forall_mem_cons.mp hruns
    rw [List.map_cons]
    cases b with
    | bind e v => exact silent_bind (hb.1 e List.mem_cons_self) hrest hset
    | source document accept v =>
      exact silent_source hrest fun hc => Bool.false_ne_true (hset hc)
    | iterator name arguments vars =>
      exact silent_iterator hb hrest fun hc => Bool.false_ne_true (hset hc)

theorem silent_fetching {bs : List BindingClause} {v : Variable} {input : Sequence}
    {fetches : List Fetch} (hruns : ∀ b ∈ bs, b.Runs P.setting.functions)
    (hset : s.isClosed = true → bs.all BindingClause.isBind = true)
    (hdone : fetches.all Fetch.isDone = true) :
    P.Silent (.fetching P.frame (bs.map .clause) v input fetches) s
      [.clauses P.frame (bs.map .clause) (input.withSolutions (fetches.map Fetch.solution))] s := by
  refine .single (.refl s) (.clauses hruns) rfl (fun hc => ?_) fun l hl => ⟨l, ?_, .refl l⟩
  · rw [Task.isSettledPart, PlanNode.clauses_map]
    exact hset hc
  · have hresults : fetches.map (·.result P.setting.resolver v) = fetches.map Fetch.solution := by
      refine List.map_congr_left fun f hf => ?_
      have := List.all_eq_true.mp hdone f hf
      cases f with
      | done u => rfl
      | waiting | asked => cases this
    rw [Owes, hresults, hl, Sequence.solutions_withSolutions]

theorem silent_fetching_item {bs : List BindingClause} {v : Variable} {input : Sequence}
    {fetches : List Fetch} {index : Nat} (hruns : ∀ b ∈ bs, b.Runs P.setting.functions)
    (hset : s.isClosed = true → fetches.all Fetch.isDone = true)
    (hready : Fetch.isReadyAt P.setting s.lifecycle fetches index = true) :
    P.Silent (.fetching P.frame (bs.map .clause) v input fetches) s
      (Task.actItem P.setting index (.fetching P.frame (bs.map .clause) v input fetches) s).1.parts
      (Task.actItem P.setting index (.fetching P.frame (bs.map .clause) v input fetches) s).2 := by
  obtain ⟨-, hany⟩ := Bool.and_eq_true_iff.mp hready
  obtain ⟨f, hf, hgo⟩ := (Option.any_eq_true _ _).mp hany
  obtain ⟨hlt, hget⟩ := List.getElem?_eq_some_iff.mp hf
  have hopen : s.isClosed = false := by
    rw [← Bool.not_eq_true]
    intro hc
    have := List.all_eq_true.mp (hset hc) f (hget ▸ List.getElem_mem hlt)
    cases f with
    | done u => cases hgo
    | waiting | asked => cases this
  obtain ⟨hresult, hstill⟩ := f.advance_spec P.setting.resolver v hopen
  have hact : Task.actItem P.setting index (.fetching P.frame (bs.map .clause) v input fetches) s =
      (.fetching P.frame (bs.map .clause) v input
          (fetches.set index (f.advance P.setting.resolver v s).1),
        (f.advance P.setting.resolver v s).2) := by
    simp only [Task.actItem, hf, bind_apply]
    rfl
  rw [hact]
  refine .single hstill (.fetching hruns) rfl
    (fun hc => absurd hc (by rw [hopen]; exact Bool.false_ne_true)) fun l hl => ⟨l, ?_, .refl l⟩
  have hresults : (fetches.set index (f.advance P.setting.resolver v s).1).map
      (·.result P.setting.resolver v) = fetches.map (·.result P.setting.resolver v) := by
    conv_rhs => rw [← List.set_getElem_self hlt]
    rw [List.map_set, List.map_set, hresult, hget]
  rw [Owes, ← hresults]
  exact hl

theorem silent_iterating {bs : List BindingClause} {i : Iteration}
    (hruns : ∀ b ∈ bs, b.Runs P.setting.functions) (hi : i.Sound)
    (hset : s.isClosed = true → i.isListening = false ∨
      i.feeds.all Feed.isOver = true ∧ bs.all BindingClause.isBind = true)
    (hready : (Task.iterating P.frame (bs.map .clause) i [] none).isReady P.setting s = true) :
    P.Silent (.iterating P.frame (bs.map .clause) i [] none) s
      (Task.act P.setting (.iterating P.frame (bs.map .clause) i [] none) s).1.parts
      (Task.act P.setting (.iterating P.frame (bs.map .clause) i [] none) s).2 := by
  have hall : i.feeds.all Feed.isOver = true → ∀ f ∈ i.feeds, f.stream = none :=
    fun hall f hf => Option.isNone_iff_eq_none.mp (List.all_eq_true.mp hall f hf)
  have hover : i.isSilent s.isClosed = true → ∀ f ∈ i.feeds, f.stream = none := fun hsilent => by
    rcases Bool.or_eq_true_iff.mp hsilent with hc | hsilent
    · rcases hset hc with hmute | ⟨hsilent, -⟩
      · exact (hi.mute hmute).2.2
      · exact hall hsilent
    · exact hall hsilent
  by_cases haudible : i.isAudible s.isClosed = true
  · -- what it hears closes batches, which become branches
    rw [Task.act_iterating_of_audible P.setting _ _ _ haudible, List.nil_append, Task.parts,
      Task.partsAll_clauses]
    generalize hw : P.frame.plan.select.isSome = wantsEmpty
    obtain ⟨hvars, hinput, hfeeds⟩ := i.vars_hear wantsEmpty
    refine ⟨.refl s, fun q hq => ?_, fun q hq => ?_, fun hc q hq => ?_, fun l hl => ?_⟩
    · rcases List.mem_append.mp hq with hq | hq
      · obtain ⟨input, -, rfl⟩ := List.mem_map.mp hq
        exact .clauses hruns
      · obtain rfl := List.mem_singleton.mp hq
        refine .iterating hruns (hi.hear (fun hqueue => ?_) wantsEmpty)
        rw [Iteration.isAudible, hqueue] at haudible
        exact hover (Bool.and_eq_true_iff.mp haudible).2
    · rcases List.mem_append.mp hq with hq | hq
      · obtain ⟨input, -, rfl⟩ := List.mem_map.mp hq
        rfl
      · obtain rfl := List.mem_singleton.mp hq
        rfl
    · have hlistening : i.isListening ≠ false := fun hmute => by
        rw [Iteration.isAudible, (hi.mute hmute).1, hmute] at haudible
        cases haudible
      obtain ⟨hsilent, hbind⟩ := (hset hc).resolve_left hlistening
      rcases List.mem_append.mp hq with hq | hq
      · obtain ⟨input, -, rfl⟩ := List.mem_map.mp hq
        rw [Task.isSettledPart, PlanNode.clauses_map]
        exact hbind
      · obtain rfl := List.mem_singleton.mp hq
        rw [Task.isSettledPart, PlanNode.clauses_map, hfeeds, hsilent, hbind]
        exact Bool.or_true _
    · obtain ⟨first, second, hfirst, hsecond, rfl⟩ := Piecewise.append.mp hl
      obtain ⟨gathered, hg, rfl⟩ := piecewise_singleton.mp hsecond
      refine ⟨_, ⟨_, hg.of_hear hi, rfl⟩, .of_eq ?_⟩
      rw [piecewise_clauses P.frame _ hfirst, List.flatMap_append]
  · -- it has heard that no more will come, and so owes nothing when it ends
    rw [Bool.not_eq_true] at haudible
    have hmute : i.isListening = false := by
      rw [Task.isReady, haudible, Bool.false_or] at hready
      simpa using hready
    have hact : Task.act P.setting (.iterating P.frame (bs.map .clause) i [] none) s =
        (.finished none, s) := by
      simp only [Task.act, bind_apply, get_apply, haudible]
      rfl
    rw [hact]
    refine ⟨.refl s, by simp [Task.parts], by simp [Task.parts], by simp [Task.parts],
      fun l hl => ⟨[], ⟨[], hi.owes_of_mute hmute, rfl⟩, .of_eq hl.symm⟩⟩

theorem silent_iterating_item {bs : List BindingClause} {i : Iteration} {index : Nat}
    (hruns : ∀ b ∈ bs, b.Runs P.setting.functions) (hi : i.Sound)
    (hready : i.isReadyAt s.isClosed index = true) :
    P.Silent (.iterating P.frame (bs.map .clause) i [] none) s
      [.iterating P.frame (bs.map .clause) (i.tell index) [] none] s := by
  refine .single (.refl s) (.iterating hruns (hi.tell index)) rfl (fun hc => ?_) fun l hl => ?_
  · rw [Iteration.isReadyAt, hc] at hready
    cases hready
  · obtain ⟨gathered, hg, rfl⟩ := hl
    exact ⟨_, ⟨gathered, hg.of_tell, rfl⟩, .refl _⟩

end Pipeline

end TripleLoom
