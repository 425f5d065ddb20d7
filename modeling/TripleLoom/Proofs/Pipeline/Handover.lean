import TripleLoom.Proofs.Pipeline.Accounts

/-!
# TripleLoom.Proofs.Pipeline.Handover — what a move hands over

When the output of a pipeline starts, its solutions get scopes of their own, and its templates are
written one after the other.  With that the acts of all kinds of parts are known to keep the
accounts (`Pipeline.advances_of_acts`), and so does every move of the tree of tasks, since it makes
one part act and leaves the others as they are (`Pipeline.Standing.step`).
-/

namespace TripleLoom

open RunM

/-! ### The output -/

/-- Triples that were noted for a sink come behind what the sink had got. -/
theorem RunState.output_triples (s : RunState) (scopes : Scopes) (sink : SinkId)
    (triples : List Triple) :
    RunState.output { s with
      scopes
      record := (triples.map fun triple => Event.written sink (.triple triple)).reverse ++
        s.record } sink = s.output sink ++ triples.map .triple := by
  simp [output, List.filterMap_append, List.filterMap_map, Event.writtenTo?,
    List.filterMap_reverse]

/-- Templates written one after the other for some solutions come to the same triples as if they
were written together. -/
theorem instances_flatten_perm (F : Naming) (named : List (ScopeId × Solution)) :
    ∀ templates : List (List TripleTemplate),
      (templates.flatMap fun ts => named.flatMap fun (σ, s) => instances (F σ) s ts).Perm
        (named.flatMap fun (σ, s) => instances (F σ) s templates.flatten)
  | [] => by simp [instances]
  | ts :: rest => by
    rw [List.flatMap_cons, List.flatten_cons]
    refine ((instances_flatten_perm F named rest).append_left _).trans ?_
    refine (List.flatMap_append_perm named _ _).trans (.of_eq ?_)
    refine List.flatMap_congr fun a _ => ?_
    exact (List.filterMap_append ..).symm

namespace Pipeline

variable {P : Pipeline} {leaves : List Nat} {p : Task} {ps qs rs before after : List Task}
variable {s t u : RunState} {named more : List (ScopeId × Solution)}

/-- The solutions of a form whose scopes are as many, with the contexts of their own. -/
theorem sites_eq (fork : Context) (ids : List ScopeId) (input : Sequence) :
    Generation.sites ⟨fork, ids.map fun scope => { fork with scope }, input⟩ =
      (ids.zip input.solutions).map fun (σ, s) => ({ fork with scope := σ }, s) := by
  rw [Generation.sites, List.zip_map_left]
  rfl

/-- The output of a pipeline starts with a scope for each solution. -/
theorem advances_assembling {input : Sequence}
    (hs : P.Standing leaves [.assembling P.frame input] s) :
    ∃ named : List (ScopeId × Solution),
      P.Standing (leaves ++ named.map (·.1))
        (Task.act P.setting (.assembling P.frame input) s).1.parts
        (Task.act P.setting (.assembling P.frame input) s).2 ∧
      P.Advances [.assembling P.frame input] s
        (Task.act P.setting (.assembling P.frame input) s).1.parts
        (Task.act P.setting (.assembling P.frame input) s).2 named := by
  let fork : Context :=
    { P.frame.context with scope := (s.scopes.child P.root).1, fork := s.nextFork, size := input.size }
  let ids := (s.scopes.fork P.root input.size).1
  have hact : Task.act P.setting (.assembling P.frame input) s =
      (.generating ⟨fork, ids.map fun scope => { fork with scope }, input⟩
          (P.templates.map fun ts => .triples ⟨ts, []⟩) .idle [] none,
        { s with
          scopes := (s.scopes.fork P.root input.size).2
          nextFork := s.nextFork + 1 }) := by
    simp only [Task.act, P.postSelect, Frame.assemble, Frame.output, P.output]
    rfl
  obtain ⟨hlayered, hkept⟩ := hs.layered.fork input.size
  have hlength : ids.length = input.solutions.length :=
    (Scopes.forked_fork hs.layered.root_nil input.size).length
  have hfst : (ids.zip input.solutions).map (·.1) = ids :=
    List.map_fst_zip (Nat.le_of_eq hlength)
  have hsnd : (ids.zip input.solutions).map (·.2) = input.solutions :=
    List.map_snd_zip (Nat.le_of_eq hlength.symm)
  rw [hact]
  refine ⟨ids.zip input.solutions, ⟨List.forall_mem_singleton.mpr (.generating rfl), ?_,
    List.forall_mem_singleton.mpr fun site hsite => ?_,
    fun _ => List.forall_mem_singleton.mpr rfl⟩, fun l hl => ?_, hkept,
    fun F _ => ⟨[], (List.append_nil _).symm, ?_⟩⟩
  · rw [hfst]
    exact hlayered
  · rw [hfst]
    rw [Task.sites, sites_eq] at hsite
    obtain ⟨⟨σ, u⟩, hmem, rfl⟩ := List.mem_map.mp hsite
    exact List.mem_append_right _ (List.of_mem_zip hmem).1
  · obtain rfl : l = [] := piecewise_singleton.mp hl
    refine ⟨input.solutions, piecewise_singleton.mpr rfl, ?_⟩
    rw [hsnd, List.append_nil]
  · have hpending : Task.pending F (.generating
        ⟨fork, ids.map fun scope => { fork with scope }, input⟩
        (P.templates.map fun ts => .triples ⟨ts, []⟩) .idle [] none) =
        P.templates.flatMap fun ts => (ids.zip input.solutions).flatMap
          fun (σ, s) => instances (F σ) s ts := by
      rw [Task.pending, Task.sites, sites_eq, Task.templates, PlanNode.templates_map]
      simp only [List.flatMap_map]
    show ([] ++ (Task.pending F _ ++ [])).Perm _
    rw [List.nil_append, List.append_nil, hpending]
    exact instances_flatten_perm F _ P.templates

/-- A `GENERATE` form writes one of its templates after the other. -/
theorem advances_generating {g : Generation} {templates : List (List TripleTemplate)}
    (hs : P.Standing leaves
      [.generating g (templates.map fun ts => .triples ⟨ts, []⟩) .idle [] none] s)
    (hsink : g.fork.sink = P.sink) :
    P.Standing leaves
        (Task.act P.setting
          (.generating g (templates.map fun ts => .triples ⟨ts, []⟩) .idle [] none) s).1.parts
        (Task.act P.setting
          (.generating g (templates.map fun ts => .triples ⟨ts, []⟩) .idle [] none) s).2 ∧
      P.Advances [.generating g (templates.map fun ts => .triples ⟨ts, []⟩) .idle [] none] s
        (Task.act P.setting
          (.generating g (templates.map fun ts => .triples ⟨ts, []⟩) .idle [] none) s).1.parts
        (Task.act P.setting
          (.generating g (templates.map fun ts => .triples ⟨ts, []⟩) .idle [] none) s).2 [] := by
  have hsites : ∀ site ∈ g.sites, site.1.scope ∈ leaves := hs.within _ List.mem_cons_self
  cases templates with
  | nil =>
    show P.Standing leaves [] s ∧ P.Advances _ s [] s []
    refine ⟨⟨by simp, hs.layered, by simp, by simp⟩, fun l hl => ?_, .refl _, fun F _ => ?_⟩
    · obtain rfl : l = [] := hl
      exact ⟨[], piecewise_singleton.mpr rfl, .refl _⟩
    · exact ⟨[], (List.append_nil _).symm, .refl _⟩
  | cons ts rest =>
    obtain ⟨scopes, triples, hstate, hlayered, hkept, htriples⟩ :=
      TriplesPlan.writes_writeAll g.fork ts 0 hsites s hs.layered
    have hact : Task.act P.setting (.generating g
        (PlanNode.triples ⟨ts, []⟩ :: rest.map fun ts => .triples ⟨ts, []⟩) .idle [] none) s =
        (.generating g (rest.map fun ts => .triples ⟨ts, []⟩) .idle [] none,
          (TriplesPlan.writeAll ⟨ts, []⟩ g.fork 0 g.sites s).2) := rfl
    rw [List.map_cons, hact, hstate]
    refine ⟨⟨List.forall_mem_singleton.mpr (.generating hsink), hlayered,
      List.forall_mem_singleton.mpr hsites, fun _ => List.forall_mem_singleton.mpr rfl⟩,
      fun l hl => ?_, hkept, fun F hF => ⟨triples, ?_, ?_⟩⟩
    · obtain rfl : l = [] := piecewise_singleton.mp hl
      exact ⟨[], piecewise_singleton.mpr rfl, .refl _⟩
    · rw [← hsink]
      exact s.output_triples scopes g.fork.sink triples
    · have hpending : Task.pending F (.generating g
          (PlanNode.triples ⟨ts, []⟩ :: rest.map fun ts => .triples ⟨ts, []⟩) .idle [] none) =
          (g.sites.flatMap fun site => instances (F site.1.scope) site.2 ts) ++ Task.pending F
            (.generating g (rest.map fun ts => .triples ⟨ts, []⟩) .idle [] none) := rfl
      rw [htriples F hF, List.flatMap_singleton, hpending]
      show (_ ++ (Task.pending F (.generating g _ .idle [] none) ++ [])).Perm _
      rw [List.append_nil]
      exact .of_eq (List.append_nil _).symm

/-! ### Acts -/

/-- Whatever a part does, it keeps the accounts. -/
theorem advances_of_acts (h : Acts P.setting p s ps t) (hs : P.Standing leaves [p] s)
    (hclosed : t.isClosed = s.isClosed) : ∃ named : List (ScopeId × Solution),
      P.Standing (leaves ++ named.map (·.1)) ps t ∧ P.Advances [p] s ps t named := by
  -- only the output names solutions and writes
  have hsilent : P.Silent p s ps t → p.sites = [] → ∃ named : List (ScopeId × Solution),
      P.Standing (leaves ++ named.map (·.1)) ps t ∧ P.Advances [p] s ps t named :=
    fun hp hsites => ⟨[], by simpa using hp.advances hsites hclosed hs⟩
  have hset := fun hc => hs.settled hc p List.mem_cons_self
  cases hs.fits p List.mem_cons_self with
  | clauses hruns =>
    cases h with
    | here => 
      refine hsilent (silent_clauses hruns fun hc => ?_) rfl
      simpa [Task.isSettledPart] using hset hc
    | item hready => cases hready
  | fetching hruns =>
    cases h with
    | here hready =>
      refine hsilent (silent_fetching hruns (fun hc => ?_) hready) rfl
      have := hset hc
      simp only [Task.isSettledPart, PlanNode.clauses_map, Bool.and_eq_true] at this
      exact this.2
    | item hready =>
      refine hsilent (silent_fetching_item hruns (fun hc => ?_) hready) rfl
      exact (Bool.and_eq_true_iff.mp (hset hc)).1
  | iterating hruns hi =>
    cases h with
    | here hready =>
      refine hsilent (silent_iterating hruns hi (fun hc => ?_) hready) rfl
      simpa [Task.isSettledPart] using hset hc
    | item hready => exact hsilent (silent_iterating_item hruns hi hready) rfl
  | assembling =>
    cases h with
    | here => exact advances_assembling hs
    | item hready => cases hready
  | generating hsink =>
    cases h with
    | here => exact ⟨[], by simpa using advances_generating hs hsink⟩
    | item hready => cases hready

/-! ### Moves -/

/-- A part that fits does not find plans, so its acts leave the run open or closed as it is. -/
theorem isClosed_of_acts (h : Acts P.setting p s ps t) (hp : P.Fits p) :
    t.isClosed = s.isClosed := by
  have hfinding : p.isFinding = false := by cases hp <;> rfl
  cases h with
  | here => exact (Task.isPlain_act P.setting hfinding s).isClosed
  | item => exact (Task.isPlain_actItem P.setting _ p s).isClosed

theorem Advances.frame (h : P.Advances ps s qs t named) (before after : List Task) :
    P.Advances (before ++ ps ++ after) s (before ++ qs ++ after) t named where
  owed l hl := by
    classical
    obtain ⟨front, back, hfront, hback, rfl⟩ := Piecewise.append.mp hl
    obtain ⟨first, second, hfirst, hsecond, rfl⟩ := Piecewise.append.mp hfront
    obtain ⟨l', hl', hperm⟩ := h.owed second hsecond
    refine ⟨first ++ l' ++ back, Piecewise.append.mpr ⟨first ++ l', back,
      Piecewise.append.mpr ⟨first, l', hfirst, hl', rfl⟩, hback, rfl⟩, ?_⟩
    rw [List.perm_iff_count] at hperm ⊢
    intro a
    have := hperm a
    simp only [List.count_append] at this ⊢
    omega
  kept := h.kept
  written F hF := by
    classical
    obtain ⟨triples, houtput, hperm⟩ := h.written F hF
    refine ⟨triples, houtput, ?_⟩
    rw [List.perm_iff_count] at hperm ⊢
    intro a
    have := hperm a
    simp only [List.flatMap_append, List.count_append] at this ⊢
    omega

theorem Advances.trans (h : P.Advances ps s qs t named) (h' : P.Advances qs t rs u more) :
    P.Advances ps s rs u (named ++ more) where
  owed l hl := by
    obtain ⟨l₁, h₁, hperm₁⟩ := h'.owed l hl
    obtain ⟨l₂, h₂, hperm₂⟩ := h.owed l₁ h₁
    refine ⟨l₂, h₂, hperm₂.trans ?_⟩
    rw [List.map_append, List.append_assoc]
    exact hperm₁.append_left _
  kept := h.kept.trans h'.kept
  written F hF := by
    classical
    obtain ⟨first, hfirst, hperm₁⟩ := h.written F (h'.kept.agrees hF)
    obtain ⟨second, hsecond, hperm₂⟩ := h'.written F hF
    refine ⟨first ++ second, ?_, ?_⟩
    · rw [hsecond, hfirst, List.map_append, List.append_assoc]
    · rw [List.perm_iff_count] at hperm₁ hperm₂ ⊢
      intro a
      have h₁ := hperm₁ a
      have h₂ := hperm₂ a
      simp only [List.flatMap_append, List.count_append] at h₁ h₂ ⊢
      omega

theorem Advances.of_still (h : s.Still t) : P.Advances ps s ps t [] where
  owed l hl := ⟨l, hl, .refl l⟩
  kept := by
    rw [h.scopes]
    exact .refl _
  written F _ := ⟨[], by rw [h.output, List.map_nil, List.append_nil], by simp⟩

/-- The parts beside those that act keep standing. -/
theorem Standing.frame (h : P.Standing leaves (before ++ p :: after) s)
    (hq : P.Standing (leaves ++ named.map (·.1)) qs t) (hclosed : t.isClosed = s.isClosed) :
    P.Standing (leaves ++ named.map (·.1)) (before ++ qs ++ after) t := by
  have hcases : ∀ r ∈ before ++ qs ++ after, r ∈ before ++ p :: after ∨ r ∈ qs := fun r hr => by
    simp only [List.mem_append, List.mem_cons] at hr ⊢
    tauto
  refine ⟨fun r hr => ?_, hq.layered, fun r hr site hsite => ?_, fun hc r hr => ?_⟩
  · rcases hcases r hr with hr | hr
    · exact h.fits r hr
    · exact hq.fits r hr
  · rcases hcases r hr with hr | hr
    · exact List.mem_append_left _ (h.within r hr site hsite)
    · exact hq.within r hr site hsite
  · rcases hcases r hr with hr | hr
    · exact h.settled (hclosed ▸ hc) r hr
    · exact hq.settled hc r hr

/-- A move keeps the accounts. -/
theorem Standing.step {move : Move} {task task' : Task} (h : P.Standing leaves task.parts s)
    (hstep : task.step P.setting move s = some (task', t)) :
    ∃ named : List (ScopeId × Solution), P.Standing (leaves ++ named.map (·.1)) task'.parts t ∧
      P.Advances task.parts s task'.parts t named := by
  obtain ⟨before, p, after, ps, hparts, hacts, hrest⟩ := replaces_of_step h.fits hstep
  rw [hparts] at h ⊢
  have hmem : p ∈ before ++ p :: after := List.mem_append_right _ List.mem_cons_self
  have hclosed := isClosed_of_acts hacts (h.fits p hmem)
  have hone : P.Standing leaves [p] s :=
    ⟨List.forall_mem_singleton.mpr (h.fits p hmem), h.layered,
      List.forall_mem_singleton.mpr (h.within p hmem),
      fun hc => List.forall_mem_singleton.mpr (h.settled hc p hmem)⟩
  obtain ⟨named, hstanding, hadvances⟩ := advances_of_acts hacts hone hclosed
  rw [hrest hstanding.fits]
  refine ⟨named, h.frame hstanding hclosed, ?_⟩
  have := hadvances.frame before after
  rwa [List.append_assoc, List.singleton_append] at this

end Pipeline

end TripleLoom
