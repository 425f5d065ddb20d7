import TripleLoom.Proofs.Query.Omission

/-!
# TripleLoom.Proofs.Query.Projection — the variables that an engine is asked for

The query for an engine projects its solutions once, below what drops duplicates and cuts
(`Select.projection?_toQuery`), on variables that are declared one after the other, so each stands
where it first occurs (`Variable.declareAll_eq_eraseDups`).  What they are depends on the form and
on the grouping of the query that the select part is compiled from (`Plan.projects_variables`).
-/

namespace TripleLoom

/-! ### Declared variables -/

/-- Declaring variables one after the other keeps each where it first occurs. -/
theorem Variable.declareAll_eq_eraseDups (vars : List Variable) :
    declareAll [] vars = vars.eraseDups := by
  have hbehind : ∀ (more declared : List Variable),
      declareAll declared more = declared ++ (more.filter (· ∉ declared)).eraseDups := by
    intro more
    induction more with
    | nil => simp [declareAll]
    | cons v more ih =>
      intro declared
      have hstep : declareAll declared (v :: more) = declareAll (declare declared v) more := rfl
      rw [hstep, declare]
      by_cases hv : v ∈ declared
      · rw [if_pos hv, ih, List.filter_cons_of_neg (by simpa using hv)]
      · rw [if_neg hv, ih, List.filter_cons_of_pos (by simpa using hv), List.eraseDups_cons,
          List.filter_filter, List.append_assoc, List.singleton_append]
        -- what is neither declared nor the new variable
        congr 4
        funext w
        by_cases hw : w = v <;> simp [hw]
  rw [hbehind, List.nil_append]
  congr 1
  exact List.filter_eq_self.mpr fun v _ => by simp

/-! ### Projections -/

/-- The variables that the solutions of a pattern are projected on, before duplicates are dropped
and the rest is cut. -/
def GraphPattern.projection? : GraphPattern → Option (List Variable)
  | .project _ vars => some vars
  | .distinct inner | .reduced inner | .slice inner _ _ => inner.projection?
  | .bgp _ | .path .. | .join .. | .leftJoin .. | .filter .. | .union .. | .graph .. | .extend ..
  | .minus .. | .values _ | .orderBy .. | .group .. | .service .. => none

namespace Select

variable (s : Select)

theorem projection?_sliced (pattern : GraphPattern) :
    (s.sliced pattern).projection? = pattern.projection? := by
  unfold sliced
  split <;> rfl

theorem projection?_deduplicated (pattern : GraphPattern) :
    (s.deduplicated pattern).projection? = pattern.projection? := by
  unfold deduplicated
  split
  · rfl
  · split <;> rfl

/-- What the engine is asked for is projected on the variables of the result. -/
theorem projection?_toQuery (inline : Sequence) :
    (s.toQuery inline).pattern.projection? = some (s.projected inline.vars) := by
  rw [toQuery, projection?_sliced, projection?_deduplicated]
  rfl

theorem nodup_projected (input : List Variable) : (s.projected input).Nodup :=
  Variable.nodup_declareAll List.nodup_nil _

/-- An explicit projection counts alone, unless the variables of the inline solutions are kept. -/
theorem projected_of_projection {items : List ProjectionItem} (h : s.projection = some items)
    (hkeep : s.keepInput = false) (input : List Variable) :
    s.projected input = (items.map (·.name)).eraseDups := by
  simp [projected, h, hkeep, Variable.declareAll_eq_eraseDups]

/-- Without an explicit projection a grouping shows what it groups by and what it computes. -/
theorem projected_of_group {g : Grouping} (h : s.projection = none) (hg : s.group = some g)
    (input : List Variable) :
    s.projected input = (g.vars ++ g.aggregates.map (·.1)).eraseDups := by
  simp [projected, h, hg, Variable.declareAll_eq_eraseDups]

/-- With neither, all variables of the inline solutions and of the pattern are shown. -/
theorem mem_projected (h : s.projection = none) (hg : s.group = none) {input : List Variable}
    {v : Variable} : v ∈ s.projected input ↔ v ∈ input ∨ v ∈ s.pattern.inScope := by
  rw [projected, Variable.mem_declareAll, h, hg]
  cases s.keepInput <;> simp [or_comm]

end Select

/-! ### Compiled queries -/

namespace Query

/-- The pattern of a query with its table binds what either of them binds. -/
theorem mem_inScope_wholePattern {q : Query} {v : Variable} : v ∈ q.wholePattern.inScope ↔
    (∃ pattern, q.pattern = some pattern ∧ v ∈ pattern.inScope) ∨
      ∃ table, q.modifiers.values = some table ∧ v ∈ table.vars := by
  have hpattern : v ∈ (q.pattern.getD (.bgp [])).inScope ↔
      ∃ pattern, q.pattern = some pattern ∧ v ∈ pattern.inScope := by
    cases q.pattern <;> simp [GraphPattern.inScope]
  rw [← hpattern, wholePattern]
  cases q.modifiers.values with
  | none => simp
  | some table =>
    dsimp only
    split
    · next hempty =>
      -- the empty pattern binds nothing
      rw [of_decide_eq_true hempty]
      simp [GraphPattern.inScope]
    · simp [GraphPattern.inScope]

theorem grouping_eq_none {q : Query} (hg : q.modifiers.groupBy = [])
    (ha : q.modifiers.aggregates = []) : q.grouping = none := by
  rw [grouping, hg, ha]
  rfl

theorem grouping_eq_some {q : Query}
    (h : q.modifiers.groupBy ≠ [] ∨ q.modifiers.aggregates ≠ []) :
    q.grouping = some ⟨q.modifiers.groupBy, q.modifiers.aggregates⟩ := by
  rw [grouping, if_neg]
  simpa [Classical.or_iff_not_imp_left] using h

end Query

namespace Plan

theorem wholeSelect_of_build {q : Query} {n : Numbering} {p : Plan} {s : Select}
    (h : (build q n).1 = .ok p) (hs : p.select = some (.select s)) : s = q.wholeSelect := by
  rw [select_of_build h] at hs
  split at hs
  · cases hs
  · cases hs
    rfl

/-- **What an engine is asked for.**  The query that is made of the select part of a compiled query
and of some inline solutions projects on the variables that its result is to declare, each of them
once.  Those of a `GENERATE` or `TEMPLATE` query that groups nothing are the declared variables of
the inline solutions and all that the pattern and the table of the query bind.  Where a query groups
and projects nothing by name, they are what it groups by and then its aggregates; and where a
`SELECT` form projects by name, the variables that it names; each where it first occurs. -/
theorem projects_variables {q : Query} {n : Numbering} {p : Plan} {s : Select}
    (h : (build q n).1 = .ok p) (hs : p.select = some (.select s)) (inline : Sequence) :
    let shown := s.projected inline.vars
    ((s.toQuery inline).pattern.projection? = some shown ∧ shown.Nodup) ∧
    (q.form.isSelect = false → q.modifiers.groupBy = [] → q.modifiers.aggregates = [] →
      ∀ v, v ∈ shown ↔ v ∈ inline.vars ∨
        (∃ pattern, q.pattern = some pattern ∧ v ∈ pattern.inScope) ∨
        ∃ table, q.modifiers.values = some table ∧ v ∈ table.vars) ∧
    (q.modifiers.groupBy ≠ [] ∨ q.modifiers.aggregates ≠ [] → q.form.selection.1 = none →
      shown = (q.modifiers.groupBy ++ q.modifiers.aggregates.map (·.1)).eraseDups) ∧
    ∀ items distinct reduced, q.form = .select (some items) distinct reduced →
      shown = (items.map (·.name)).eraseDups := by
  obtain rfl := wholeSelect_of_build h hs
  refine ⟨⟨Select.projection?_toQuery _ inline, Select.nodup_projected _ _⟩, ?_, ?_, ?_⟩
  · intro hform hg ha v
    have hprojection : q.wholeSelect.projection = none := by
      show q.form.selection.1 = none
      cases hq : q.form with
      | select => rw [hq] at hform; cases hform
      | generate | template => rfl
    rw [← Query.mem_inScope_wholePattern]
    exact Select.mem_projected _ hprojection (Query.grouping_eq_none hg ha)
  · intro hgrouped hprojection
    exact q.wholeSelect.projected_of_group hprojection (Query.grouping_eq_some hgrouped) _
  · intro items distinct reduced hform
    refine Select.projected_of_projection _ ?_ ?_ _
    · show q.form.selection.1 = _
      rw [hform]
      rfl
    · show (!q.form.isSelect && _) = false
      rw [hform]
      rfl

/-- A `GENERATE` query with a pattern and a table that shares a variable with it. -/
def surveying : Query :=
  { (default : Query) with
    pattern := some (.bgp [⟨.var ⟨"s"⟩, .iri ⟨"urn:p"⟩, .var ⟨"o"⟩⟩])
    modifiers := { Modifiers.none with
      values := some ⟨[⟨"o"⟩, ⟨"z"⟩], [[some (.iri ⟨"urn:o"⟩), none]]⟩ } }

theorem surveying_projects_variables : ∃ (p : Plan) (s : Select),
    (build surveying .start).1 = .ok p ∧ p.select = some (.select s) ∧
    (s.toQuery (.ofLists [⟨"x"⟩] [.empty])).pattern.projection? =
      some [⟨"x"⟩, ⟨"s"⟩, ⟨"o"⟩, ⟨"z"⟩] ∧
    ∀ v, v ∈ s.projected [⟨"x"⟩] ↔ v ∈ [(⟨"x"⟩ : Variable)] ∨
      (∃ pattern, surveying.pattern = some pattern ∧ v ∈ pattern.inScope) ∨
      ∃ table, surveying.modifiers.values = some table ∧ v ∈ table.vars := by
  have hok : (build surveying .start).1.isOk = true := by decide +kernel
  have hshown : surveying.wholeSelect.projected [⟨"x"⟩] = [⟨"x"⟩, ⟨"s"⟩, ⟨"o"⟩, ⟨"z"⟩] := by
    decide +kernel
  obtain ⟨p, hp⟩ := exists_of_isOk hok
  have hs : p.select = some (.select surveying.wholeSelect) := by
    rw [select_of_build hp, if_neg (by decide +kernel)]
  obtain ⟨⟨hprojection, -⟩, hmem, -⟩ := projects_variables hp hs (.ofLists [⟨"x"⟩] [.empty])
  refine ⟨p, _, hp, hs, hprojection.trans (congrArg some hshown), fun v => ?_⟩
  exact hmem rfl rfl rfl v

end Plan

end TripleLoom
