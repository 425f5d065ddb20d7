import TripleLoom.Proofs.Algebra.Interpretation
import TripleLoom.Proofs.Query.Projection

/-!
# TripleLoom.Proofs.Query.TrailingValues — tables at the end of queries that group

What a query with a table at its end asks for is read off its fields: the inline solutions joined
with the pattern are grouped, the groups filtered, then joined with the table, and the result is
extended, ordered, projected, rid of duplicates and cut (`Interpretation.prescribed`).  The select
part joins the table with the pattern instead, so an engine gets the table inside of the groups: it
is asked for what the query with the table moved into its pattern prescribes, and for nothing else
(`Plan.groups_values_too`).
-/

namespace TripleLoom

/-! ### What a query prescribes -/

namespace Interpretation

variable (I : Interpretation)

/-- Solutions filtered by some conditions, the first one first. -/
def filterAll (conditions : List Expression) (m : I.Meaning) : I.Meaning :=
  conditions.foldl (fun m condition => I.filter condition m) m

/-- Solutions extended by the computed variables of a projection. -/
def extendAll (items : List ProjectionItem) (m : I.Meaning) : I.Meaning :=
  items.foldl (fun m item => (item.expression.map (I.extend m item.name)).getD m) m

/-- Solutions in order, if there is any condition to order them by. -/
def inOrder (conditions : List OrderCondition) (m : I.Meaning) : I.Meaning :=
  if conditions = [] then m else I.orderBy m conditions

/-- Solutions without duplicates, or with as few as an engine likes. -/
def dropDuplicates (distinct reduced : Bool) (m : I.Meaning) : I.Meaning :=
  if distinct then I.distinct m else if reduced then I.reduced m else m

/-- The solutions from an offset up to a limit. -/
def cut (offset : Nat) (limit : Option Nat) (m : I.Meaning) : I.Meaning :=
  if 0 < offset ∨ limit.isSome then I.slice m offset limit else m

/-- Solutions joined with a table, if there is one. -/
def joinTable (table : Option ValuesTable) (m : I.Meaning) : I.Meaning :=
  (table.map fun t => I.join m (I.values t)).getD m

/-- The inline solutions joined with the pattern of a query, grouped, and of the groups those that
meet the `HAVING` conditions. -/
def aggregated (q : Query) (inline : Sequence) : I.Meaning :=
  let matched := I.join (I.values inline.toTable) (I.eval (q.pattern.getD (.bgp [])))
  I.filterAll q.modifiers.having
    (I.group matched q.modifiers.groupBy q.modifiers.aggregates)

/-- What is left to be done with solutions once they are grouped and joined with the table. -/
def selected (q : Query) (shown : List Variable) (m : I.Meaning) : I.Meaning :=
  let items := q.form.selection.1.getD []
  let projected := I.project (I.inOrder q.modifiers.orderBy (I.extendAll items m)) shown
  I.cut q.modifiers.offset q.modifiers.limit
    (I.dropDuplicates q.form.selection.2.1 q.form.selection.2.2 projected)

/-- **What a query that groups asks for**, given some inline solutions and the variables to be
shown. -/
def prescribed (q : Query) (inline : Sequence) (shown : List Variable) : I.Meaning :=
  I.selected q shown (I.joinTable q.modifiers.values (I.aggregated q inline))

end Interpretation

/-- A query with the table at its end moved into its pattern. -/
def Query.withValuesInside (q : Query) : Query :=
  { q with pattern := some q.wholePattern, modifiers := { q.modifiers with values := none } }

/-! ### What the select part asks for -/

namespace Interpretation

variable (I : Interpretation)

theorem eval_joinInline (inline : Sequence) (pattern : GraphPattern) :
    I.eval (pattern.joinInline inline) =
      I.join (I.values inline.toTable) (I.eval pattern) := by
  unfold GraphPattern.joinInline
  split
  · next hunit =>
    -- the one solution without variables is the row without cells
    obtain ⟨hvars, hsize⟩ := hunit
    obtain ⟨u, hu⟩ := List.length_eq_one_iff.mp hsize
    have htable : inline.toTable = .unit := by
      rw [Sequence.toTable, List.isEmpty_iff.mp hvars, hu]
      rfl
    rw [htable, I.values_unit, I.unit_join]
  · split
    · next hempty =>
      rw [hempty]
      exact (I.join_unit _).symm
    · rfl

/-- A table is joined with the pattern. -/
theorem eval_wholePattern (q : Query) :
    I.eval q.wholePattern =
      I.joinTable q.modifiers.values (I.eval (q.pattern.getD (.bgp []))) := by
  unfold Query.wholePattern joinTable
  cases q.modifiers.values with
  | none => rfl
  | some table =>
    dsimp only
    split
    · next hempty =>
      rw [of_decide_eq_true hempty]
      exact (I.unit_join _).symm
    · rfl

theorem eval_filtered (s : Select) (pattern : GraphPattern) :
    I.eval (s.filtered pattern) = I.filterAll s.having (I.eval pattern) :=
  (List.foldl_hom I.eval fun _ _ => rfl).symm

theorem eval_computed (s : Select) (pattern : GraphPattern) :
    I.eval (s.computed pattern) = I.extendAll (s.projection.getD []) (I.eval pattern) := by
  refine (List.foldl_hom I.eval fun p item => ?_).symm
  cases item.expression <;> rfl

theorem eval_ordered (s : Select) (pattern : GraphPattern) :
    I.eval (s.ordered pattern) = I.inOrder s.orderBy (I.eval pattern) := by
  rw [Select.ordered, inOrder, apply_ite I.eval]
  simp only [List.isEmpty_iff]
  rfl

theorem eval_deduplicated (s : Select) (pattern : GraphPattern) :
    I.eval (s.deduplicated pattern) =
      I.dropDuplicates s.distinct s.reduced (I.eval pattern) := by
  rw [Select.deduplicated, dropDuplicates, apply_ite I.eval, apply_ite I.eval]
  rfl

theorem eval_sliced (s : Select) (pattern : GraphPattern) :
    I.eval (s.sliced pattern) = I.cut s.offset s.limit (I.eval pattern) := by
  rw [Select.sliced, cut, apply_ite I.eval]
  rfl

/-- The select part of a query that groups asks for what the query prescribes once its table is
moved into its pattern. -/
theorem eval_toQuery {q : Query} (hgroup : q.modifiers.groupBy ≠ [] ∨ q.modifiers.aggregates ≠ [])
    (inline : Sequence) :
    I.eval (q.wholeSelect.toQuery inline).pattern =
      I.prescribed q.withValuesInside inline (q.wholeSelect.projected inline.vars) := by
  have hgrouped : ∀ pattern, q.wholeSelect.grouped pattern =
      .group pattern q.modifiers.groupBy q.modifiers.aggregates := fun pattern => by
    have hsome : q.wholeSelect.group = some _ := Query.grouping_eq_some hgroup
    rw [Select.grouped, hsome]
  rw [Select.toQuery, I.eval_sliced, I.eval_deduplicated, eval, I.eval_ordered, I.eval_computed,
    I.eval_filtered, hgrouped, eval, I.eval_joinInline]
  rfl

/-- Without a table, or with the one that adds nothing, moving it changes nothing. -/
theorem prescribed_withValuesInside {q : Query}
    (hunit : ∀ t, q.modifiers.values = some t → t = .unit) (inline : Sequence)
    (shown : List Variable) :
    I.prescribed q.withValuesInside inline shown = I.prescribed q inline shown := by
  have hjoin : ∀ m, I.joinTable q.modifiers.values m = m := fun m => by
    cases hvalues : q.modifiers.values with
    | none => rfl
    | some t =>
      rw [hunit t hvalues, joinTable, Option.map_some, Option.getD_some, I.values_unit, I.join_unit]
  have hpattern : I.eval q.wholePattern = I.eval (q.pattern.getD (.bgp [])) := by
    rw [I.eval_wholePattern, hjoin]
  have haggregated : I.aggregated q.withValuesInside inline = I.aggregated q inline := by
    unfold aggregated
    rw [← hpattern]
    rfl
  rw [prescribed, prescribed, haggregated, hjoin]
  rfl

/-! ### Where the table stands -/

/-- The interpretation that tells of a pattern whether a table that adds something stands in it
outside of all groups. -/
def tablesOutside : Interpretation where
  Meaning := Bool
  bgp _ := false
  path _ _ _ := false
  join := or
  leftJoin left right _ := left || right
  filter _ m := m
  union := or
  graph _ m := m
  extend m _ _ := m
  minus left _ := left
  values t := t ≠ .unit
  orderBy m _ := m
  project m _ := m
  distinct m := m
  reduced m := m
  slice m _ _ := m
  group _ _ _ := false
  service _ _ _ := false
  values_unit := rfl
  join_unit := Bool.or_false
  unit_join := Bool.false_or

variable {m : tablesOutside.Meaning}

theorem tablesOutside_filterAll (conditions : List Expression) :
    tablesOutside.filterAll conditions m = m := by
  induction conditions with
  | nil => rfl
  | cons condition rest ih => exact ih

theorem tablesOutside_extendAll (items : List ProjectionItem) :
    tablesOutside.extendAll items m = m := by
  induction items with
  | nil => rfl
  | cons item rest ih =>
    have hitem : (item.expression.map (tablesOutside.extend m item.name)).getD m = m := by
      cases item.expression <;> rfl
    show rest.foldl _ ((item.expression.map (tablesOutside.extend m item.name)).getD m) = m
    rw [hitem]
    exact ih

theorem tablesOutside_selected (q : Query) (shown : List Variable) :
    tablesOutside.selected q shown m = m := by
  have horder : tablesOutside.inOrder q.modifiers.orderBy m = m := ite_self _
  have hdrop : ∀ distinct reduced, tablesOutside.dropDuplicates distinct reduced m = m :=
    fun distinct reduced => by cases distinct <;> cases reduced <;> rfl
  have hcut : tablesOutside.cut q.modifiers.offset q.modifiers.limit m = m := ite_self _
  show tablesOutside.cut _ _ (tablesOutside.dropDuplicates _ _
    (tablesOutside.inOrder _ (tablesOutside.extendAll _ m))) = m
  rw [tablesOutside_extendAll, horder, hdrop, hcut]

/-- What a query prescribes has its table outside of its groups. -/
theorem tablesOutside_prescribed (q : Query) (inline : Sequence) (shown : List Variable) :
    tablesOutside.prescribed q inline shown =
      tablesOutside.joinTable q.modifiers.values (tablesOutside.bgp []) := by
  rw [prescribed, tablesOutside_selected, aggregated, tablesOutside_filterAll]
  rfl

end Interpretation

/-! ### Compiled queries -/

namespace Plan

/-- **A table at the end of a query that groups is grouped, too.**  Whatever the operators of the
algebra mean, the select part of a query that groups or aggregates asks, for any inline solutions,
for what the query with its table moved into the pattern prescribes.  That is what the query itself
prescribes, whatever the operators mean, only if there is no table or one that adds nothing. -/
theorem groups_values_too {q : Query} {n : Numbering} {p : Plan} {s : Select}
    (h : (build q n).1 = .ok p) (hs : p.select = some (.select s))
    (hgroup : q.modifiers.groupBy ≠ [] ∨ q.modifiers.aggregates ≠ []) (inline : Sequence) :
    let asked := (s.toQuery inline).pattern
    let shown := s.projected inline.vars
    (∀ I : Interpretation, I.eval asked = I.prescribed q.withValuesInside inline shown) ∧
    ((∀ I : Interpretation, I.eval asked = I.prescribed q inline shown) ↔
      ∀ t, q.modifiers.values = some t → t = .unit) := by
  obtain rfl := wholeSelect_of_build h hs
  have hasked : ∀ I : Interpretation, I.eval (q.wholeSelect.toQuery inline).pattern =
      I.prescribed q.withValuesInside inline (q.wholeSelect.projected inline.vars) :=
    fun I => I.eval_toQuery hgroup inline
  refine ⟨hasked, fun heq t ht => ?_, fun hunit I => ?_⟩
  · by_contra hne
    -- a table that adds something stands inside of the groups in the one and outside in the other
    have hsame := (heq .tablesOutside).symm.trans (hasked .tablesOutside)
    rw [Interpretation.tablesOutside_prescribed, Interpretation.tablesOutside_prescribed, ht] at hsame
    have hfalse : decide (t ≠ .unit) = false := hsame
    exact of_decide_eq_false hfalse hne
  · rw [hasked I, I.prescribed_withValuesInside hunit]

/-- A table with the same row twice. -/
def twice : ValuesTable :=
  ⟨[⟨"x"⟩], [[some (.literal (.simple "a"))], [some (.literal (.simple "a"))]]⟩

/-- A query that counts its solutions, with a table at its end. -/
def tallied : Query :=
  { (default : Query) with
    form := .select none false false
    modifiers := { Modifiers.none with
      aggregates := [(⟨"n"⟩, .countSolutions false)]
      values := some twice } }

theorem exists_build_tallied : ∃ p : Plan,
    (build tallied .start).1 = .ok p ∧ p.select = some (.select tallied.wholeSelect) := by
  have hok : (build tallied .start).1.isOk = true := by decide +kernel
  obtain ⟨p, hp⟩ := exists_of_isOk hok
  exact ⟨p, hp, by rw [select_of_build hp, if_neg (by decide +kernel)]⟩

theorem tallied_groups_values_too : ∃ (p : Plan) (s : Select),
    (build tallied .start).1 = .ok p ∧ p.select = some (.select s) ∧
    tallied.modifiers.aggregates ≠ [] ∧
    (∀ I : Interpretation, I.eval (s.toQuery .unit).pattern =
      I.prescribed tallied.withValuesInside .unit (s.projected [])) ∧
    ¬ ∀ I : Interpretation, I.eval (s.toQuery .unit).pattern =
      I.prescribed tallied .unit (s.projected []) := by
  obtain ⟨p, hp, hs⟩ := exists_build_tallied
  have haggregates : tallied.modifiers.aggregates ≠ [] := List.cons_ne_nil _ _
  obtain ⟨hinside, hiff⟩ := groups_values_too hp hs (.inr haggregates) .unit
  refine ⟨p, _, hp, hs, haggregates, hinside, fun hall => ?_⟩
  have hvars : twice.vars = [] := congrArg ValuesTable.vars (hiff.mp hall _ rfl)
  exact List.cons_ne_nil _ _ hvars

/-- In tables of rows the engine counts the two rows of the table, where the one solution is to be
counted and to be shown with each row. -/
theorem counts_rows_of_table : ∃ (p : Plan) (s : Select),
    (build tallied .start).1 = .ok p ∧ p.select = some (.select s) ∧
    tallied.modifiers.aggregates ≠ [] ∧ tallied.modifiers.values = some twice ∧
    let I := Interpretation.ofTables .nothing
    I.eval (s.toQuery .unit).pattern = [Row.single ⟨"n"⟩ (.ofInt 2)] ∧
    I.prescribed tallied .unit (s.projected []) =
      [Row.single ⟨"n"⟩ (.ofInt 1), Row.single ⟨"n"⟩ (.ofInt 1)] ∧
    I.eval (s.toQuery .unit).pattern ≠ I.prescribed tallied .unit (s.projected []) := by
  obtain ⟨p, hp, hs⟩ := exists_build_tallied
  let I := Interpretation.ofTables .nothing
  have hshown : tallied.wholeSelect.projected [] = [⟨"n"⟩] := by decide +kernel
  have hpattern : (tallied.wholeSelect.toQuery .unit).pattern =
      .project (.group (.values twice) [] [(⟨"n"⟩, .countSolutions false)]) [⟨"n"⟩] := by
    decide +kernel
  have hfields : ∀ I : Interpretation, I.prescribed tallied .unit [⟨"n"⟩] =
      I.project (I.join (I.group (I.join (I.values Sequence.unit.toTable) (I.bgp [])) []
        [(⟨"n"⟩, .countSolutions false)]) (I.values twice)) [⟨"n"⟩] := fun _ => rfl
  have hasked : I.eval (tallied.wholeSelect.toQuery .unit).pattern =
      [Row.single ⟨"n"⟩ (.ofInt 2)] := by
    rw [hpattern]
    exact Interpretation.ofTables_counted .nothing (Row.ofTable twice) ⟨"n"⟩
  have hprescribed : I.prescribed tallied .unit (tallied.wholeSelect.projected []) =
      [Row.single ⟨"n"⟩ (.ofInt 1), Row.single ⟨"n"⟩ (.ofInt 1)] := by
    rw [hshown, hfields, I.join_unit]
    exact Interpretation.ofTables_counted_join .nothing (Row.ofTable Sequence.unit.toTable)
      (by decide)
  refine ⟨p, _, hp, hs, List.cons_ne_nil _ _, rfl, hasked, hprescribed, fun heq => ?_⟩
  have hlength := congrArg List.length (hasked.symm.trans (heq.trans hprescribed))
  exact absurd hlength (by decide)

end Plan

end TripleLoom
