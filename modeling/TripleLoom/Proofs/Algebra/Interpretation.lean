import Mathlib.Data.List.Dedup
import TripleLoom.Proofs.Sequence.Inline

/-!
# TripleLoom.Proofs.Algebra.Interpretation — what graph patterns mean

An `Interpretation` gives each operator of the algebra a meaning, so a pattern means what its
operator makes of the meanings of its parts.  The empty pattern and the table of one row without
cells mean the same, and joining that changes nothing; nothing else is asked of the operators.

`Interpretation.ofTables` is the one by tables of rows, with repetitions, which leaves open only
what is found in the data and what expressions are worth.
-/

namespace TripleLoom

/-- The table of one row without cells. -/
def ValuesTable.unit : ValuesTable := ⟨[], [[]]⟩

/-! ### Interpretations -/

/-- A meaning for each operator of the algebra.  Expressions are handed over as they are, so an
operator may read any pattern in them. -/
structure Interpretation where
  Meaning : Type
  bgp : List TriplePattern → Meaning
  path : TermPattern → PropertyPath → TermPattern → Meaning
  join : Meaning → Meaning → Meaning
  leftJoin : Meaning → Meaning → Option Expression → Meaning
  filter : Expression → Meaning → Meaning
  union : Meaning → Meaning → Meaning
  graph : IriPattern → Meaning → Meaning
  extend : Meaning → Variable → Expression → Meaning
  minus : Meaning → Meaning → Meaning
  values : ValuesTable → Meaning
  orderBy : Meaning → List OrderCondition → Meaning
  project : Meaning → List Variable → Meaning
  distinct : Meaning → Meaning
  reduced : Meaning → Meaning
  slice : Meaning → Nat → Option Nat → Meaning
  group : Meaning → List Variable → List (Variable × Aggregate) → Meaning
  /-- The pattern goes to another engine as it is. -/
  service : IriPattern → GraphPattern → Bool → Meaning
  values_unit : values .unit = bgp []
  join_unit : ∀ m, join m (bgp []) = m
  unit_join : ∀ m, join (bgp []) m = m

/-- The meaning of a pattern. -/
def Interpretation.eval (E : Interpretation) : GraphPattern → E.Meaning
  | .bgp triples => E.bgp triples
  | .path subject path object => E.path subject path object
  | .join left right => E.join (E.eval left) (E.eval right)
  | .leftJoin left right condition => E.leftJoin (E.eval left) (E.eval right) condition
  | .filter condition inner => E.filter condition (E.eval inner)
  | .union left right => E.union (E.eval left) (E.eval right)
  | .graph name inner => E.graph name (E.eval inner)
  | .extend inner name expression => E.extend (E.eval inner) name expression
  | .minus left right => E.minus (E.eval left) (E.eval right)
  | .values table => E.values table
  | .orderBy inner conditions => E.orderBy (E.eval inner) conditions
  | .project inner vars => E.project (E.eval inner) vars
  | .distinct inner => E.distinct (E.eval inner)
  | .reduced inner => E.reduced (E.eval inner)
  | .slice inner start length => E.slice (E.eval inner) start length
  | .group inner vars aggregates => E.group (E.eval inner) vars aggregates
  | .service name inner silent => E.service name inner silent

/-! ### Tables of rows -/

/-- What a solution binds, as a function. -/
abbrev Row := Variable → Option Term

namespace Row

open Classical

/-- The row that binds nothing. -/
def unit : Row := fun _ => none

/-- Whether two rows agree where both bind a variable. -/
def Compatible (r s : Row) : Prop := ∀ v, (r v).isSome → (s v).isSome → r v = s v

/-- The row that binds one variable. -/
def single (v : Variable) (t : Term) : Row := fun w => if w = v then some t else none

/-- What two rows bind between them. -/
def merge (r s : Row) : Row := fun v => (r v).or (s v)

/-- What a row binds of some variables. -/
def only (r : Row) (vars : List Variable) : Row := fun v => if v ∈ vars then r v else none

theorem compatible_unit (r : Row) : r.Compatible unit := fun _ _ h => nomatch h

theorem unit_compatible (r : Row) : unit.Compatible r := fun _ h => nomatch h

theorem merge_unit (r : Row) : r.merge unit = r := funext fun _ => Option.or_none

theorem unit_merge (r : Row) : unit.merge r = r := funext fun _ => Option.none_or

/-- The rows of a table merged with a row that they are compatible with. -/
noncomputable def joined (r : Row) (rows : List Row) : List Row :=
  (rows.filter fun s => r.Compatible s).map r.merge

/-- The rows of two tables merged, wherever they are compatible. -/
noncomputable def join (left right : List Row) : List Row := left.flatMap fun r => r.joined right

/-- Rows that bind nothing of what a row binds are all merged with it. -/
theorem joined_of_disjoint {r : Row} {rows : List Row}
    (h : ∀ s ∈ rows, ∀ v, (r v).isSome → s v = none) : r.joined rows = rows.map r.merge := by
  have hall : rows.filter (fun s => decide (r.Compatible s)) = rows :=
    List.filter_eq_self.mpr fun s hs => decide_eq_true fun v hr hv => by
      rw [h s hs v hr] at hv
      cases hv
  rw [joined, hall]

theorem joined_singleton {r s : Row} (h : r.Compatible s) : r.joined [s] = [r.merge s] := by
  simp [joined, h]

theorem join_unit (rows : List Row) : join rows [unit] = rows := by
  have hrow : ∀ r : Row, r.joined [unit] = [r] := fun r => by
    rw [joined_singleton r.compatible_unit, merge_unit]
  rw [join, funext hrow, List.flatMap_singleton']

theorem unit_join (rows : List Row) : join [unit] rows = rows := by
  have hall : rows.filter (fun s => decide (unit.Compatible s)) = rows :=
    List.filter_eq_self.mpr fun s _ => decide_eq_true (unit_compatible s)
  rw [join, List.flatMap_singleton, joined, hall, funext unit_merge, List.map_id']

/-- The rows of a table of inline data. -/
def ofTable (table : ValuesTable) : List Row :=
  table.rows.map fun cells => (Solution.ofRow table.vars cells).get?

/-- The row of a group: what its rows share, and its aggregates. -/
noncomputable def ofGroup (value : Aggregate → List Row → Option Term)
    (aggregates : List (Variable × Aggregate)) (key : Row) (members : List Row) : Row :=
  aggregates.foldl (fun row (v, a) => Function.update row v (value a members)) key

/-- The groups of a table, by what its rows bind of some variables.  Without variables all rows are
one group, also if there are none. -/
noncomputable def groups (vars : List Variable) (rows : List Row) : List (Row × List Row) :=
  let keys := if vars = [] then [unit] else (rows.map (·.only vars)).dedup
  keys.map fun key => (key, rows.filter fun r => r.only vars = key)

/-- A row that binds one variable, merged with any other, still binds that variable so. -/
theorem only_merge_single (v : Variable) (t : Term) (r : Row) :
    ((single v t).merge r).only [v] = single v t := by
  funext w
  by_cases hw : w = v <;> simp [only, merge, single, hw]

theorem groups_nil (rows : List Row) : groups [] rows = [(unit, rows)] := by
  have hmembers : rows.filter (fun r => decide (r.only [] = unit)) = rows :=
    List.filter_eq_self.mpr fun r _ => decide_eq_true (funext fun _ => if_neg List.not_mem_nil)
  rw [groups, if_pos rfl, List.map_singleton, hmembers]

end Row

/-- What is found in the data of an engine, and what expressions are worth there. -/
structure Findings where
  bgp : List TriplePattern → List Row
  path : TermPattern → PropertyPath → TermPattern → List Row
  graph : IriPattern → List Row → List Row
  service : IriPattern → GraphPattern → Bool → List Row
  holds : Expression → Row → Bool
  value : Expression → Row → Option Term
  aggregate : AggregateFunction → Expression → Bool → List Row → Option Term
  sorted : List OrderCondition → List Row → List Row
  bgp_nil : bgp [] = [.unit]

namespace Findings

open Classical

/-- The findings where there are no data, and no expression has a value. -/
def nothing : Findings where
  bgp triples := if triples = [] then [.unit] else []
  path _ _ _ := []
  graph _ _ := []
  service _ _ _ := []
  holds _ _ := false
  value _ _ := none
  aggregate _ _ _ _ := none
  sorted _ rows := rows
  bgp_nil := if_pos rfl

/-- The value of an aggregate for the rows of a group. -/
noncomputable def total (F : Findings) : Aggregate → List Row → Option Term
  | .countSolutions false, rows => some (.ofInt rows.length)
  | .countSolutions true, rows => some (.ofInt rows.dedup.length)
  | .of function argument distinct, rows => F.aggregate function argument distinct rows

end Findings

namespace Interpretation

open Classical

/-- The interpretation by tables of rows. -/
noncomputable abbrev ofTables (F : Findings) : Interpretation where
  Meaning := List Row
  bgp := F.bgp
  path := F.path
  join := Row.join
  leftJoin left right condition := left.flatMap fun r =>
    let matching := (r.joined right).filter fun s => condition.all (F.holds · s)
    if matching = [] then [r] else matching
  filter condition rows := rows.filter (F.holds condition)
  union left right := left ++ right
  graph := F.graph
  extend rows v e := rows.map fun r => r.merge fun w => if w = v then F.value e r else none
  minus left right := left.filter fun r => ∀ s ∈ right,
    r.Compatible s → ∀ v, r v = none ∨ s v = none
  values := Row.ofTable
  orderBy rows conditions := F.sorted conditions rows
  project rows vars := rows.map (·.only vars)
  distinct rows := rows.dedup
  reduced rows := rows
  slice rows start length := (length.elim id List.take) (rows.drop start)
  group rows vars aggregates :=
    (Row.groups vars rows).map fun (key, members) => Row.ofGroup F.total aggregates key members
  service := F.service
  values_unit := F.bgp_nil.symm ▸ rfl
  join_unit rows := F.bgp_nil.symm ▸ Row.join_unit rows
  unit_join rows := F.bgp_nil.symm ▸ Row.unit_join rows

/-- All rows counted, without grouping by anything. -/
theorem ofTables_count (F : Findings) (rows : List Row) (v : Variable) :
    (ofTables F).group rows [] [(v, .countSolutions false)] = [.single v (.ofInt rows.length)] := by
  have hrow : Row.ofGroup F.total [(v, .countSolutions false)] .unit rows =
      .single v (.ofInt rows.length) := by
    funext w
    exact Function.update_apply ..
  simp only [ofTables, Row.groups_nil, List.map_singleton, hrow]

theorem ofTables_counted (F : Findings) (rows : List Row) (v : Variable) :
    (ofTables F).project ((ofTables F).group rows [] [(v, .countSolutions false)]) [v] =
      [.single v (.ofInt rows.length)] := by
  have honly : (Row.single v (.ofInt rows.length)).only [v] = .single v (.ofInt rows.length) := by
    simpa only [Row.merge_unit] using Row.only_merge_single v (.ofInt rows.length) .unit
  rw [ofTables_count]
  exact congrArg (fun row => [row]) honly

/-- Joined with a table afterwards, the same count is shown with each row of the table. -/
theorem ofTables_counted_join (F : Findings) (rows : List Row) {v : Variable} {table : ValuesTable}
    (hv : v ∉ table.vars) :
    (ofTables F).project ((ofTables F).join
      ((ofTables F).group rows [] [(v, .countSolutions false)]) ((ofTables F).values table)) [v] =
      .replicate table.rows.length (.single v (.ofInt rows.length)) := by
  let counted : Row := .single v (.ofInt rows.length)
  have hdisjoint : ∀ r ∈ Row.ofTable table, ∀ w, (counted w).isSome → r w = none := by
    intro r hr w hw
    obtain ⟨cells, -, rfl⟩ := List.mem_map.mp hr
    have hwv : w = v := by
      by_contra hne
      rw [show counted w = none from if_neg hne] at hw
      cases hw
    -- the row binds variables of its table only
    refine Option.eq_none_iff_forall_not_mem.mpr fun term hterm => hv ?_
    exact hwv ▸ Solution.isUnder_ofRow table.vars cells w term hterm
  rw [ofTables_count]
  show (Row.join [counted] (Row.ofTable table)).map (·.only [v]) = _
  rw [Row.join, List.flatMap_singleton, Row.joined_of_disjoint hdisjoint, List.map_map,
    Row.ofTable, List.map_map]
  refine List.map_eq_replicate_iff.mpr fun cells _ => ?_
  exact Row.only_merge_single v _ _

end Interpretation

end TripleLoom
