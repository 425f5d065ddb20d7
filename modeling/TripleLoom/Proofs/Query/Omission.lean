import Mathlib.Data.List.Forall2
import TripleLoom.Proofs.Plan.Numbering
import TripleLoom.Proofs.Sequence.Inline

/-!
# TripleLoom.Proofs.Query.Omission — select parts that are left out

A plan has no select part if its query asks nothing of a graph-pattern engine: no pattern, no
modifier, and no `SELECT` form that projects or drops duplicates.  What the engine would be asked
otherwise is a query that projects the inline solutions to their own variables.  Whatever evaluates
that query by the meaning of its operators gives the inline solutions back
(`Plan.omits_idle_select`).
-/

namespace TripleLoom

open List (Forall₂)

/-! ### Queries that ask nothing of an engine -/

/-- The projection of a form, and whether it drops duplicates or may do so. -/
def Form.selection : Form → Option (List ProjectionItem) × Bool × Bool
  | .select projection distinct reduced => (projection, distinct, reduced)
  | .generate _ | .template .. => (none, false, false)

/-- Whether a form is a `SELECT` form. -/
def Form.isSelect : Form → Bool
  | .select .. => true
  | .generate _ | .template .. => false

namespace Query

/-- Whether a query has neither a pattern nor a modifier, nor a form that selects anything. -/
def isIdle (q : Query) : Bool :=
  q.pattern.all GraphPattern.isEmptyGroup && q.modifiers.isEmpty &&
    q.form.selection.1.isNone && !q.form.selection.2.1 && !q.form.selection.2.2

/-- The grouping of a query, if it has one. -/
def grouping (q : Query) : Option Grouping :=
  if q.modifiers.groupBy.isEmpty ∧ q.modifiers.aggregates.isEmpty then none
  else some ⟨q.modifiers.groupBy, q.modifiers.aggregates⟩

/-- The whole select part of a query, whether an engine is asked for it or not. -/
def wholeSelect (q : Query) : Select where
  dataset := q.dataset
  base := q.base
  pattern := q.wholePattern
  group := q.grouping
  having := q.modifiers.having
  projection := q.form.selection.1
  keepInput := !q.form.isSelect && q.grouping.isNone
  orderBy := q.modifiers.orderBy
  distinct := q.form.selection.2.1
  reduced := q.form.selection.2.2
  offset := q.modifiers.offset
  limit := q.modifiers.limit

theorem selectPart_eq (q : Query) :
    q.selectPart = if q.isIdle then none else some q.wholeSelect := by
  obtain ⟨base, prefixes, name, signature, dataset, bindings, pattern, modifiers, form,
    postSelect⟩ := q
  cases form <;>
    simp [selectPart, isIdle, wholeSelect, grouping, Form.selection, Form.isSelect, and_assoc]

/-- Lifting the expressions of a query leaves its select part as it is. -/
theorem selectPart_normalized (q : Query) (id : Nat) :
    (q.normalized id).selectPart = q.selectPart := by
  obtain ⟨base, prefixes, name, signature, dataset, bindings, pattern, modifiers, form,
    postSelect⟩ := q
  cases form <;> rfl

/-- The select part of a query that asks nothing. -/
theorem wholeSelect_of_isIdle {q : Query} (h : q.isIdle = true) :
    q.wholeSelect =
      { dataset := q.dataset, base := q.base, pattern := .bgp [], group := none, having := [],
        projection := none, keepInput := !q.form.isSelect, orderBy := [], distinct := false,
        reduced := false, offset := 0, limit := none } := by
  obtain ⟨base, prefixes, name, signature, dataset, bindings, pattern,
    ⟨groupBy, aggregates, having, orderBy, offset, limit, values⟩, form, postSelect⟩ := q
  simp only [isIdle, Modifiers.isEmpty, Bool.and_eq_true, List.isEmpty_iff,
    Option.isNone_iff_eq_none, beq_iff_eq, Bool.not_eq_true'] at h
  obtain ⟨⟨⟨⟨hpattern, ⟨⟨⟨⟨⟨⟨rfl, rfl⟩, rfl⟩, rfl⟩, rfl⟩, rfl⟩, rfl⟩⟩, hprojection⟩, hdistinct⟩,
    hreduced⟩ := h
  have hwhole : pattern.getD (.bgp []) = .bgp [] := by
    cases pattern with
    | none => rfl
    | some p => exact of_decide_eq_true hpattern
  simp [wholeSelect, wholePattern, grouping, hwhole, hprojection, hdistinct, hreduced]

variable {q : Query}

/-- The variables of the result of a query that asks nothing are those of its inline solutions. -/
theorem projected_of_isIdle (h : q.isIdle = true) (input : Sequence) :
    q.wholeSelect.projected input.vars = input.vars := by
  have hinput : Variable.declareAll [] input.vars = input.vars :=
    Variable.declareAll_of_nodup input.nodup
  have hmore : ∀ more, more ⊆ input.vars →
      Variable.declareAll [] (input.vars ++ more) = input.vars := fun more hsub => by
    have happend : Variable.declareAll [] (input.vars ++ more) =
        Variable.declareAll (Variable.declareAll [] input.vars) more := List.foldl_append
    rw [happend, hinput, Variable.declareAll_of_subset hsub]
  rw [wholeSelect_of_isIdle h, Select.projected]
  cases q.form.isSelect with
  | true => simpa [GraphPattern.inScope] using hinput
  | false => simpa [GraphPattern.inScope] using hmore input.vars (List.Subset.refl _)

/-- The query that an engine would be asked: the inline solutions, projected to their variables. -/
theorem toQuery_of_isIdle (h : q.isIdle = true) (input : Sequence) :
    q.wholeSelect.toQuery input =
      ⟨q.dataset, .project ((GraphPattern.bgp []).joinInline input) input.vars, q.base⟩ := by
  rw [Select.toQuery, projected_of_isIdle h input, wholeSelect_of_isIdle h]
  rfl

end Query

/-! ### Evaluation -/

/-- An evaluation of queries, each as the list of its solutions, that goes by the meaning of the
operators: the empty pattern has the solution that binds nothing, a table its rows, and a projection
the projected solutions of what is projected.  The other operators may mean anything. -/
structure IsEvaluation (eval : EngineQuery → List Solution) : Prop where
  unit : ∀ dataset base, SameSolutions (eval ⟨dataset, .bgp [], base⟩) [.empty]
  values : ∀ dataset base table, SameSolutions (eval ⟨dataset, .values table, base⟩)
    (table.rows.map (Solution.ofRow table.vars))
  project : ∀ dataset base pattern vars,
    SameSolutions (eval ⟨dataset, .project pattern vars, base⟩)
      ((eval ⟨dataset, pattern, base⟩).map (·.project vars))

/-- What comes back of an engine that evaluates a select part for some solutions, with the blank
nodes put back. -/
def Select.evaluated (s : Select) (eval : EngineQuery → List Solution) (input : Sequence) :
    Sequence :=
  (Sequence.ofLists (s.projected input.vars) (eval (s.toQuery input))).restoreBlanks

namespace IsEvaluation

variable {eval : EngineQuery → List Solution} (h : IsEvaluation eval) {q : Query} {input : Sequence}
include h

/-- Joined with the empty pattern, inline solutions are the rows of their table. -/
theorem joinInline (dataset : Option Dataset) (base : Option Iri) (input : Sequence) :
    SameSolutions (eval ⟨dataset, (GraphPattern.bgp []).joinInline input, base⟩)
      input.toTable.toSequence.solutions := by
  unfold GraphPattern.joinInline
  split
  · next hunit =>
    -- the one solution without variables is the row without cells
    obtain ⟨hvars, hsize⟩ := hunit
    obtain ⟨u, hu⟩ := List.length_eq_one_iff.mp hsize
    have hrow : input.toTable.toSequence.solutions = [.empty] := by
      rw [Sequence.toTable, List.isEmpty_iff.mp hvars, hu]
      rfl
    rw [hrow]
    exact h.unit dataset base
  · rw [if_pos rfl]
    exact h.values dataset base input.toTable

/-- The query that asks nothing evaluates to the rows of the table of the inline solutions. -/
theorem eval_toQuery (hidle : q.isIdle = true) (input : Sequence) :
    SameSolutions (eval (q.wholeSelect.toQuery input)) input.toTable.toSequence.solutions := by
  rw [Query.toQuery_of_isIdle hidle]
  refine (h.project _ _ _ _).trans (((h.joinInline _ _ input).map fun s t hst =>
    Solution.same_project hst input.vars).trans (.map_self fun s hs => ?_))
  obtain ⟨row, -, rfl⟩ := List.mem_map.mp hs
  exact Solution.same_project_self (Solution.isUnder_ofRow input.vars row)

theorem evaluated_same (hidle : q.isIdle = true) (hcovered : input.IsCovered)
    (hfree : ∀ u ∈ input.solutions, u.IsUnreserved) :
    (q.wholeSelect.evaluated eval input).same input = true := by
  refine Sequence.same_trans (Sequence.same_iff.mpr ⟨?_, ?_⟩)
    ((Sequence.same_roundTrip_iff hcovered).mpr hfree)
  · rw [Sequence.vars_roundTrip, Select.evaluated, Query.projected_of_isIdle hidle]
    exact Variable.declareAll_of_nodup input.nodup
  · exact (h.eval_toQuery hidle input).map fun s t hst => Solution.same_restoreBlanks hst

end IsEvaluation

/-! ### Plans without a select part -/

namespace Plan

theorem select_of_build {q : Query} {n : Numbering} {p : Plan} (h : (build q n).1 = .ok p) :
    p.select = if q.isIdle then none else some (.select q.wholeSelect) := by
  rcases hbuild : build q n with ⟨built, n'⟩
  rw [hbuild] at h
  subst h
  obtain ⟨l, n₁, n₂, -, -, -, -, hselect⟩ := Query.compile_ok hbuild
  rw [hselect, q.selectPart_normalized, q.selectPart_eq]
  split <;> rfl

/-- **A select part that is left out would change nothing.**  The plan of a query has the query's
whole select part unless the query has no pattern, no modifier and no form that selects anything.
If the plan has none, then for any inline solutions that bind declared variables only, and no IRI of
the namespace set apart for blank nodes, every evaluation of the query that an engine would be asked
gives the same solutions back, in the same order and under the same variables. -/
theorem omits_idle_select {q : Query} {n : Numbering} {p : Plan} (h : (build q n).1 = .ok p) :
    (p.select = if q.isIdle then none else some (.select q.wholeSelect)) ∧
    (p.select = none → ∀ eval : EngineQuery → List Solution, IsEvaluation eval →
      ∀ input : Sequence, input.IsCovered → (∀ u ∈ input.solutions, u.IsUnreserved) →
        (q.wholeSelect.evaluated eval input).same input = true) := by
  have hselect := select_of_build h
  refine ⟨hselect, fun hnone eval heval input hcovered hfree => ?_⟩
  have hidle : q.isIdle = true := by
    by_contra hbusy
    rw [hselect, if_neg hbusy] at hnone
    cases hnone
  exact heval.evaluated_same hidle hcovered hfree

end Plan

/-! ### An evaluation -/

/-- Two solutions in one, if they agree where both bind a variable. -/
def Solution.merge? (s t : Solution) : Option Solution :=
  if t.bindings.all fun (v, term) => (s.get? v).all (· == term) then some (s.extend t.bindings)
  else none

/-- The solutions of a pattern without any data but its tables, of which only the operators are
known that need no expressions. -/
def GraphPattern.solutions : GraphPattern → List Solution
  | .bgp [] => [.empty]
  | .values table => table.rows.map (Solution.ofRow table.vars)
  | .join l r => l.solutions.flatMap fun s => r.solutions.filterMap s.merge?
  | .union l r => l.solutions ++ r.solutions
  | .project inner vars => inner.solutions.map (·.project vars)
  | .slice inner start length =>
    let rest := inner.solutions.drop start
    (length.map rest.take).getD rest
  | _ => []

theorem isEvaluation_solutions : IsEvaluation fun q => q.pattern.solutions where
  unit _ _ := Forall₂.cons (Solution.same_refl _) .nil
  values _ _ _ := List.forall₂_same.mpr fun s _ => s.same_refl
  project _ _ _ _ := List.forall₂_same.mpr fun s _ => s.same_refl

namespace Plan

/-- A query that generates a triple with a text and asks nothing. -/
def plain : Query :=
  { (default : Query) with
    form := .generate [.triples [⟨.iri ⟨"urn:s"⟩, .iri ⟨"urn:p"⟩,
      .expression (Query.textOf "urn:o")⟩]] }

theorem omits_idle_select_mixed : ∃ p : Plan, (build plain .start).1 = .ok p ∧ p.select = none ∧
    Sequence.mixed.IsCovered ∧ (∀ u ∈ Sequence.mixed.solutions, u.IsUnreserved) ∧
    (plain.wholeSelect.evaluated (fun q => q.pattern.solutions) Sequence.mixed).same
      Sequence.mixed = true := by
  have hok : (build plain .start).1.isOk = true := by decide +kernel
  have hcovered : Sequence.mixed.IsCovered := by decide +kernel
  have hfree : ∀ u ∈ Sequence.mixed.solutions, u.IsUnreserved := by decide +kernel
  obtain ⟨p, hp⟩ := exists_of_isOk hok
  obtain ⟨hselect, hsame⟩ := omits_idle_select hp
  have hnone : p.select = none := hselect
  exact ⟨p, hp, hnone, hcovered, hfree,
    hsame hnone _ isEvaluation_solutions Sequence.mixed hcovered hfree⟩

end Plan

end TripleLoom
