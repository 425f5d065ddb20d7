import Mathlib.Data.List.Dedup
import TripleLoom.Proofs.Query.Lifting

/-!
# TripleLoom.Proofs.Query.Freshness — how fresh the variables of lifting are

Lifting introduces one variable for each of the distinct expressions in a query's output, numbered
from a given number on (`Query.mem_introduced_iff`).  Nothing keeps these names away from those in
the query: a variable of the query is introduced again exactly if its name is one of them, and the
binding of an introduced variable is left out exactly if the query binds the variable behind its
select part already (`Query.captures_iff`).
-/

namespace TripleLoom

/-! ### The variables in a query -/

mutual

/-- The variables in an expression, those of the patterns in it included. -/
def Expression.vars : Expression → List Variable
  | .iri _ | .literal _ => []
  | .var v | .bound v => [v]
  | .binary _ a b => a.vars ++ b.vars
  | .unary _ a => a.vars
  | .isIn needle candidates => needle.vars ++ Expression.varsAll candidates
  | .conditional condition yes no => condition.vars ++ yes.vars ++ no.vars
  | .coalesce alternatives => Expression.varsAll alternatives
  | .exists pattern => pattern.vars
  | .call _ arguments => Expression.varsAll arguments

/-- The variables in some expressions. -/
def Expression.varsAll : List Expression → List Variable
  | [] => []
  | e :: rest => e.vars ++ Expression.varsAll rest

/-- The variables in a graph pattern, in scope or not. -/
def GraphPattern.vars : GraphPattern → List Variable
  | .bgp triples => triples.flatMap TriplePattern.vars
  | .path s _ o => s.vars ++ o.vars
  | .join l r | .union l r | .minus l r => l.vars ++ r.vars
  | .leftJoin l r none => l.vars ++ r.vars
  | .leftJoin l r (some condition) => l.vars ++ r.vars ++ condition.vars
  | .filter condition inner => condition.vars ++ inner.vars
  | .graph name inner | .service name inner _ => name.vars ++ inner.vars
  | .extend inner v e => inner.vars ++ v :: e.vars
  | .values table => table.vars
  | .orderBy inner conditions => inner.vars ++ OrderCondition.varsAll conditions
  | .project inner vars => inner.vars ++ vars
  | .distinct inner | .reduced inner | .slice inner _ _ => inner.vars
  | .group inner vars aggregates => inner.vars ++ vars ++ Aggregate.varsAll aggregates

/-- The variables in an order condition. -/
def OrderCondition.vars : OrderCondition → List Variable
  | .ascending e | .descending e => e.vars

/-- The variables in some order conditions. -/
def OrderCondition.varsAll : List OrderCondition → List Variable
  | [] => []
  | c :: rest => c.vars ++ OrderCondition.varsAll rest

/-- The variables in an aggregate. -/
def Aggregate.vars : Aggregate → List Variable
  | .countSolutions _ => []
  | .of _ argument _ => argument.vars

/-- The variables in some aggregates, those that they are bound to included. -/
def Aggregate.varsAll : List (Variable × Aggregate) → List Variable
  | [] => []
  | (v, a) :: rest => v :: a.vars ++ Aggregate.varsAll rest

end

/-- The variables in a clause. -/
def BindingClause.vars : BindingClause → List Variable
  | .iterator _ arguments vars => Expression.varsAll arguments ++ vars
  | .source document accept v => document.vars ++ accept.toList.flatMap IriPattern.vars ++ [v]
  | .bind e v => e.vars ++ [v]

/-- The variables in the solution modifiers. -/
def Modifiers.vars (m : Modifiers) : List Variable :=
  m.groupBy ++ Aggregate.varsAll m.aggregates ++ Expression.varsAll m.having ++
    OrderCondition.varsAll m.orderBy ++ m.values.toList.flatMap ValuesTable.vars

/-- The variables in a position. -/
def Position.vars : Position → List Variable
  | .var v => [v]
  | .expression e => e.vars
  | .list element => element.vars
  | .iri _ | .blank _ | .literal _ => []

/-- The variables in a triple. -/
def GenerateTriple.vars (t : GenerateTriple) : List Variable :=
  t.positions.flatMap Position.vars

/-- The variables in a call. -/
def NamedCall.vars (c : NamedCall) : List Variable :=
  c.name.vars ++ Expression.varsAll (c.arguments.getD [])

/-- The variables in a projected item. -/
def ProjectionItem.vars (i : ProjectionItem) : List Variable :=
  i.name :: i.expression.toList.flatMap Expression.vars

mutual

/-- The variables that occur in a query anywhere, the queries in it included. -/
def Query.vars : Query → List Variable
  | ⟨_, _, _, signature, _, bindings, pattern, modifiers, form, postSelect⟩ =>
    signature.getD [] ++ bindings.flatMap BindingClause.vars ++
      pattern.toList.flatMap GraphPattern.vars ++ modifiers.vars ++ form.vars ++
      postSelect.flatMap fun (v, e) => v :: e.vars

/-- The variables in a form. -/
def Form.vars : Form → List Variable
  | .generate elements => Element.varsAll elements
  | .template before elements separator after =>
    before.toList.flatMap Expression.vars ++ TemplateElement.varsAll elements ++
      separator.toList.flatMap Expression.vars ++ after.toList.flatMap Expression.vars
  | .select projection _ _ => (projection.getD []).flatMap ProjectionItem.vars

/-- The variables in some elements. -/
def Element.varsAll : List Element → List Variable
  | [] => []
  | .triples ts :: rest => ts.flatMap GenerateTriple.vars ++ Element.varsAll rest
  | .query q :: rest => q.vars ++ Element.varsAll rest
  | .call c :: rest => c.vars ++ Element.varsAll rest

/-- The variables in some elements of a template. -/
def TemplateElement.varsAll : List TemplateElement → List Variable
  | [] => []
  | .text _ :: rest => TemplateElement.varsAll rest
  | .expression e :: rest => e.vars ++ TemplateElement.varsAll rest
  | .query q :: rest => q.vars ++ TemplateElement.varsAll rest
  | .call c :: rest => c.vars ++ TemplateElement.varsAll rest

end

theorem Query.mem_vars_of_postSelect {q : Query} {v : Variable}
    (h : v ∈ q.postSelect.map (·.1)) : v ∈ q.vars := by
  obtain ⟨b, hb, rfl⟩ := List.mem_map.mp h
  obtain ⟨base, prefixes, name, signature, dataset, bindings, pattern, modifiers, form,
    postSelect⟩ := q
  rw [vars]
  exact List.mem_append_right _ (List.mem_flatMap.mpr ⟨b, hb, List.mem_cons_self⟩)

/-! ### The variables that lifting introduces -/

namespace Lifting

theorem exists_table_lift (l : Lifting) (e : Expression) :
    ∃ new, (l.lift e).table = l.table ++ new := by
  unfold Lifting.lift
  split
  · exact ⟨[], (List.append_nil _).symm⟩
  · exact ⟨_, rfl⟩

/-- New expressions come behind those of the table. -/
theorem exists_table_liftAll (l : Lifting) (es : List Expression) :
    ∃ new, (l.liftAll es).table = l.table ++ new := by
  induction es generalizing l with
  | nil => exact ⟨[], (List.append_nil _).symm⟩
  | cons e es ih =>
    obtain ⟨first, hfirst⟩ := l.exists_table_lift e
    obtain ⟨rest, hrest⟩ := ih (l.lift e)
    have htable : (l.liftAll (e :: es)).table = (l.lift e).table ++ rest := hrest
    exact ⟨first ++ rest, by rw [htable, hfirst, List.append_assoc]⟩

end Lifting

/-- Some bindings with those of a table behind them: a binding of the table is there exactly if
its variable was not bound before. -/
theorem mem_foldl_addBinding {v : Variable} {e : Expression} :
    ∀ {table : List (Expression × Variable)} {bindings : List (Variable × Expression)},
      (table.map (·.2)).Nodup →
      ((v, e) ∈ table.foldl (fun bindings (e, v) => addBinding bindings v e) bindings ↔
        (v, e) ∈ bindings ∨ (e, v) ∈ table ∧ v ∉ bindings.map (·.1))
  | [], _, _ => by simp
  | (e', w) :: rest, bindings, h => by
    rw [List.map_cons, List.nodup_cons] at h
    have hrest : ∀ x, (x, w) ∉ rest := fun x hx => h.1 (List.mem_map_of_mem (f := (·.2)) hx)
    have hknown : bindings.any (·.1 == w) = true ↔ w ∈ bindings.map (·.1) := by simp
    show (v, e) ∈ rest.foldl _ (addBinding bindings w e') ↔ _
    rw [mem_foldl_addBinding h.2]
    by_cases hw : w ∈ bindings.map (·.1)
    · have hadd : addBinding bindings w e' = bindings := if_pos (hknown.mpr hw)
      rw [hadd, List.mem_cons, Prod.mk.injEq]
      constructor
      · exact Or.imp_right fun ⟨hmem, hv⟩ => ⟨.inr hmem, hv⟩
      · rintro (hb | ⟨⟨rfl, rfl⟩ | hmem, hv⟩)
        · exact .inl hb
        · exact absurd hw hv
        · exact .inr ⟨hmem, hv⟩
    · have hadd : addBinding bindings w e' = bindings ++ [(w, e')] :=
        if_neg fun hk => hw (hknown.mp hk)
      rw [hadd, List.mem_append, List.mem_singleton, List.map_append, List.mem_append,
        List.map_singleton, List.mem_singleton, List.mem_cons, Prod.mk.injEq, Prod.mk.injEq, not_or]
      constructor
      · rintro ((hb | ⟨rfl, rfl⟩) | ⟨hmem, hv, -⟩)
        · exact .inl hb
        · exact .inr ⟨.inl ⟨rfl, rfl⟩, hw⟩
        · exact .inr ⟨.inr hmem, hv⟩
      · rintro (hb | ⟨⟨rfl, rfl⟩ | hmem, hv⟩)
        · exact .inl (.inl hb)
        · exact .inl (.inr ⟨rfl, rfl⟩)
        · exact .inr ⟨hmem, hv, fun (he : v = w) => hrest e (he ▸ hmem)⟩

namespace Query

variable {l : Lifting} {q : Query} {id : Nat} {given : List Expression} {e : Expression}
  {v : Variable}

/-- The table of the expressions that are lifted out of a query's own output, the first variable
having the given number. -/
def liftingFrom (q : Query) (id : Nat) : Lifting := (q.lift (.startingAt id)).1

/-- The variables that lifting a query introduces, in order. -/
def introduced (q : Query) (id : Nat) : List Variable := (q.liftingFrom id).table.map (·.2)

theorem liftingFrom_eq (q : Query) (id : Nat) :
    q.liftingFrom id = (Lifting.startingAt id).liftAll q.form.embedded := Lifting.form_eq _ _

theorem pairs_liftingFrom (q : Query) (id : Nat) :
    (q.liftingFrom id).Pairs id q.form.embedded := by
  rw [liftingFrom_eq]
  exact (Lifting.pairs_startingAt id q.form.embedded).liftAll fun _ he => he

/-- The introduced variables are numbered from the given number up to that of the next one. -/
theorem introduced_eq (q : Query) (id : Nat) : q.introduced id =
    (List.range' id ((q.liftingFrom id).nextId - id)).map Lifting.freshVariable := by
  rw [introduced, (q.pairs_liftingFrom id).vars, (q.pairs_liftingFrom id).nextId,
    Nat.add_sub_cancel_left]

/-- Every expression that is lifted has a variable. -/
theorem exists_variableFor? (h : e ∈ q.form.embedded) (id : Nat) :
    ∃ v, (q.liftingFrom id).variableFor? e = some v := by
  rw [liftingFrom_eq]
  exact Option.isSome_iff_exists.mp (Lifting.isSome_variableFor?_liftAll _ h)

theorem mem_introduced (h : (q.liftingFrom id).variableFor? e = some v) : v ∈ q.introduced id :=
  List.mem_map_of_mem (f := (·.2)) (Lifting.mem_of_variableFor? h)

/-- Lifting introduces as many variables as there are distinct expressions to lift. -/
theorem nextId_liftingFrom (q : Query) (id : Nat) :
    (q.liftingFrom id).nextId = id + q.form.embedded.dedup.length := by
  have hpairs := q.pairs_liftingFrom id
  have hperm : ((q.liftingFrom id).table.map (·.1)).Perm q.form.embedded.dedup := by
    refine (List.perm_ext_iff_of_nodup hpairs.nodup (List.nodup_dedup _)).mpr fun e => ?_
    rw [List.mem_dedup]
    constructor
    · intro he
      obtain ⟨b, hb, rfl⟩ := List.mem_map.mp he
      exact hpairs.source b hb
    · intro he
      obtain ⟨v, hv⟩ := exists_variableFor? he id
      exact List.mem_map_of_mem (f := (·.1)) (Lifting.mem_of_variableFor? hv)
  rw [hpairs.nextId, ← hperm.length_eq, List.length_map]

/-- The introduced variables are those with one of as many numbers as there are distinct expressions
to lift. -/
theorem mem_introduced_iff : v ∈ q.introduced id ↔
    ∃ k < q.form.embedded.dedup.length, v = Lifting.freshVariable (id + k) := by
  rw [introduced_eq, nextId_liftingFrom, Nat.add_sub_cancel_left, List.mem_map]
  constructor
  · rintro ⟨n, hn, rfl⟩
    obtain ⟨hle, hlt⟩ := List.mem_range'_1.mp hn
    exact ⟨n - id, by omega, by rw [Nat.add_sub_cancel' hle]⟩
  · rintro ⟨k, hk, rfl⟩
    exact ⟨id + k, List.mem_range'_1.mpr (by omega), rfl⟩

/-- A lifted query binds a variable to its expression exactly if it was given the binding, or if the
expression is new to the table and the query was given no binding of the variable. -/
theorem mem_postSelect_lift (h : (l.form q.form).Pairs id given)
    (hv : (l.form q.form).variableFor? e = some v) : (v, e) ∈ (q.lift l).2.postSelect ↔
      (v, e) ∈ q.postSelect ∨ v ∉ q.postSelect.map (·.1) ∧ l.variableFor? e = none := by
  obtain ⟨new, hnew⟩ := l.exists_table_liftAll q.form.embedded
  rw [← Lifting.form_eq] at hnew
  have hvars : (new.map (·.2)).Nodup := by
    have hall := h.nodup_vars
    rw [Lifting.map_fst_bindings, hnew, List.map_append] at hall
    exact hall.of_append_right
  have hkeys : (l.table.map (·.1) ++ new.map (·.1)).Nodup := by
    rw [← List.map_append, ← hnew]
    exact h.nodup
  have hfresh : (e, v) ∈ new ↔ l.variableFor? e = none := by
    have hmem := Lifting.mem_of_variableFor? hv
    rw [hnew, List.mem_append] at hmem
    rw [Lifting.variableFor?_eq_none]
    constructor
    · intro hin hold
      exact List.disjoint_of_nodup_append hkeys hold (List.mem_map_of_mem (f := (·.1)) hin)
    · intro hold
      exact hmem.resolve_left fun hin => hold (List.mem_map_of_mem (f := (·.1)) hin)
  show (v, e) ∈ ((l.form q.form).table.drop l.table.length).foldl _ q.postSelect ↔ _
  rw [hnew, List.drop_left, mem_foldl_addBinding hvars, hfresh, and_comm (a := _ = _)]

/-- The binding of an introduced variable is behind the select part of the lifted query exactly if
it was there before or nothing bound the variable there. -/
theorem mem_postSelect_normalized (h : (q.liftingFrom id).variableFor? e = some v) :
    (v, e) ∈ (q.normalized id).postSelect ↔
      (v, e) ∈ q.postSelect ∨ v ∉ q.postSelect.map (·.1) := by
  have hlift : (v, e) ∈ (q.normalized id).postSelect ↔ (v, e) ∈ q.postSelect ∨
      v ∉ q.postSelect.map (·.1) ∧ (Lifting.startingAt id).variableFor? e = none :=
    mem_postSelect_lift (q.pairs_liftingFrom id) h
  rw [hlift]
  exact or_congr_right (and_iff_left rfl)

/-! ### Capture -/

/-- **How fresh lifted variables are.**  The variables that lifting introduces have as many numbers,
from the given one on, as there are distinct expressions to lift.  They differ from all variables of
the query exactly if none of these has such a name.  Every lifted expression has one of them; the
lifted query binds it to the expression exactly if the query itself binds it to nothing else behind
its select part, and so always if the variables are fresh. -/
theorem captures_iff (q : Query) (id : Nat) :
    (∀ v, v ∈ q.introduced id ↔
      ∃ k < q.form.embedded.dedup.length, v = Lifting.freshVariable (id + k)) ∧
    ((∀ v ∈ q.introduced id, v ∉ q.vars) ↔
      ∀ k < q.form.embedded.dedup.length, Lifting.freshVariable (id + k) ∉ q.vars) ∧
    ∀ e ∈ q.form.embedded, ∃ v ∈ q.introduced id,
      (q.liftingFrom id).variableFor? e = some v ∧
      ((v, e) ∈ (q.normalized id).postSelect ↔
        (v, e) ∈ q.postSelect ∨ v ∉ q.postSelect.map (·.1)) ∧
      (v ∉ q.vars → (v, e) ∈ (q.normalized id).postSelect) := by
  refine ⟨fun v => mem_introduced_iff, ?_, fun e he => ?_⟩
  · constructor
    · exact fun h k hk => h _ (mem_introduced_iff.mpr ⟨k, hk, rfl⟩)
    · intro h v hv
      obtain ⟨k, hk, rfl⟩ := mem_introduced_iff.mp hv
      exact h k hk
  · obtain ⟨v, hv⟩ := exists_variableFor? he id
    have hbound := mem_postSelect_normalized hv
    exact ⟨v, mem_introduced hv, hv, hbound, fun hfresh =>
      hbound.mpr (.inr fun hmem => hfresh (mem_vars_of_postSelect hmem))⟩

/-- The text of an IRI, as an expression. -/
def textOf (iri : String) : Expression := .call (.builtin .str) [.iri ⟨iri⟩]

/-- A query that uses two names of the kind that lifting generates: it binds the one in a clause and
the other behind the select part. -/
def capturing : Query :=
  { (default : Query) with
    bindings := [.bind (.literal (.simple "mine")) ⟨"__generate1"⟩]
    form := .generate [.triples [
      ⟨.iri ⟨"urn:s"⟩, .iri ⟨"urn:p"⟩, .var ⟨"__generate1"⟩⟩,
      ⟨.iri ⟨"urn:s"⟩, .iri ⟨"urn:q"⟩, .expression (textOf "urn:o")⟩,
      ⟨.iri ⟨"urn:s"⟩, .iri ⟨"urn:r"⟩, .expression (textOf "urn:u")⟩]]
    postSelect := [(⟨"__generate0"⟩, .literal (.simple "given"))] }

/-- Numbered from two on, the query's lifted variables are fresh and all bound. -/
theorem captures_nothing_from_two :
    (∀ v ∈ capturing.introduced 2, v ∉ capturing.vars) ∧
      textOf "urn:o" ∈ capturing.form.embedded ∧
      ∃ v, (capturing.liftingFrom 2).variableFor? (textOf "urn:o") = some v ∧
        (v, textOf "urn:o") ∈ (capturing.normalized 2).postSelect := by
  obtain ⟨-, hfresh, hbound⟩ := captures_iff capturing 2
  have hnames : ∀ v ∈ capturing.introduced 2, v ∉ capturing.vars :=
    hfresh.mpr (by decide +kernel)
  have hmem : textOf "urn:o" ∈ capturing.form.embedded := by decide +kernel
  obtain ⟨v, hv, hfor, -, hpost⟩ := hbound _ hmem
  exact ⟨hnames, hmem, v, hfor, hpost (hnames v hv)⟩

/-- Numbered from zero on, one of them is the variable that a clause binds and a position reads, and
the other is not bound to its expression at all. -/
theorem captures_own_variables :
    (⟨"__generate1"⟩ : Variable) ∈ capturing.introduced 0 ∧
      (⟨"__generate1"⟩ : Variable) ∈ capturing.vars ∧
      (capturing.liftingFrom 0).variableFor? (textOf "urn:o") = some ⟨"__generate0"⟩ ∧
      (⟨"__generate0"⟩, textOf "urn:o") ∉ (capturing.normalized 0).postSelect := by
  decide +kernel

end Query

end TripleLoom
