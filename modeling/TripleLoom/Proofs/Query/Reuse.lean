import TripleLoom.Proofs.Query.Freshness
import TripleLoom.Proofs.Query.Passes

/-!
# TripleLoom.Proofs.Query.Reuse — one table for several queries

A table of lifted expressions only grows, and an expression that is in it already is not bound
again.  So a query that is lifted with the table of earlier ones need not be closed: an expression
that it shares with one of them gets the variable from there, but no binding of its own.  What comes
of a query is closed exactly if it shares no expression with an earlier one, as far as the bindings
that it was given do not interfere (`Query.closes_in_turn_iff`).
-/

namespace TripleLoom

namespace Lifting

variable {id : Nat} {es : List Expression} {e : Expression}

/-- A table that was begun for some expressions holds just these. -/
theorem variableFor?_begun_eq_none :
    ((startingAt id).liftAll es).variableFor? e = none ↔ e ∉ es := by
  constructor
  · intro h he
    have hsome := isSome_variableFor?_liftAll (startingAt id) he
    rw [h] at hsome
    cases hsome
  · intro he
    refine variableFor?_eq_none.mpr fun hmem => he ?_
    obtain ⟨b, hb, rfl⟩ := List.mem_map.mp hmem
    exact ((pairs_startingAt id es).liftAll fun _ h => h).source b hb

end Lifting

section Innermost

variable {l : Lifting} {e : Expression} {v : Variable}

/-- The variable of an expression stands in its place. -/
theorem Position.innermost_lifted {p : Position} (hp : p.embedded? = some e)
    (hv : l.variableFor? e = some v) : (p.lifted l).innermost = .var v := by
  induction p with
  | list element ih => exact ih hp
  | expression e' =>
    cases e' with
    | iri | literal | var => cases hp
    | _ =>
      cases hp
      simp [lifted, hv, innermost]
  | iri | blank | literal | var => cases hp

theorem NamedCall.name_lifted {c : NamedCall} (hc : c.embedded? = some e)
    (hv : l.variableFor? e = some v) : (c.lifted l).name = .var v := by
  obtain ⟨name, arguments⟩ := c
  cases name with
  | iri | var => cases hc
  | _ =>
    cases hc
    simp [lifted, hv]

end Innermost

namespace Query

variable {l : Lifting} {q : Query} {id : Nat} {given : List Expression} {e : Expression}
  {v : Variable}

/-! ### Queries in turn -/

/-- Some queries that are lifted one after the other, each with the table that those before it
left; nothing if the passes do not do for one of them. -/
def liftInTurn (l : Lifting) : List Query → Option (List Query)
  | [] => some []
  | q :: rest => do
    let (after, lifted) ← q.liftWithin Lifting.maxPasses l
    return lifted :: (← liftInTurn after rest)

/-- The table after some queries. -/
def tableAfter (l : Lifting) (queries : List Query) : Lifting :=
  l.liftAll (queries.flatMap (·.form.embedded))

theorem tableAfter_cons (l : Lifting) (q : Query) (queries : List Query) :
    tableAfter l (q :: queries) = tableAfter (q.lift l).1 queries := by
  have hlift : (q.lift l).1 = l.liftAll q.form.embedded := Lifting.form_eq _ _
  rw [tableAfter, tableAfter, hlift, List.flatMap_cons, Lifting.liftAll_append]

theorem liftInTurn_cons (l : Lifting) (q : Query) (rest : List Query) :
    liftInTurn l (q :: rest) = (liftInTurn (q.lift l).1 rest).map ((q.lift l).2 :: ·) := by
  rw [liftInTurn, liftWithin_eq l q (by decide)]
  show (liftInTurn (q.lift l).1 rest >>= _) = _
  cases liftInTurn (q.lift l).1 rest <;> rfl

/-- Queries in turn all come to something, each lifted with the table after those before it. -/
theorem exists_liftInTurn : ∀ (queries : List Query) (l : Lifting), ∃ lifted,
    liftInTurn l queries = some lifted ∧ lifted.length = queries.length ∧
    ∀ (i : Nat) (q : Query), queries[i]? = some q →
      lifted[i]? = some (q.lift (tableAfter l (queries.take i))).2
  | [], _ => ⟨[], rfl, rfl, fun _ _ h => by cases h⟩
  | q :: rest, l => by
    obtain ⟨lifted, hturn, hlength, hall⟩ := exists_liftInTurn rest (q.lift l).1
    refine ⟨(q.lift l).2 :: lifted, ?_, congrArg (· + 1) hlength, fun i q' h => ?_⟩
    · rw [liftInTurn_cons, hturn, Option.map_some]
    · cases i with
      | zero =>
        obtain rfl := Option.some.inj h
        rfl
      | succ i =>
        rw [List.take_succ_cons, tableAfter_cons]
        exact hall i q' h

/-! ### Closed queries -/

/-- What comes of a query is closed: each variable in the place of one of its expressions is bound
to this expression behind the select part. -/
structure Closes (q lifted : Query) : Prop where
  positions : List.Forall₂ (fun p p' : Position => ∀ e, p.embedded? = some e →
    ∃ v, p'.innermost = .var v ∧ (v, e) ∈ lifted.postSelect) q.form.positions lifted.form.positions
  calls : List.Forall₂ (fun c c' : NamedCall => ∀ e, c.embedded? = some e →
    ∃ v, c'.name = .var v ∧ (v, e) ∈ lifted.postSelect) q.form.calls lifted.form.calls

/-- A lifted query is closed exactly if it binds the variable of each expression that was lifted. -/
theorem closes_lift_iff : q.Closes (q.lift l).2 ↔ ∀ e ∈ q.form.embedded, ∀ v,
    (l.form q.form).variableFor? e = some v → (v, e) ∈ (q.lift l).2.postSelect := by
  have hform : (q.lift l).2.form = q.form.lifted (l.form q.form) := rfl
  constructor
  · rintro ⟨hpositions, hcalls⟩ e he v hv
    rw [hform, Form.positions_lifted, List.forall₂_map_right_iff, List.forall₂_same] at hpositions
    rw [hform, Form.calls_lifted, List.forall₂_map_right_iff, List.forall₂_same] at hcalls
    rcases Form.mem_embedded_iff.mp he with ⟨p, hp, hpe⟩ | ⟨c, hc, hce⟩
    · obtain ⟨w, hw, hmem⟩ := hpositions p hp e hpe
      rw [Position.innermost_lifted hpe hv] at hw
      cases hw
      exact hmem
    · obtain ⟨w, hw, hmem⟩ := hcalls c hc e hce
      rw [NamedCall.name_lifted hce hv] at hw
      cases hw
      exact hmem
  · intro h
    have hvar : ∀ e ∈ q.form.embedded, ∃ v, (l.form q.form).variableFor? e = some v := fun e he =>
      Option.isSome_iff_exists.mp (isSome_variableFor?_form l he)
    refine ⟨?_, ?_⟩
    · rw [hform, Form.positions_lifted, List.forall₂_map_right_iff, List.forall₂_same]
      intro p hp e hpe
      have he := Form.mem_embedded_of_position hp hpe
      obtain ⟨v, hv⟩ := hvar e he
      exact ⟨v, Position.innermost_lifted hpe hv, h e he v hv⟩
    · rw [hform, Form.calls_lifted, List.forall₂_map_right_iff, List.forall₂_same]
      intro c hc e hce
      have he := Form.mem_embedded_of_call hc hce
      obtain ⟨v, hv⟩ := hvar e he
      exact ⟨v, NamedCall.name_lifted hce hv, h e he v hv⟩

/-- **When a query is closed that is lifted behind others.**  Queries that are lifted one after the
other with one table all come to something.  What comes of one of them is closed exactly if, for
each expression that was lifted out of it, it was given the binding of the expression's variable to
the expression, or no binding of the variable and no query before it has the expression in its
output.  So a query that is given no bindings is closed exactly if it shares no expression with a
query before it. -/
theorem closes_in_turn_iff (id : Nat) (queries : List Query) :
    ∃ lifted, liftInTurn (.startingAt id) queries = some lifted ∧ lifted.length = queries.length ∧
    ∀ (i : Nat) (q : Query), queries[i]? = some q → ∃ q', lifted[i]? = some q' ∧
      (q.Closes q' ↔ ∀ e ∈ q.form.embedded, ∀ v,
        (tableAfter (.startingAt id) (queries.take (i + 1))).variableFor? e = some v →
        (v, e) ∈ q.postSelect ∨
          v ∉ q.postSelect.map (·.1) ∧ ∀ p ∈ queries.take i, e ∉ p.form.embedded) ∧
      (q.postSelect = [] →
        (q.Closes q' ↔ ∀ e ∈ q.form.embedded, ∀ p ∈ queries.take i, e ∉ p.form.embedded)) := by
  obtain ⟨lifted, hturn, hlength, hall⟩ := exists_liftInTurn queries (.startingAt id)
  refine ⟨lifted, hturn, hlength, fun i q hi => ⟨_, hall i q hi, ?_⟩⟩
  set l := tableAfter (.startingAt id) (queries.take i) with hl
  -- the table after the query itself
  have hafter : tableAfter (.startingAt id) (queries.take (i + 1)) = l.form q.form := by
    rw [List.take_add_one, hi, Option.toList_some, tableAfter, List.flatMap_append,
      Lifting.liftAll_append, List.flatMap_singleton, Lifting.form_eq]
    rfl
  have hpairs : (l.form q.form).Pairs id ((queries.take (i + 1)).flatMap (·.form.embedded)) := by
    rw [← hafter]
    exact (Lifting.pairs_startingAt id _).liftAll fun _ h => h
  have hearlier : ∀ e, l.variableFor? e = none ↔ ∀ p ∈ queries.take i, e ∉ p.form.embedded := by
    intro e
    rw [hl, tableAfter, Lifting.variableFor?_begun_eq_none, List.mem_flatMap]
    exact ⟨fun h p hp he => h ⟨p, hp, he⟩, fun h ⟨p, hp, he⟩ => h p hp he⟩
  have hbound : q.Closes (q.lift l).2 ↔ ∀ e ∈ q.form.embedded, ∀ v,
      (l.form q.form).variableFor? e = some v → (v, e) ∈ q.postSelect ∨
        v ∉ q.postSelect.map (·.1) ∧ ∀ p ∈ queries.take i, e ∉ p.form.embedded := by
    rw [closes_lift_iff]
    refine forall₂_congr fun e he => forall₂_congr fun v hv => ?_
    rw [mem_postSelect_lift hpairs hv, hearlier]
  rw [hafter]
  refine ⟨hbound, fun hpost => hbound.trans ?_⟩
  rw [hpost]
  refine forall₂_congr fun e he => ⟨fun h => ?_, fun h v _ => .inr ⟨List.not_mem_nil, h⟩⟩
  obtain ⟨v, hv⟩ := Option.isSome_iff_exists.mp (isSome_variableFor?_form l he)
  exact ((h v hv).resolve_left List.not_mem_nil).2

/-- A query that is lifted behind another one with other expressions is closed. -/
theorem closes_in_turn_behind_another :
    ∃ lifted q', liftInTurn (.startingAt 0) [capturing, linking] = some lifted ∧
      lifted[1]? = some q' ∧ linking.postSelect = [] ∧ linking.Closes q' := by
  obtain ⟨lifted, hturn, -, hall⟩ := closes_in_turn_iff 0 [capturing, linking]
  obtain ⟨q', hq', -, hcloses⟩ := hall 1 linking rfl
  refine ⟨lifted, q', hturn, hq', rfl, (hcloses rfl).mpr ?_⟩
  decide +kernel

/-- A query that is lifted for the second time keeps the variable of its expression, and does not
bind it. -/
theorem opens_when_repeated :
    ∃ lifted q', liftInTurn (.startingAt 0) [linking, linking] = some lifted ∧
      lifted[1]? = some q' ∧ q'.postSelect = [] ∧ ¬linking.Closes q' := by
  obtain ⟨lifted, hturn, -, hall⟩ := exists_liftInTurn [linking, linking] (.startingAt 0)
  refine ⟨lifted, _, hturn, hall 1 linking rfl, by decide +kernel, fun hcloses => ?_⟩
  have hbound := closes_lift_iff.mp hcloses (.call (.builtin .iri) [.var ⟨"x"⟩])
    (by decide +kernel) ⟨"__generate0"⟩ (by decide +kernel)
  revert hbound
  decide +kernel

end Query

end TripleLoom
