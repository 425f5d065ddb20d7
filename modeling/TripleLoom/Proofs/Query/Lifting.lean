import Mathlib.Data.List.Forall2
import Mathlib.Data.List.Nodup
import TripleLoom.Plan.OfQuery
import TripleLoom.Proofs.Run.Binding

/-!
# TripleLoom.Proofs.Query.Lifting — lifting keeps what a query means

Lifting moves the expressions of a query's output into bindings of generated variables.  The table
that it builds pairs every lifted expression with a variable of its own (`Lifting.Pairs`), so after
the bindings each generated variable holds the value of its expression in the original solution.
Where the evaluation fails the variable is not bound anew, and what the solution bound it to
before stays: the lifted output agrees with the original one exactly where no such binding comes
through (`Query.lift_agrees_iff`).
-/

namespace TripleLoom

open RunM

/-! ### Binding in order -/

/-- A solution after some bindings, each evaluated in what the ones before it made. -/
def Solution.bindEach (c : EvalContext) : List (Variable × Expression) → Solution → Solution
  | [], s => s
  | (v, e) :: rest, s => bindEach c rest (s.bindValue v (e.value? c s))

/-- A sequence after some bindings, one after the other. -/
def Context.bindInOrder (c : Context) (functions : FunctionRegistry) :
    List (Variable × Expression) → Sequence → RunM Sequence
  | [], input => return input
  | (v, e) :: rest, input => do
    c.bindInOrder functions rest (← c.bindAll functions e v input)

/-- The bindings behind the select part are run in order. -/
theorem Frame.assemble_bindings (f : Frame) (setting : Setting) :
    ∀ (bindings : List (Variable × Expression)) (input : Sequence),
      f.assemble setting input (bindings.map fun (v, e) => .clause (.bind e v)) =
        (f.context.bindInOrder setting.functions bindings input >>= f.output)
  | [], _ => rfl
  | (v, e) :: rest, input => by
    funext s
    exact congrFun (f.assemble_bindings setting rest _) _

section Binding

variable (c : Context) (functions : FunctionRegistry)

/-- Bindings that do not call `BNODE` only add their values to the solutions. -/
theorem Context.bindInOrder_eq : ∀ {bindings : List (Variable × Expression)},
    (∀ b ∈ bindings, b.2.callsBnode = false) → ∀ input : Sequence,
      ∃ output : Sequence, c.bindInOrder functions bindings input = pure output ∧
        output.solutions =
          input.solutions.map (Solution.bindEach (c.evalContext functions) bindings)
  | [], _, input => ⟨input, rfl, (List.map_id _).symm⟩
  | (v, e) :: rest, h, input => by
    obtain ⟨he, hrest⟩ := List.forall_mem_cons.mp h
    rw [bindInOrder, c.bindAll_eq functions he, pure_bind]
    obtain ⟨output, hout, hsol⟩ := Context.bindInOrder_eq hrest
      ((input.declare v).withSolutions
        (input.solutions.map fun s => s.bindValue v (e.value? (c.evalContext functions) s)))
    exact ⟨output, hout, by rw [hsol]; simp [Solution.bindEach]⟩

end Binding

namespace Solution

variable (c : EvalContext)

theorem get?_bindEach_of_not_mem {w : Variable} :
    ∀ {bindings : List (Variable × Expression)}, w ∉ bindings.map (·.1) → ∀ s : Solution,
      (s.bindEach c bindings).get? w = s.get? w
  | [], _, _ => rfl
  | (v, e) :: rest, h, s => by
    rw [List.map_cons, List.mem_cons, not_or] at h
    rw [bindEach, get?_bindEach_of_not_mem h.2, get?_bindValue, if_neg h.1]

/-- Bindings of distinct variables that none of their expressions reads: each variable ends up with
the value that its expression has in the original solution, or else keeps what it had. -/
theorem get?_bindEach {b : Variable × Expression} :
    ∀ {bindings : List (Variable × Expression)}, (bindings.map (·.1)).Nodup →
      (∀ b ∈ bindings, ∀ v ∈ b.2.reads, v ∉ bindings.map (·.1)) → b ∈ bindings → ∀ s : Solution,
      (s.bindEach c bindings).get? b.1 = (b.2.value? c s).or (s.get? b.1)
  | (v, e) :: rest, hnodup, hreads, hb, s => by
    rw [List.map_cons, List.nodup_cons] at hnodup
    have hkeep : ∀ w, w ≠ v → (s.bindValue v (e.value? c s)).get? w = s.get? w := fun w hw => by
      rw [get?_bindValue, if_neg hw]
    rw [bindEach]
    rcases List.mem_cons.mp hb with rfl | hb
    · rw [get?_bindEach_of_not_mem c hnodup.1, get?_bindValue, if_pos rfl]
    · have hrest : ∀ b ∈ rest, ∀ w ∈ b.2.reads, w ∉ rest.map (·.1) := fun b hb w hw hmem =>
        hreads b (List.mem_cons_of_mem _ hb) w hw (List.mem_cons_of_mem _ hmem)
      have hvalue : b.2.value? c (s.bindValue v (e.value? c s)) = b.2.value? c s :=
        Expression.value?_congr fun w hw => hkeep w fun he =>
          hreads b (List.mem_cons_of_mem _ hb) w hw (he ▸ List.mem_cons_self)
      have hne : b.1 ≠ v := fun he => hnodup.1 (he ▸ List.mem_map_of_mem (f := (·.1)) hb)
      rw [get?_bindEach hnodup.2 hrest hb, hvalue, hkeep _ hne]

end Solution

/-! ### The expressions of a form -/

/-- The expression that is lifted out of a position, if one is. -/
def Position.embedded? : Position → Option Expression
  | .expression (.iri _) | .expression (.literal _) | .expression (.var _) => none
  | .expression e => some e
  | .list element => element.embedded?
  | .iri _ | .blank _ | .literal _ | .var _ => none

/-- The expression that is lifted out of a call, if one is. -/
def NamedCall.embedded? (c : NamedCall) : Option Expression :=
  match c.name with
  | .iri _ | .var _ => none
  | e => some e

/-- The positions of a triple. -/
def GenerateTriple.positions (t : GenerateTriple) : List Position :=
  [t.subject, t.predicate, t.object]

/-- The positions of the triples in an element. -/
def Element.positions : Element → List Position
  | .triples ts => ts.flatMap GenerateTriple.positions
  | .call _ | .query _ => []

/-- The calls that an element is. -/
def Element.calls : Element → List NamedCall
  | .call c => [c]
  | .triples _ | .query _ => []

/-- The calls that an element of a template is. -/
def TemplateElement.calls : TemplateElement → List NamedCall
  | .call c => [c]
  | .text _ | .expression _ | .query _ => []

/-- The expressions that are lifted out of an element. -/
def Element.embedded (e : Element) : List Expression :=
  e.positions.filterMap Position.embedded? ++ e.calls.filterMap NamedCall.embedded?

/-- The expressions that are lifted out of an element of a template. -/
def TemplateElement.embedded (e : TemplateElement) : List Expression :=
  e.calls.filterMap NamedCall.embedded?

namespace Form

/-- The positions of all triples of a form, but not those of the queries in it. -/
def positions : Form → List Position
  | .generate elements => elements.flatMap Element.positions
  | .template .. | .select .. => []

/-- The calls of a form, but not those of the queries in it. -/
def calls : Form → List NamedCall
  | .generate elements => elements.flatMap Element.calls
  | .template _ elements _ _ => elements.flatMap TemplateElement.calls
  | .select .. => []

/-- The expressions that are lifted out of a form. -/
def embedded : Form → List Expression
  | .generate elements => elements.flatMap Element.embedded
  | .template _ elements _ _ => elements.flatMap TemplateElement.embedded
  | .select .. => []

variable {f : Form} {e : Expression}

theorem mem_embedded_of_position {p : Position} (hp : p ∈ f.positions)
    (he : p.embedded? = some e) : e ∈ f.embedded := by
  cases f with
  | generate elements =>
    obtain ⟨element, hmem, hp⟩ := List.mem_flatMap.mp hp
    refine List.mem_flatMap.mpr ⟨element, hmem, List.mem_append_left _ ?_⟩
    exact List.mem_filterMap.mpr ⟨p, hp, he⟩
  | template | select => cases hp

theorem mem_embedded_of_call {c : NamedCall} (hc : c ∈ f.calls)
    (he : c.embedded? = some e) : e ∈ f.embedded := by
  cases f with
  | generate elements =>
    obtain ⟨element, hmem, hc⟩ := List.mem_flatMap.mp hc
    refine List.mem_flatMap.mpr ⟨element, hmem, List.mem_append_right _ ?_⟩
    exact List.mem_filterMap.mpr ⟨c, hc, he⟩
  | template before elements separator after =>
    obtain ⟨element, hmem, hc⟩ := List.mem_flatMap.mp hc
    exact List.mem_flatMap.mpr ⟨element, hmem, List.mem_filterMap.mpr ⟨c, hc, he⟩⟩
  | select => cases hc

end Form

/-! ### The table -/

namespace Lifting

variable {l : Lifting} {e : Expression} {v : Variable}

theorem freshVariable_injective {m n : Nat} (h : freshVariable m = freshVariable n) : m = n := by
  have hname : ("__generate" ++ toString m).toList = ("__generate" ++ toString n).toList :=
    congrArg (fun v : Variable => v.name.toList) h
  rw [String.toList_append, String.toList_append, List.append_cancel_left_eq] at hname
  have hdigits : Nat.toDigits 10 m = Nat.toDigits 10 n := by
    simpa [toString, Nat.repr] using hname
  simpa using congrArg (fun ds => Nat.ofDigitChars 10 ds 0) hdigits

/-- What is known of a table that was begun with a number: its variables are numbered from there
on, each expression stands in it once, and all of them come from the given ones. -/
structure Pairs (id : Nat) (given : List Expression) (l : Lifting) : Prop where
  vars : l.table.map (·.2) = (List.range' id l.table.length).map freshVariable
  nextId : l.nextId = id + l.table.length
  nodup : (l.table.map (·.1)).Nodup
  source : ∀ b ∈ l.table, b.1 ∈ given

theorem pairs_startingAt (id : Nat) (given : List Expression) : Pairs id given (startingAt id) :=
  ⟨rfl, rfl, List.nodup_nil, by simp [startingAt]⟩

theorem variableFor?_eq_none : l.variableFor? e = none ↔ e ∉ l.table.map (·.1) := by
  rw [variableFor?, List.lookup_eq_none_iff, List.mem_map]
  constructor
  · rintro h ⟨b, hb, rfl⟩
    simpa using h b hb
  · intro h b hb
    simpa using fun he => h ⟨b, hb, Eq.symm he⟩

theorem mem_of_variableFor? (h : l.variableFor? e = some v) : (e, v) ∈ l.table := by
  obtain ⟨before, after, ht, -⟩ := List.lookup_eq_some_iff.mp h
  rw [ht]
  exact List.mem_append_right _ List.mem_cons_self

variable {id : Nat} {given : List Expression}

theorem Pairs.lift (h : Pairs id given l) (he : e ∈ given) : Pairs id given (l.lift e) := by
  unfold Lifting.lift
  split
  · exact h
  · next hnone =>
    rw [variableFor?_eq_none] at hnone
    refine ⟨?_, ?_, ?_, ?_⟩
    · simp [h.vars, h.nextId, List.range'_concat]
    · simp [h.nextId, Nat.add_assoc]
    · rw [List.map_append, List.map_singleton, ← List.concat_eq_append, List.nodup_concat]
      exact ⟨hnone, h.nodup⟩
    · simpa [or_imp, forall_and, he] using h.source

/-- The variable of an expression stays its variable. -/
theorem variableFor?_lift (h : l.variableFor? e = some v) (e' : Expression) :
    (l.lift e').variableFor? e = some v := by
  unfold Lifting.lift
  split
  · exact h
  · rw [variableFor?] at h ⊢
    rw [List.lookup_append, h]
    rfl

theorem isSome_variableFor?_lift (l : Lifting) (e : Expression) :
    ((l.lift e).variableFor? e).isSome := by
  unfold Lifting.lift
  split
  · next h => rw [h]; rfl
  · next h =>
    rw [variableFor?] at h ⊢
    rw [List.lookup_append, h]
    simp

/-- A table after some more expressions. -/
def liftAll (l : Lifting) (es : List Expression) : Lifting := es.foldl Lifting.lift l

theorem Pairs.liftAll {es : List Expression} (h : Pairs id given l) (hes : ∀ e ∈ es, e ∈ given) :
    Pairs id given (l.liftAll es) := by
  induction es generalizing l with
  | nil => exact h
  | cons e es ih =>
    obtain ⟨he, hrest⟩ := List.forall_mem_cons.mp hes
    exact ih (h.lift he) hrest

theorem variableFor?_liftAll (es : List Expression) (h : l.variableFor? e = some v) :
    (l.liftAll es).variableFor? e = some v := by
  induction es generalizing l with
  | nil => exact h
  | cons e' es ih => exact ih (variableFor?_lift h e')

theorem isSome_variableFor?_liftAll {es : List Expression} (l : Lifting) (he : e ∈ es) :
    ((l.liftAll es).variableFor? e).isSome := by
  induction es generalizing l with
  | nil => cases he
  | cons e' es ih =>
    rcases List.mem_cons.mp he with rfl | he
    · obtain ⟨v, hv⟩ := Option.isSome_iff_exists.mp (l.isSome_variableFor?_lift e)
      have := variableFor?_liftAll es hv
      exact Option.isSome_iff_exists.mpr ⟨v, this⟩
    · exact ih (l.lift e') he

/-! ### Collecting -/

theorem liftAll_append (l : Lifting) (es fs : List Expression) :
    l.liftAll (es ++ fs) = (l.liftAll es).liftAll fs := List.foldl_append

theorem position_eq (l : Lifting) (p : Position) : l.position p = l.liftAll p.embedded?.toList := by
  induction p with
  | expression e => cases e <;> rfl
  | list element ih => exact ih
  | iri | blank | literal | var => rfl

theorem triple_eq (l : Lifting) (t : GenerateTriple) :
    l.triple t = l.liftAll (t.positions.filterMap Position.embedded?) := by
  have hcons : ∀ p ps, List.filterMap Position.embedded? (p :: ps) =
      p.embedded?.toList ++ ps.filterMap Position.embedded? := fun p ps => by
    cases h : p.embedded? <;> simp [h]
  rw [GenerateTriple.positions, hcons, hcons, hcons, liftAll_append, liftAll_append,
    liftAll_append, ← position_eq, ← position_eq, ← position_eq]
  rfl

theorem call_eq (l : Lifting) (c : NamedCall) : l.call c = l.liftAll c.embedded?.toList := by
  unfold call NamedCall.embedded?
  cases c.name <;> rfl

theorem element_eq (l : Lifting) (e : Element) : l.element e = l.liftAll e.embedded := by
  cases e with
  | triples ts =>
    have hstep : triple = fun l t => l.liftAll (t.positions.filterMap Position.embedded?) :=
      funext fun l => funext fun t => l.triple_eq t
    rw [element, hstep, Element.embedded, Element.positions, Element.calls, List.filterMap_nil,
      List.append_nil, List.filterMap_flatMap]
    exact List.foldl_flatMap.symm
  | call c => rw [element, call_eq]; cases h : c.embedded? <;> simp [h, Element.embedded,
      Element.positions, Element.calls]
  | query q => rfl

theorem templateElement_eq (l : Lifting) (e : TemplateElement) :
    l.templateElement e = l.liftAll e.embedded := by
  cases e with
  | call c =>
    rw [templateElement, call_eq]
    cases h : c.embedded? <;> simp [h, TemplateElement.embedded, TemplateElement.calls]
  | text | expression | query => rfl

theorem form_eq (l : Lifting) (f : Form) : l.form f = l.liftAll f.embedded := by
  cases f with
  | generate elements =>
    have hstep : element = fun l e => l.liftAll e.embedded :=
      funext fun l => funext fun e => l.element_eq e
    rw [form, hstep]
    exact List.foldl_flatMap.symm
  | template before elements separator after =>
    have hstep : templateElement = fun l e => l.liftAll e.embedded :=
      funext fun l => funext fun e => l.templateElement_eq e
    rw [form, hstep]
    exact List.foldl_flatMap.symm
  | select => rfl

end Lifting

/-! ### What positions and names read -/

/-- Whether a variable has a name of the kind that lifting generates. -/
def Variable.IsGenerated (v : Variable) : Prop := "__generate".toList <+: v.name.toList

theorem Lifting.isGenerated_freshVariable (id : Nat) : (freshVariable id).IsGenerated := by
  rw [Variable.IsGenerated, freshVariable, String.toList_append]
  exact List.prefix_append _ _

/-- The variables that a position reads. -/
def Position.reads : Position → List Variable
  | .var v => [v]
  | .expression e => e.reads
  | .list element => element.reads
  | .iri _ | .blank _ | .literal _ => []

/-- The variables that the positions and the names of calls in a form read. -/
def Form.reads (f : Form) : List Variable :=
  f.positions.flatMap Position.reads ++ f.calls.flatMap (·.name.reads)

theorem Position.reads_of_embedded? {p : Position} {e : Expression} (h : p.embedded? = some e) :
    e.reads = p.reads := by
  induction p with
  | expression e' =>
    have he : e' = e := by
      cases e' with
      | iri | literal | var => cases h
      | _ => exact Option.some.inj h
    rw [← he, reads]
  | list element ih => exact ih h
  | iri | blank | literal | var => cases h

theorem NamedCall.name_of_embedded? {c : NamedCall} {e : Expression} (h : c.embedded? = some e) :
    c.name = e := by
  unfold embedded? at h
  split at h
  · cases h
  · cases h
  · exact Option.some.inj h

theorem Form.reads_of_embedded {f : Form} {e : Expression} (h : e ∈ f.embedded) :
    ∀ v ∈ e.reads, v ∈ f.reads := by
  intro v hv
  have hposition : ∀ p ∈ f.positions, p.embedded? = some e → v ∈ f.reads := fun p hp he =>
    List.mem_append_left _
      (List.mem_flatMap.mpr ⟨p, hp, p.reads_of_embedded? he ▸ hv⟩)
  have hcall : ∀ c ∈ f.calls, c.embedded? = some e → v ∈ f.reads := fun c hc he =>
    List.mem_append_right _
      (List.mem_flatMap.mpr ⟨c, hc, by rw [c.name_of_embedded? he]; exact hv⟩)
  cases f with
  | generate elements =>
    obtain ⟨element, hmem, he⟩ := List.mem_flatMap.mp h
    rcases List.mem_append.mp he with he | he
    · obtain ⟨p, hp, he⟩ := List.mem_filterMap.mp he
      exact hposition p (List.mem_flatMap.mpr ⟨element, hmem, hp⟩) he
    · obtain ⟨c, hc, he⟩ := List.mem_filterMap.mp he
      exact hcall c (List.mem_flatMap.mpr ⟨element, hmem, hc⟩) he
  | template before elements separator after =>
    obtain ⟨element, hmem, he⟩ := List.mem_flatMap.mp h
    obtain ⟨c, hc, he⟩ := List.mem_filterMap.mp he
    exact hcall c (List.mem_flatMap.mpr ⟨element, hmem, hc⟩) he
  | select => cases h

/-! ### The generated variables -/

namespace Lifting

variable {l : Lifting} {id : Nat} {given : List Expression} {e : Expression} {v : Variable}

/-- The bindings that a table stands for. -/
def bindings (l : Lifting) : List (Variable × Expression) := l.table.map fun (e, v) => (v, e)

theorem map_fst_bindings (l : Lifting) : l.bindings.map (·.1) = l.table.map (·.2) := by
  simp [bindings]

theorem Pairs.nodup_vars (h : Pairs id given l) : (l.bindings.map (·.1)).Nodup := by
  rw [map_fst_bindings, h.vars]
  exact List.Nodup.map (fun _ _ he => freshVariable_injective he) List.nodup_range'

theorem Pairs.isGenerated (h : Pairs id given l) (hv : v ∈ l.bindings.map (·.1)) :
    v.IsGenerated := by
  rw [map_fst_bindings, h.vars] at hv
  obtain ⟨n, -, rfl⟩ := List.mem_map.mp hv
  exact isGenerated_freshVariable n

theorem Pairs.mem_bindings (h : Pairs id given l) :
    (v, e) ∈ l.bindings ↔ l.variableFor? e = some v := by
  have hmem : (v, e) ∈ l.bindings ↔ (e, v) ∈ l.table := by simp [bindings]
  rw [hmem]
  refine ⟨fun hb => ?_, mem_of_variableFor?⟩
  cases hw : l.variableFor? e with
  | none => exact absurd (List.mem_map_of_mem (f := (·.1)) hb) (variableFor?_eq_none.mp hw)
  | some w =>
    have heq := List.inj_on_of_nodup_map h.nodup hb (mem_of_variableFor? hw) rfl
    simp only [Prod.mk.injEq, true_and] at heq
    rw [heq]

/-- A table that holds all of the given expressions, none of which calls `BNODE` or reads a
generated variable. -/
structure Covers (id : Nat) (given : List Expression) (l : Lifting) : Prop
    extends Pairs id given l where
  covers : ∀ e ∈ given, ∃ v, (v, e) ∈ l.bindings
  plain : ∀ e ∈ given, e.callsBnode = false
  unread : ∀ e ∈ given, ∀ v ∈ e.reads, ¬v.IsGenerated

variable (c : EvalContext) (s : Solution)

/-- After the bindings a generated variable holds the value of its expression, or what it held. -/
theorem Covers.get?_bindEach (h : Covers id given l) (hb : (v, e) ∈ l.bindings) :
    (s.bindEach c l.bindings).get? v = (e.value? c s).or (s.get? v) := by
  refine Solution.get?_bindEach c (b := (v, e)) h.nodup_vars ?_ hb s
  rintro ⟨w, e'⟩ hw u hu hmem
  have htable : (e', w) ∈ l.table := mem_of_variableFor? (h.mem_bindings.mp hw)
  exact h.unread e' (h.source _ htable) u hu (h.isGenerated hmem)

/-- Any other variable holds what it held. -/
theorem Pairs.get?_bindEach_of_not (h : Pairs id given l) (hv : ¬v.IsGenerated) :
    (s.bindEach c l.bindings).get? v = s.get? v :=
  Solution.get?_bindEach_of_not_mem c (fun hmem => hv (h.isGenerated hmem)) s

end Lifting

/-- Adding bindings of distinct variables that are not bound yet appends them. -/
theorem foldl_addBinding : ∀ {table : List (Expression × Variable)}
    {bindings : List (Variable × Expression)}, (table.map (·.2)).Nodup →
    (∀ b ∈ table, b.2 ∉ bindings.map (·.1)) →
      table.foldl (fun bindings (e, v) => addBinding bindings v e) bindings =
        bindings ++ table.map fun (e, v) => (v, e)
  | [], _, _, _ => (List.append_nil _).symm
  | (e, v) :: rest, bindings, hnodup, hnew => by
    rw [List.map_cons, List.nodup_cons] at hnodup
    obtain ⟨hv, hrest⟩ := List.forall_mem_cons.mp hnew
    have hadd : addBinding bindings v e = bindings ++ [(v, e)] :=
      if_neg fun hany => hv (by simpa using hany)
    show rest.foldl _ (addBinding bindings v e) = _
    rw [hadd, foldl_addBinding hnodup.2 fun b hb => ?_, List.append_assoc]
    · rfl
    · rw [List.map_append, List.mem_append, not_or, List.map_singleton, List.mem_singleton]
      exact ⟨hrest b hb, fun (he : b.2 = v) =>
        hnodup.1 (he ▸ List.mem_map_of_mem (f := (·.2)) hb)⟩

/-! ### Agreement -/

/-- The position inside all lists around it. -/
def Position.innermost : Position → Position
  | .list element => element.innermost
  | p => p

/-- The term that a position stands for in a solution: its expression is evaluated in one context,
a placeholder gets its node in another. -/
def Position.evaluate (c leaf : Context) (functions : FunctionRegistry) (s : Solution) :
    Position → RunM (Option Term)
  | .iri i => return some (.iri i)
  | .blank b => return some (← leaf.mint b.label)
  | .literal l => return some (.literal l)
  | .var v => return s.get? v
  | .expression e => c.eval? functions e s
  | .list element => element.evaluate c leaf functions s

/-- A position agrees with a lifted one: the latter is compiled to a term whose instance in the
solution with the bindings is what the former stands for in the solution itself. -/
def Position.Agrees (c leaf : Context) (functions : FunctionRegistry) (s bound : Solution)
    (p p' : Position) : Prop :=
  ∃ t, TemplateTerm.ofPosition p'.innermost = pure t ∧
    t.instantiate leaf bound = p.evaluate c leaf functions s

/-- A call agrees with a lifted one: the latter is compiled to a call with the same arguments whose
name in the solution with the bindings is the IRI, if it is one, that the name of the former gives
in the solution itself. -/
def NamedCall.Agrees (c : Context) (functions : FunctionRegistry) (s bound : Solution)
    (call call' : NamedCall) : Prop :=
  ∃ plan value, CallPlan.ofCall call' = pure plan ∧ plan.arguments = call.arguments ∧
    c.eval? functions call.name s = pure value ∧ plan.name? bound = value.bind Term.toIri?

theorem Build.pure_inj {α : Type} {a b : α} : (pure a : Build α) = pure b ↔ a = b := by
  refine ⟨fun h => ?_, fun h => h ▸ rfl⟩
  have hrun : (Except.ok a, Numbering.start) = ((Except.ok b, Numbering.start) :
      Except PlanError α × Numbering) := congrFun h .start
  exact Except.ok.inj (Prod.mk.inj hrun).1

theorem RunM.pure_inj {α : Type} {a b : α} : (pure a : RunM α) = pure b ↔ a = b :=
  ⟨fun h => congrArg Prod.fst (congrFun h default), fun h => h ▸ rfl⟩

/-- Whether a failing expression of a position leaves its place empty: no solution binds the variable
that some bindings give to it. -/
def Position.IsClear (c : EvalContext) (s : Solution) (bindings : List (Variable × Expression))
    (p : Position) : Prop :=
  ∀ e v, p.embedded? = some e → (v, e) ∈ bindings → e.value? c s = none → s.get? v = none

/-- Whether a failing name of a call leaves the call out: no solution binds the variable that some
bindings give to it to an IRI. -/
def NamedCall.IsClear (c : EvalContext) (s : Solution) (bindings : List (Variable × Expression))
    (call : NamedCall) : Prop :=
  ∀ e v, call.embedded? = some e → (v, e) ∈ bindings → e.value? c s = none →
    (s.get? v).bind Term.toIri? = none

section Agreement

variable {c leaf : Context} {functions : FunctionRegistry} {s : Solution} {l : Lifting} {id : Nat}
  {given : List Expression} (h : l.Covers id given)

/-- A position without a lifted expression is clear. -/
theorem Position.isClear_of_none {p : Position} (hp : p.embedded? = none) (c : EvalContext)
    (bindings : List (Variable × Expression)) : p.IsClear c s bindings :=
  fun e v he => absurd (hp.symm.trans he) (by simp)

include h

/-- A lifted expression agrees with its variable unless it fails and the variable is bound. -/
theorem Position.agrees_iff_of_embedded {e : Expression} {p p' : Position}
    (hp : p = .expression e) (he : p.embedded? = some e) (hmem : e ∈ given)
    (hl : ∀ v, l.variableFor? e = some v → p' = .var v) :
    p.Agrees c leaf functions s (s.bindEach (c.evalContext functions) l.bindings) p' ↔
      p.IsClear (c.evalContext functions) s l.bindings := by
  obtain ⟨v, hv⟩ := h.covers e hmem
  have hfor := h.mem_bindings.mp hv
  obtain rfl := hl v hfor
  have hclear : p.IsClear (c.evalContext functions) s l.bindings ↔
      (e.value? (c.evalContext functions) s = none → s.get? v = none) := by
    refine ⟨fun hc => hc e v he hv, fun hc e' v' he' hv' => ?_⟩
    obtain rfl := Option.some.inj (he.symm.trans he')
    obtain rfl := Option.some.inj (hfor.symm.trans (h.mem_bindings.mp hv'))
    exact hc
  have hagrees : p.Agrees c leaf functions s (s.bindEach (c.evalContext functions) l.bindings)
      (.var v) ↔ (TemplateTerm.var v).instantiate leaf
        (s.bindEach (c.evalContext functions) l.bindings) = c.eval? functions e s := by
    subst hp
    refine ⟨?_, fun h => ⟨.var v, rfl, h⟩⟩
    rintro ⟨t, ht, hinst⟩
    rw [Build.pure_inj.mp ht]
    exact hinst
  rw [hclear, hagrees, c.eval?_eq functions (h.plain e hmem), TemplateTerm.instantiate,
    RunM.pure_inj, h.get?_bindEach _ s hv]
  cases e.value? (c.evalContext functions) s with
  | none => simp
  | some value => simp

/-- A position agrees with what lifting makes of it exactly if it is clear. -/
theorem Position.agrees_lifted_iff {p : Position} (hreads : ∀ v ∈ p.reads, ¬v.IsGenerated)
    (hmem : ∀ e, p.embedded? = some e → e ∈ given) :
    p.Agrees c leaf functions s (s.bindEach (c.evalContext functions) l.bindings) (p.lifted l) ↔
      p.IsClear (c.evalContext functions) s l.bindings := by
  have hvar : ∀ v, ¬v.IsGenerated →
      (TemplateTerm.var v).instantiate leaf (s.bindEach (c.evalContext functions) l.bindings) =
        pure (s.get? v) := fun v hv => by
    rw [TemplateTerm.instantiate, h.get?_bindEach_of_not _ s hv]
  induction p with
  | list element ih => exact ih hreads hmem
  | iri i => exact iff_of_true ⟨.iri i, rfl, rfl⟩ (isClear_of_none rfl _ _)
  | blank b => exact iff_of_true ⟨.blank b, rfl, rfl⟩ (isClear_of_none rfl _ _)
  | literal t => exact iff_of_true ⟨.literal t, rfl, rfl⟩ (isClear_of_none rfl _ _)
  | var v =>
    have hv : ¬v.IsGenerated := hreads v List.mem_cons_self
    exact iff_of_true ⟨.var v, rfl, hvar v hv⟩ (isClear_of_none rfl _ _)
  | expression e =>
    cases e with
    | iri i => exact iff_of_true ⟨.iri i, rfl, rfl⟩ (isClear_of_none rfl _ _)
    | literal t => exact iff_of_true ⟨.literal t, rfl, rfl⟩ (isClear_of_none rfl _ _)
    | var v =>
      have hv : ¬v.IsGenerated := hreads v List.mem_cons_self
      exact iff_of_true ⟨.var v, rfl, hvar v hv⟩ (isClear_of_none rfl _ _)
    | _ =>
      exact agrees_iff_of_embedded h rfl rfl (hmem _ rfl) fun v hv => by simp [lifted, hv]

/-- A call by a lifted expression agrees with the call by its variable unless the expression fails
and the variable is bound to an IRI. -/
theorem NamedCall.agrees_iff_of_embedded {call : NamedCall}
    (he : call.embedded? = some call.name) (hmem : call.name ∈ given)
    (hl : ∀ v, l.variableFor? call.name = some v → call.lifted l = { call with name := .var v }) :
    call.Agrees c functions s (s.bindEach (c.evalContext functions) l.bindings)
        (call.lifted l) ↔
      call.IsClear (c.evalContext functions) s l.bindings := by
  obtain ⟨v, hv⟩ := h.covers call.name hmem
  have hfor := h.mem_bindings.mp hv
  rw [hl v hfor]
  have hclear : call.IsClear (c.evalContext functions) s l.bindings ↔
      (call.name.value? (c.evalContext functions) s = none →
        (s.get? v).bind Term.toIri? = none) := by
    refine ⟨fun hc => hc _ v he hv, fun hc e' v' he' hv' => ?_⟩
    obtain rfl := Option.some.inj (he.symm.trans he')
    obtain rfl := Option.some.inj (hfor.symm.trans (h.mem_bindings.mp hv'))
    exact hc
  have hagrees : call.Agrees c functions s (s.bindEach (c.evalContext functions) l.bindings)
      { call with name := .var v } ↔
      ((s.bindEach (c.evalContext functions) l.bindings).get? v).bind Term.toIri? =
        (call.name.value? (c.evalContext functions) s).bind Term.toIri? := by
    have hplan : CallPlan.ofCall { call with name := .var v } = pure ⟨.var v, call.arguments⟩ := rfl
    have heval := c.eval?_eq functions (h.plain _ hmem) s
    constructor
    · rintro ⟨plan, value, hp, -, hvalue, hname⟩
      rw [hplan, Build.pure_inj] at hp
      rw [heval, RunM.pure_inj] at hvalue
      rw [← hp, ← hvalue] at hname
      exact hname
    · exact fun hname => ⟨_, _, hplan, rfl, heval, hname⟩
  rw [hclear, hagrees, h.get?_bindEach _ s hv]
  cases call.name.value? (c.evalContext functions) s with
  | none => simp
  | some value => simp

/-- A call agrees with what lifting makes of it exactly if it is clear. -/
theorem NamedCall.agrees_lifted_iff {call : NamedCall}
    (hreads : ∀ v ∈ call.name.reads, ¬v.IsGenerated)
    (hmem : ∀ e, call.embedded? = some e → e ∈ given) :
    call.Agrees c functions s (s.bindEach (c.evalContext functions) l.bindings)
        (call.lifted l) ↔
      call.IsClear (c.evalContext functions) s l.bindings := by
  have hnone : call.embedded? = none →
      call.IsClear (c.evalContext functions) s l.bindings :=
    fun hn e v he => absurd (hn.symm.trans he) (by simp)
  obtain ⟨name, arguments⟩ := call
  cases name with
  | iri i =>
    refine iff_of_true ⟨⟨.iri i, arguments⟩, some (.iri i), rfl, rfl, rfl, rfl⟩ (hnone rfl)
  | var v =>
    have hv : ¬v.IsGenerated := hreads v List.mem_cons_self
    refine iff_of_true ⟨⟨.var v, arguments⟩, s.get? v, rfl, rfl, rfl, ?_⟩ (hnone rfl)
    show ((s.bindEach _ _).get? v).bind _ = _
    rw [h.get?_bindEach_of_not _ s hv]
  | _ =>
    exact agrees_iff_of_embedded h rfl (hmem _ rfl) fun v hv => by simp [lifted, hv]

end Agreement

/-! ### Whole queries -/

/-- A position without what lifting may change: the term or expression inside its lists. -/
def Position.outline : Position → Position
  | .list element => .list element.outline
  | .iri _ | .blank _ | .literal _ | .var _ | .expression _ => .iri default

/-- A triple without what lifting may change. -/
def GenerateTriple.outline (t : GenerateTriple) : GenerateTriple :=
  ⟨t.subject.outline, t.predicate.outline, t.object.outline⟩

/-- A call without what lifting may change: its name. -/
def NamedCall.outline (c : NamedCall) : NamedCall := { c with name := default }

/-- An element without what lifting may change. -/
def Element.outline : Element → Element
  | .triples ts => .triples (ts.map GenerateTriple.outline)
  | .call c => .call c.outline
  | .query q => .query q

/-- An element of a template without what lifting may change. -/
def TemplateElement.outline : TemplateElement → TemplateElement
  | .call c => .call c.outline
  | e => e

/-- A form without what lifting may change: the terms and expressions in the positions of its
triples, and the names of its calls. -/
def Form.outline : Form → Form
  | .generate elements => .generate (elements.map Element.outline)
  | .template before elements separator after =>
    .template before (elements.map TemplateElement.outline) separator after
  | .select projection distinct reduced => .select projection distinct reduced

section Lifted

variable (l : Lifting)

theorem Position.outline_lifted (p : Position) : (p.lifted l).outline = p.outline := by
  induction p with
  | list element ih => exact congrArg Position.list ih
  | expression e =>
    cases e with
    | iri | literal | var => rfl
    | _ => simp only [lifted]; split <;> rfl
  | iri | blank | literal | var => rfl

theorem NamedCall.outline_lifted (c : NamedCall) : (c.lifted l).outline = c.outline := by
  unfold lifted
  split
  · rfl
  · rfl
  · split <;> rfl

theorem Form.outline_lifted (f : Form) : (f.lifted l).outline = f.outline := by
  have htriple : ∀ t : GenerateTriple, (t.lifted l).outline = t.outline := fun t => by
    simp [GenerateTriple.lifted, GenerateTriple.outline, Position.outline_lifted]
  cases f with
  | generate elements =>
    refine congrArg Form.generate ?_
    rw [List.map_map]
    refine List.map_congr_left fun e _ => ?_
    cases e with
    | triples ts => simp [Element.lifted, Element.outline, htriple]
    | call c => exact congrArg Element.call (c.outline_lifted l)
    | query q => rfl
  | template before elements separator after =>
    refine congrArg (Form.template before · separator after) ?_
    rw [List.map_map]
    refine List.map_congr_left fun e _ => ?_
    cases e with
    | call c => exact congrArg TemplateElement.call (c.outline_lifted l)
    | text | expression | query => rfl
  | select => rfl

theorem Form.positions_lifted (f : Form) :
    (f.lifted l).positions = f.positions.map (·.lifted l) := by
  cases f with
  | generate elements =>
    simp only [lifted, positions, List.flatMap_map, List.map_flatMap]
    refine List.flatMap_congr fun e _ => ?_
    cases e with
    | triples ts =>
      simp only [Element.lifted, Element.positions, List.flatMap_map, List.map_flatMap]
      rfl
    | call | query => rfl
  | template | select => rfl

theorem Form.calls_lifted (f : Form) : (f.lifted l).calls = f.calls.map (·.lifted l) := by
  cases f with
  | generate elements =>
    simp only [lifted, calls, List.flatMap_map, List.map_flatMap]
    refine List.flatMap_congr fun e _ => ?_
    cases e <;> rfl
  | template before elements separator after =>
    simp only [lifted, calls, List.flatMap_map, List.map_flatMap]
    refine List.flatMap_congr fun e _ => ?_
    cases e <;> rfl
  | select => rfl

end Lifted

namespace Query

/-- A query with its expressions lifted, the first variable having the given number. -/
def normalized (q : Query) (id : Nat) : Query := (q.lift (.startingAt id)).2

variable {q : Query} (id : Nat)

theorem form_normalized :
    (q.normalized id).form = q.form.lifted ((Lifting.startingAt id).form q.form) := rfl

/-- The table of a query's own expressions. -/
theorem covers_form (hreads : ∀ v ∈ q.form.reads, ¬v.IsGenerated)
    (hplain : ∀ e ∈ q.form.embedded, e.callsBnode = false) :
    ((Lifting.startingAt id).form q.form).Covers id q.form.embedded := by
  rw [Lifting.form_eq]
  have hpairs := (Lifting.pairs_startingAt id q.form.embedded).liftAll fun _ he => he
  refine ⟨hpairs, fun e he => ?_, hplain, fun e he v hv => ?_⟩
  · obtain ⟨v, hv⟩ :=
      Option.isSome_iff_exists.mp (Lifting.isSome_variableFor?_liftAll (.startingAt id) he)
    exact ⟨v, hpairs.mem_bindings.mpr hv⟩
  · exact hreads v (Form.reads_of_embedded he v hv)

/-- Bindings of variables that the query was given no bindings of come behind the given ones. -/
theorem postSelect_normalized_eq_append {given : List Expression}
    (h : ((Lifting.startingAt id).form q.form).Pairs id given)
    (hpost : ∀ b ∈ ((Lifting.startingAt id).form q.form).table, b.2 ∉ q.postSelect.map (·.1)) :
    (q.normalized id).postSelect =
      q.postSelect ++ ((Lifting.startingAt id).form q.form).bindings := by
  have hnodup := h.nodup_vars
  rw [Lifting.map_fst_bindings] at hnodup
  exact foldl_addBinding hnodup hpost

theorem postSelect_normalized (hpost : q.postSelect = []) {given : List Expression}
    (h : ((Lifting.startingAt id).form q.form).Covers id given) :
    (q.normalized id).postSelect = ((Lifting.startingAt id).form q.form).bindings := by
  have hnew : ∀ b ∈ ((Lifting.startingAt id).form q.form).table, b.2 ∉ q.postSelect.map (·.1) := by
    rw [hpost]
    exact fun _ _ => List.not_mem_nil
  rw [postSelect_normalized_eq_append id h.toPairs hnew, hpost, List.nil_append]

/-- What lifting does to the meaning of a query whose output neither mentions a generated variable
nor calls `BNODE`.  Everything but the positions, the names of calls and the bindings behind the
select part is as it was.  The bindings change no state, and make one solution of each.  In it the
lifted positions and names give what the original ones give in the solution itself exactly if no
failing expression's variable is bound by the solution already. -/
theorem normalized_agrees_iff (c : Context) (functions : FunctionRegistry)
    (hpost : q.postSelect = []) (hreads : ∀ v ∈ q.form.reads, ¬v.IsGenerated)
    (hplain : ∀ e ∈ q.form.embedded, e.callsBnode = false) :
    q.normalized id = { q with form := (q.normalized id).form
                               postSelect := (q.normalized id).postSelect } ∧
    (q.normalized id).form.outline = q.form.outline ∧
    ∃ bound : Solution → Solution,
      (∀ input : Sequence, ∃ output : Sequence,
        c.bindInOrder functions (q.normalized id).postSelect input = pure output ∧
          output.solutions = input.solutions.map bound) ∧
      ∀ (s : Solution) (leaf : Context),
        (List.Forall₂ (Position.Agrees c leaf functions s (bound s))
            q.form.positions (q.normalized id).form.positions ∧
          List.Forall₂ (NamedCall.Agrees c functions s (bound s))
            q.form.calls (q.normalized id).form.calls) ↔
        (∀ p ∈ q.form.positions,
            p.IsClear (c.evalContext functions) s (q.normalized id).postSelect) ∧
          ∀ call ∈ q.form.calls,
            call.IsClear (c.evalContext functions) s (q.normalized id).postSelect := by
  have hcovers := covers_form id hreads hplain
  rw [postSelect_normalized id hpost hcovers, form_normalized, Form.outline_lifted,
    Form.positions_lifted, Form.calls_lifted]
  refine ⟨?_, rfl, Solution.bindEach (c.evalContext functions)
    ((Lifting.startingAt id).form q.form).bindings, ?_, fun s leaf => ?_⟩
  · rw [← postSelect_normalized id hpost hcovers]
    rfl
  · refine c.bindInOrder_eq functions ?_
    rintro ⟨v, e⟩ hb
    exact hplain e (hcovers.source _ (Lifting.mem_of_variableFor? (hcovers.mem_bindings.mp hb)))
  · rw [List.forall₂_map_right_iff, List.forall₂_map_right_iff, List.forall₂_same,
      List.forall₂_same]
    refine and_congr (forall₂_congr fun p hp => ?_) (forall₂_congr fun call hc => ?_)
    · refine Position.agrees_lifted_iff hcovers (fun v hv => hreads v ?_) fun e he =>
        Form.mem_embedded_of_position hp he
      exact List.mem_append_left _ (List.mem_flatMap.mpr ⟨p, hp, hv⟩)
    · refine NamedCall.agrees_lifted_iff hcovers (fun v hv => hreads v ?_) fun e he =>
        Form.mem_embedded_of_call hc he
      exact List.mem_append_right _ (List.mem_flatMap.mpr ⟨call, hc, hv⟩)

/-! ### A binding that comes through -/

/-- A query that generates a triple with an IRI made of a variable. -/
def linking : Query :=
  { (default : Query) with
    form := .generate [.triples [⟨.iri ⟨"urn:s"⟩, .iri ⟨"urn:p"⟩,
      .expression (.call (.builtin .iri) [.var ⟨"x"⟩])⟩]] }

/-- A solution that binds the variable that the query's expression is given, but not the one that
the expression reads. -/
def staleSolution : Solution := .ofBindings [(⟨"__generate0"⟩, .iri ⟨"urn:stale"⟩)]

theorem normalized_agrees_iff_linking :
    linking.postSelect = [] ∧ (∀ v ∈ linking.form.reads, ¬v.IsGenerated) ∧
      (∀ e ∈ linking.form.embedded, e.callsBnode = false) ∧
      (linking.normalized 0).form.outline = linking.form.outline := by
  have hpost : linking.postSelect = [] := rfl
  have hreads : ∀ v ∈ linking.form.reads, ¬v.IsGenerated := by
    intro v hv
    obtain rfl : v = ⟨"x"⟩ := by
      simpa [linking, Form.reads, Form.positions, Form.calls, Element.positions, Element.calls,
        GenerateTriple.positions, Position.reads, Expression.reads, Expression.readsAll] using hv
    unfold Variable.IsGenerated
    decide
  have hplain : ∀ e ∈ linking.form.embedded, e.callsBnode = false := by
    intro e he
    obtain rfl : .call (.builtin .iri) [.var ⟨"x"⟩] = e := by
      simpa [linking, Form.embedded, Element.embedded, Element.positions, Element.calls,
        GenerateTriple.positions, Position.embedded?] using he
    rfl
  exact ⟨hpost, hreads, hplain, (normalized_agrees_iff 0 default .empty hpost hreads hplain).2.1⟩

/-- The expression of the query fails for the solution, and yet the lifted query has an object for
its triple: what the solution bound the expression's variable to. -/
theorem stale_binding_comes_through :
    ∃ bound : Solution,
      ((default : Context).bindInOrder .empty (linking.normalized 0).postSelect
        (.ofLists [] [staleSolution]) (.start 1)).1.solutions = [bound] ∧
      ¬List.Forall₂ (Position.Agrees default default .empty staleSolution bound)
        linking.form.positions (linking.normalized 0).form.positions := by
  have hplain : ∀ b ∈ (linking.normalized 0).postSelect, b.2.callsBnode = false := by
    decide +kernel
  obtain ⟨output, hout, hsolutions⟩ :=
    (default : Context).bindInOrder_eq .empty hplain (.ofLists [] [staleSolution])
  refine ⟨_, by rw [hout]; exact hsolutions, fun h => ?_⟩
  have hpositions : (linking.normalized 0).form.positions =
      [.iri ⟨"urn:s"⟩, .iri ⟨"urn:p"⟩, .var ⟨"__generate0"⟩] := by decide +kernel
  rw [hpositions] at h
  obtain _ | ⟨-, _ | ⟨-, _ | ⟨⟨t, ht, hinstance⟩, -⟩⟩⟩ := h
  obtain rfl := Build.pure_inj.mp ht
  have hterm := congrArg Prod.fst (congrFun hinstance (.start 1))
  revert hterm
  decide +kernel

end Query

end TripleLoom
