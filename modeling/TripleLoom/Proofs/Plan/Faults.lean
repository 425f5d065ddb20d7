import Mathlib.Data.List.Nodup
import TripleLoom.Proofs.Generation.ListNumbers

/-!
# TripleLoom.Proofs.Plan.Faults — what keeps a query from being compiled

A query offends by a variable that its signature repeats, by a list as the subject or predicate of
one of its triples, and by a list right inside a list.  Compiling a query fails exactly if the query
or one in it offends, and then on the first offence in order (`Query.failsOn_compile`,
`Plan.build_fails_iff`).  It never fails on an expression: lifting comes to an end, and leaves none
where a term has to be.
-/

namespace TripleLoom

/-! ### Offences -/

/-- The triples in an element. -/
def Element.ownTriples : Element → List GenerateTriple
  | .triples ts => ts
  | .query _ | .call _ => []

/-- The triples of a form, but not those of the queries in it. -/
def Form.ownTriples : Form → List GenerateTriple
  | .generate elements => elements.flatMap Element.ownTriples
  | .template .. | .select .. => []

/-- A query itself, not one in it, has a fault. -/
inductive Query.Offends (q : Query) : PlanError → Prop
  | signature {v : Variable} (h : 2 ≤ (q.signature.getD []).count v) :
    q.Offends (.duplicateSignatureVariable v)
  | outside {t : GenerateTriple} (ht : t ∈ q.form.ownTriples)
    (h : t.subject.isList ∨ t.predicate.isList) : q.Offends .listOutsideObjectPosition
  | nested {t : GenerateTriple} {element : Position} (ht : t ∈ q.form.ownTriples)
    (h : t.object = .list (.list element)) : q.Offends .nestedList

mutual

/-- A query and all queries in it, at any depth. -/
def Query.within : Query → List Query
  | ⟨base, prefixes, name, signature, dataset, bindings, pattern, modifiers, form, postSelect⟩ =>
    ⟨base, prefixes, name, signature, dataset, bindings, pattern, modifiers, form, postSelect⟩ ::
      form.within

/-- All queries in a form, at any depth. -/
def Form.within : Form → List Query
  | .generate elements => Element.withinAll elements
  | .template _ elements _ _ => TemplateElement.withinAll elements
  | .select .. => []

/-- All queries in some elements, at any depth. -/
def Element.withinAll : List Element → List Query
  | [] => []
  | .query q :: rest => q.within ++ Element.withinAll rest
  | .triples _ :: rest | .call _ :: rest => Element.withinAll rest

/-- All queries in some elements of a template, at any depth. -/
def TemplateElement.withinAll : List TemplateElement → List Query
  | [] => []
  | .query q :: rest => q.within ++ TemplateElement.withinAll rest
  | .text _ :: rest | .expression _ :: rest | .call _ :: rest => TemplateElement.withinAll rest

end

/-! ### All faults, in order -/

/-- The variables of a list that occurred in it or in another one before. -/
def repeatedVariables : List Variable → List Variable → List Variable
  | _, [] => []
  | seen, v :: rest =>
    if v ∈ seen then v :: repeatedVariables (v :: seen) rest else repeatedVariables (v :: seen) rest

theorem head?_repeatedVariables : ∀ seen vars : List Variable,
    (repeatedVariables seen vars).head? = firstRepeated? seen vars
  | _, [] => rfl
  | seen, v :: rest => by
    rw [repeatedVariables, firstRepeated?]
    split
    · rfl
    · exact head?_repeatedVariables (v :: seen) rest

theorem mem_repeatedVariables {v : Variable} : ∀ {seen vars : List Variable},
    v ∈ repeatedVariables seen vars ↔ v ∈ vars ∧ (v ∈ seen ∨ 2 ≤ vars.count v)
  | _, [] => by simp [repeatedVariables]
  | seen, w :: rest => by
    have hmem : v ∈ repeatedVariables seen (w :: rest) ↔
        v = w ∧ w ∈ seen ∨ v ∈ repeatedVariables (w :: seen) rest := by
      rw [repeatedVariables]
      split <;> simp_all
    have hpos : v ∈ rest ↔ 0 < rest.count v := List.count_pos_iff.symm
    rw [hmem, mem_repeatedVariables, List.mem_cons, List.mem_cons, List.count_cons, hpos]
    by_cases hw : w = v
    · subst hw
      simp
    · simp [hw, Ne.symm hw]

/-- The faults of a signature. -/
def signatureFaults (signature : Option (List Variable)) : List PlanError :=
  (repeatedVariables [] (signature.getD [])).map .duplicateSignatureVariable

/-- The fault of a position where no list may be. -/
def Position.outsideFaults (p : Position) : List PlanError :=
  if p.isList then [.listOutsideObjectPosition] else []

/-- The fault of an object. -/
def Position.objectFaults : Position → List PlanError
  | .list element => if element.isList then [.nestedList] else []
  | _ => []

/-- The faults of a triple. -/
def GenerateTriple.faults (t : GenerateTriple) : List PlanError :=
  t.subject.outsideFaults ++ (t.predicate.outsideFaults ++ t.object.objectFaults)

mutual

/-- The faults of a query and of all queries in it, in the order of compiling. -/
def Query.faults : Query → List PlanError
  | ⟨_, _, _, signature, _, _, _, _, form, _⟩ => signatureFaults signature ++ form.faults

/-- The faults of a form. -/
def Form.faults : Form → List PlanError
  | .generate elements => Element.faultsAll elements
  | .template _ elements _ _ => TemplateElement.faultsAll elements
  | .select .. => []

/-- The faults of some elements. -/
def Element.faultsAll : List Element → List PlanError
  | [] => []
  | .triples ts :: rest => ts.flatMap GenerateTriple.faults ++ Element.faultsAll rest
  | .query q :: rest => q.faults ++ Element.faultsAll rest
  | .call _ :: rest => Element.faultsAll rest

/-- The faults of some elements of a template. -/
def TemplateElement.faultsAll : List TemplateElement → List PlanError
  | [] => []
  | .query q :: rest => q.faults ++ TemplateElement.faultsAll rest
  | .text _ :: rest | .expression _ :: rest | .call _ :: rest => TemplateElement.faultsAll rest

end

section Members

variable {e : PlanError}

theorem GenerateTriple.mem_faults {t : GenerateTriple} : e ∈ t.faults ↔
    (t.subject.isList ∨ t.predicate.isList) ∧ e = .listOutsideObjectPosition ∨
      (∃ element, t.object = .list (.list element)) ∧ e = .nestedList := by
  have houtside : ∀ p : Position,
      e ∈ p.outsideFaults ↔ p.isList ∧ e = .listOutsideObjectPosition := fun p => by
    unfold Position.outsideFaults
    split <;> simp_all
  have hobject : ∀ p : Position,
      e ∈ p.objectFaults ↔ (∃ element, p = .list (.list element)) ∧ e = .nestedList := fun p => by
    cases p with
    | list element => cases element <;> simp [Position.objectFaults, Position.isList]
    | _ => simp [Position.objectFaults]
  rw [faults, List.mem_append, List.mem_append, houtside, houtside, hobject, or_and_right, or_assoc]

/-- A query offends by its signature or by one of its triples. -/
theorem Query.offends_iff {q : Query} : q.Offends e ↔
    e ∈ signatureFaults q.signature ∨ ∃ t ∈ q.form.ownTriples, e ∈ t.faults := by
  have hsignature : e ∈ signatureFaults q.signature ↔
      ∃ v, 2 ≤ (q.signature.getD []).count v ∧ .duplicateSignatureVariable v = e := by
    rw [signatureFaults, List.mem_map]
    refine exists_congr fun v => and_congr_left fun _ => ?_
    rw [mem_repeatedVariables, or_iff_right List.not_mem_nil]
    exact and_iff_right_of_imp fun h => List.count_pos_iff.mp (by omega)
  rw [hsignature]
  constructor
  · rintro (h | ⟨ht, h⟩ | ⟨ht, h⟩)
    · exact .inl ⟨_, h, rfl⟩
    · exact .inr ⟨_, ht, GenerateTriple.mem_faults.mpr (.inl ⟨h, rfl⟩)⟩
    · exact .inr ⟨_, ht, GenerateTriple.mem_faults.mpr (.inr ⟨⟨_, h⟩, rfl⟩)⟩
  · rintro (⟨v, h, rfl⟩ | ⟨t, ht, h⟩)
    · exact .signature h
    · rcases GenerateTriple.mem_faults.mp h with ⟨hlist, rfl⟩ | ⟨⟨element, hlist⟩, rfl⟩
      · exact .outside ht hlist
      · exact .nested ht hlist

mutual

/-- The faults of a query are the offences of the query and of those in it. -/
theorem Query.mem_faults : ∀ {q : Query}, e ∈ q.faults ↔ ∃ q' ∈ q.within, q'.Offends e
  | ⟨base, prefixes, name, signature, dataset, bindings, pattern, modifiers, form, postSelect⟩ => by
    unfold Query.faults Query.within
    simp only [List.mem_cons, or_and_right, exists_or, exists_eq_left]
    rw [List.mem_append, Form.mem_faults, Query.offends_iff, or_assoc]

theorem Form.mem_faults : ∀ {form : Form}, e ∈ form.faults ↔
    (∃ t ∈ form.ownTriples, e ∈ t.faults) ∨ ∃ q' ∈ form.within, q'.Offends e
  | .generate elements => by
    unfold Form.faults Form.within Form.ownTriples
    exact Element.mem_faultsAll
  | .template before elements separator after => by
    unfold Form.faults Form.within Form.ownTriples
    rw [TemplateElement.mem_faultsAll]
    simp
  | .select .. => by simp [Form.faults, Form.within, Form.ownTriples]

theorem Element.mem_faultsAll : ∀ {elements : List Element}, e ∈ Element.faultsAll elements ↔
    (∃ t ∈ elements.flatMap Element.ownTriples, e ∈ t.faults) ∨
      ∃ q' ∈ Element.withinAll elements, q'.Offends e
  | [] => by simp [Element.faultsAll, Element.withinAll]
  | .triples ts :: rest => by
    unfold Element.faultsAll Element.withinAll
    rw [List.mem_append, Element.mem_faultsAll, List.mem_flatMap, ← or_assoc]
    simp only [List.flatMap_cons, Element.ownTriples, List.mem_append, or_and_right, exists_or]
  | .query q :: rest => by
    unfold Element.faultsAll Element.withinAll
    rw [List.mem_append, Element.mem_faultsAll, Query.mem_faults, or_left_comm]
    simp only [List.flatMap_cons, Element.ownTriples, List.nil_append, List.mem_append,
      or_and_right, exists_or]
  | .call c :: rest => by
    unfold Element.faultsAll Element.withinAll
    rw [Element.mem_faultsAll, List.flatMap_cons]
    rfl

theorem TemplateElement.mem_faultsAll : ∀ {elements : List TemplateElement},
    e ∈ TemplateElement.faultsAll elements ↔
      ∃ q' ∈ TemplateElement.withinAll elements, q'.Offends e
  | [] => by simp [TemplateElement.faultsAll, TemplateElement.withinAll]
  | .query q :: rest => by
    unfold TemplateElement.faultsAll TemplateElement.withinAll
    rw [List.mem_append, TemplateElement.mem_faultsAll, Query.mem_faults]
    simp only [List.mem_append, or_and_right, exists_or]
  | .text _ :: rest | .expression _ :: rest | .call _ :: rest => by
    unfold TemplateElement.faultsAll TemplateElement.withinAll
    exact TemplateElement.mem_faultsAll

end

end Members

/-! ### Compiling fails on the first fault -/

namespace Build

variable {α β : Type} {m : Build α} {f : α → Build β} {faults more : List PlanError}

/-- A step of compiling fails on the first of some faults, and on nothing if there are none. -/
def FailsOn (m : Build α) (faults : List PlanError) : Prop :=
  ∀ n : Numbering, match (m n).1 with
    | .ok _ => faults = []
    | .error e => faults.head? = some e

namespace FailsOn

theorem pure (a : α) : FailsOn (Pure.pure a : Build α) [] := fun _ => rfl

theorem throw (e : PlanError) (more : List PlanError) :
    FailsOn (MonadExcept.throw e : Build α) (e :: more) := fun _ => rfl

/-- Two steps: the faults of the second one come behind those of the first one. -/
theorem bind (hm : m.FailsOn faults) (hf : ∀ n a n', m n = (.ok a, n') → (f a).FailsOn more) :
    (m >>= f).FailsOn (faults ++ more) := by
  intro n
  have hfirst := hm n
  rw [bind_eq]
  rcases h : m n with ⟨e | a, n₁⟩ <;> rw [h] at hfirst
  · have hhead : faults.head? = some e := hfirst
    show (faults ++ more).head? = some e
    rw [List.head?_append, hhead, Option.some_or]
  · obtain rfl : faults = [] := hfirst
    exact hf n a n₁ h n₁

/-- A step that never fails before another one. -/
theorem behind (hm : m.FailsOn []) (hf : ∀ a, (f a).FailsOn more) : (m >>= f).FailsOn more :=
  hm.bind fun _ a _ _ => hf a

theorem map (hm : m.FailsOn faults) (f : α → β) :
    (m >>= fun a => Pure.pure (f a)).FailsOn faults := by
  have hboth := hm.bind fun _ a _ _ => pure (f a)
  rwa [List.append_nil] at hboth

/-- What comes after lifting, which never fails and leaves nothing to lift. -/
theorem behind_lift (q : Query) {f : Lifting × Query → Build β}
    (hf : ∀ l, (q.form.lifted l).isLiftable = false → ∀ lifted, (f (l, lifted)).FailsOn faults) :
    (Build.lift q >>= f).FailsOn faults := by
  intro n
  rw [bind_eq, Build.lift_eq]
  exact hf (q.lift _).1 (q.isLiftable_lift _) (q.lift _).2 _

theorem checkSignature (signature : Option (List Variable)) :
    (TripleLoom.checkSignature signature).FailsOn (signatureFaults signature) := by
  have hhead : (signatureFaults signature).head? =
      (firstRepeated? [] (signature.getD [])).map .duplicateSignatureVariable := by
    rw [signatureFaults, List.head?_map, head?_repeatedVariables]
  intro n
  unfold TripleLoom.checkSignature
  cases hfirst : firstRepeated? [] (signature.getD []) with
  | none =>
    rw [hfirst] at hhead
    exact List.head?_eq_none_iff.mp hhead
  | some v =>
    rw [hfirst] at hhead
    exact hhead

/-- A lifted position is a term unless it is a list. -/
theorem ofPosition {p : Position} (h : p.isLiftable = false) :
    (TemplateTerm.ofPosition p).FailsOn p.outsideFaults := by
  cases p with
  | expression => cases h
  | _ => exact fun _ => rfl

/-- The name of a lifted call is an IRI or a variable. -/
theorem ofCall {c : NamedCall} (h : c.isLiftable = false) : (CallPlan.ofCall c).FailsOn [] := by
  obtain ⟨name, arguments⟩ := c
  cases name with
  | iri | var => exact fun _ => rfl
  | _ => cases h

theorem listNumber : Build.listNumber.FailsOn [] := fun _ => rfl

/-- Adding a lifted triple. -/
theorem add (p : TriplesPlan) {t : GenerateTriple} (h : t.isLiftable = false) :
    (p.add t).FailsOn t.faults := by
  simp only [GenerateTriple.isLiftable, Bool.or_eq_false_iff] at h
  obtain ⟨⟨hsubject, hpredicate⟩, hobject⟩ := h
  refine (ofPosition hsubject).bind fun _ _ _ _ => (ofPosition hpredicate).bind fun _ _ _ _ => ?_
  cases hshape : t.object with
  | list element =>
    cases element with
    | list => exact throw _ _
    | expression =>
      rw [hshape] at hobject
      cases hobject
    | _ => exact .behind (.pure _) fun _ => .behind .listNumber fun _ => .pure _
  | expression =>
    rw [hshape] at hobject
    cases hobject
  | _ => exact .behind (.pure _) fun _ => .pure _

theorem addAll : ∀ {ts : List GenerateTriple} (p : TriplesPlan), (∀ t ∈ ts, t.isLiftable = false) →
    (ts.foldlM TriplesPlan.add p).FailsOn (ts.flatMap GenerateTriple.faults)
  | [], p, _ => pure p
  | t :: ts, p, h => by
    obtain ⟨ht, hts⟩ := List.forall_mem_cons.mp h
    rw [List.foldlM_cons, List.flatMap_cons]
    exact (add p ht).bind fun _ p _ _ => addAll p hts

end FailsOn

end Build

/-- Lifting keeps the faults of a triple. -/
theorem GenerateTriple.faults_lifted (l : Lifting) (t : GenerateTriple) :
    (t.lifted l).faults = t.faults := by
  have hlist : ∀ p : Position, (p.lifted l).isList = p.isList := fun p => by
    cases p with
    | expression e =>
      cases e with
      | iri | literal | var => rfl
      | _ =>
        simp only [Position.lifted]
        split <;> rfl
    | _ => rfl
  have hobject : ∀ p : Position, (p.lifted l).objectFaults = p.objectFaults := fun p => by
    cases p with
    | list element => simp only [Position.lifted, Position.objectFaults, hlist]
    | expression e =>
      have hplain := hlist (.expression e)
      unfold Position.objectFaults
      split
      · next heq =>
        rw [heq] at hplain
        cases hplain
      · rfl
    | _ => rfl
  simp only [lifted, faults, Position.outsideFaults, hlist, hobject]

mutual

/-- Compiling a query fails on the first fault of the query and those in it. -/
theorem Query.failsOn_compile : ∀ q : Query, q.compile.FailsOn q.faults
  | ⟨base, prefixes, name, signature, dataset, bindings, pattern, modifiers, form, postSelect⟩ => by
    unfold Query.compile Query.faults
    refine .behind_lift _ fun l hform _ => ?_
    exact (Build.FailsOn.checkSignature signature).bind fun _ _ _ _ =>
      (form.failsOn_compile l hform).map _

theorem Form.failsOn_compile (l : Lifting) : ∀ form : Form,
    (form.lifted l).isLiftable = false → (form.compile l).FailsOn form.faults
  | .generate elements, h => by
    unfold Form.compile Form.faults
    rw [Form.lifted, Form.isLiftable, List.any_map, List.any_eq_false] at h
    exact (Element.failsOn_compileAll l elements .empty fun e he => by simpa using h e he).map _
  | .template before elements separator after, h => by
    unfold Form.compile Form.faults
    rw [Form.lifted, Form.isLiftable, List.any_map, List.any_eq_false] at h
    exact (TemplateElement.failsOn_compileAll l elements fun e he => by simpa using h e he).map _
  | .select .., _ => by
    unfold Form.compile Form.faults
    exact .pure _

theorem Element.failsOn_compileAll (l : Lifting) : ∀ (elements : List Element)
    (before : TriplesPlan), (∀ e ∈ elements, (e.lifted l).isLiftable = false) →
      (Element.compileAll l before elements).FailsOn (Element.faultsAll elements)
  | [], before, _ => by
    unfold Element.compileAll Element.faultsAll
    exact .pure _
  | .triples ts :: rest, before, h => by
    obtain ⟨hts, hrest⟩ := List.forall_mem_cons.mp h
    have hfaults : ts.flatMap GenerateTriple.faults =
        (ts.map (·.lifted l)).flatMap GenerateTriple.faults := by
      rw [List.flatMap_map]
      exact List.flatMap_congr fun t _ => (t.faults_lifted l).symm
    unfold Element.compileAll Element.faultsAll
    rw [hfaults]
    refine (Build.FailsOn.addAll before ?_).bind fun _ p _ _ =>
      Element.failsOn_compileAll l rest p hrest
    exact fun t ht => by simpa using List.any_eq_false.mp hts t ht
  | .query q :: rest, before, h => by
    unfold Element.compileAll Element.faultsAll
    exact q.failsOn_compile.bind fun _ _ _ _ =>
      (Element.failsOn_compileAll l rest .empty (List.forall_mem_cons.mp h).2).map _
  | .call c :: rest, before, h => by
    obtain ⟨hcall, hrest⟩ := List.forall_mem_cons.mp h
    unfold Element.compileAll Element.faultsAll
    exact .behind (.ofCall hcall) fun _ => (Element.failsOn_compileAll l rest .empty hrest).map _

theorem TemplateElement.failsOn_compileAll (l : Lifting) : ∀ elements : List TemplateElement,
    (∀ e ∈ elements, (e.lifted l).isLiftable = false) →
      (TemplateElement.compileAll l elements).FailsOn (TemplateElement.faultsAll elements)
  | [], _ => by
    unfold TemplateElement.compileAll TemplateElement.faultsAll
    exact .pure _
  | .text s :: rest, h => by
    unfold TemplateElement.compileAll TemplateElement.faultsAll
    exact (TemplateElement.failsOn_compileAll l rest (List.forall_mem_cons.mp h).2).map _
  | .expression e :: rest, h => by
    unfold TemplateElement.compileAll TemplateElement.faultsAll
    exact (TemplateElement.failsOn_compileAll l rest (List.forall_mem_cons.mp h).2).map _
  | .query q :: rest, h => by
    unfold TemplateElement.compileAll TemplateElement.faultsAll
    exact q.failsOn_compile.bind fun _ _ _ _ =>
      (TemplateElement.failsOn_compileAll l rest (List.forall_mem_cons.mp h).2).map _
  | .call c :: rest, h => by
    obtain ⟨hcall, hrest⟩ := List.forall_mem_cons.mp h
    unfold TemplateElement.compileAll TemplateElement.faultsAll
    exact .behind (.ofCall hcall) fun _ => (TemplateElement.failsOn_compileAll l rest hrest).map _

end

namespace Plan

variable {q : Query} {n : Numbering} {e : PlanError} {p : Plan}

theorem head?_faults_of_error (h : (build q n).1 = .error e) : q.faults.head? = some e := by
  have hfails := q.failsOn_compile n
  rw [show q.compile n = build q n from rfl, h] at hfails
  exact hfails

theorem faults_eq_nil_of_ok (h : (build q n).1 = .ok p) : q.faults = [] := by
  have hfails := q.failsOn_compile n
  rw [show q.compile n = build q n from rfl, h] at hfails
  exact hfails

/-- **When a query cannot be compiled.**  Whatever the numbering, compiling a query fails exactly if
the query or one in it, at any depth, offends; what it fails on is one of these offences, namely the
first in order.  It is never an expression that is left where a term has to be, and never that
lifting does not come to an end. -/
theorem build_fails_iff (q : Query) (n : Numbering) :
    ((∃ e, (build q n).1 = .error e) ↔ ∃ q' ∈ q.within, ∃ e, q'.Offends e) ∧
    ∀ e, (build q n).1 = .error e → (∃ q' ∈ q.within, q'.Offends e) ∧
      q.faults.head? = some e ∧ e ≠ .embeddedExpression ∧
      ∀ passes, e ≠ .liftingUnfinished passes := by
  have hoffends : ∀ e, (build q n).1 = .error e → ∃ q' ∈ q.within, q'.Offends e := fun e he =>
    Query.mem_faults.mp (List.mem_of_head? (head?_faults_of_error he))
  refine ⟨⟨?_, ?_⟩, fun e he => ⟨hoffends e he, head?_faults_of_error he, ?_⟩⟩
  · rintro ⟨e, he⟩
    obtain ⟨q', hq', h⟩ := hoffends e he
    exact ⟨q', hq', e, h⟩
  · rintro ⟨q', hq', e, h⟩
    have hmem : e ∈ q.faults := Query.mem_faults.mpr ⟨q', hq', h⟩
    cases hbuild : (build q n).1 with
    | error e => exact ⟨e, rfl⟩
    | ok p =>
      rw [faults_eq_nil_of_ok hbuild] at hmem
      cases hmem
  · obtain ⟨q', -, h⟩ := hoffends e he
    cases h <;> exact ⟨nofun, fun _ => nofun⟩

/-- A query with a query in it, in which a list is right inside a list. -/
def misnesting : Query :=
  let triple : GenerateTriple := ⟨.iri ⟨"urn:s"⟩, .iri ⟨"urn:p"⟩, .list (.list (.var ⟨"x"⟩))⟩
  let inner : Query := { (default : Query) with form := .generate [.triples [triple]] }
  { (default : Query) with form := .generate [.query inner] }

theorem build_fails_on_list_in_list :
    (build misnesting .start).1 = .error .nestedList ∧
      ∃ q' ∈ misnesting.within, q'.Offends .nestedList := by
  have herror : (build misnesting .start).1 = .error .nestedList := rfl
  exact ⟨herror, ((build_fails_iff misnesting .start).2 _ herror).1⟩

end Plan

end TripleLoom
