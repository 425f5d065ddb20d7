import TripleLoom.Proofs.Iterator.HandsOn
import TripleLoom.Proofs.Pipeline.Accounts
import TripleLoom.Proofs.Renaming.Terms
import TripleLoom.Proofs.Run.Chain
import TripleLoom.Proofs.Run.Coverage
import TripleLoom.Proofs.Solution.FiniteMap

/-!
# TripleLoom.Proofs.Run.Overriding — what a clause finds, and the older bindings behind it

An execution of a clause finds something for its variables: the value of an expression, the content
of a document, the values of a tuple (`BindingClause.Finds`).  It puts a layer with what it has
found on top of a solution, and no layer if that is nothing.  So what it has found shows, but where
it has found nothing an older binding does (`Solution.Overlays`), be it from another clause, an
outer query or the initial values.  A variable shows what was found for it, and is unbound if
nothing was, only as far as there is no older binding (`BindingClause.overlays_what_it_finds`).
-/

namespace TripleLoom

open RunM Batches
open List (Forall₂)

/-! ### What is found -/

namespace Assignment

/-- Only one variable is assigned, if there is a value for it. -/
def only (v : Variable) (value : Option Term) : Assignment := fun w => if w = v then value else none

/-- Each variable is assigned to the last of its values in a tuple that is there. -/
def ofTuple (vars : List Variable) (tuple : Tuple) : Assignment := fun v =>
  (vars.zip tuple).reverse.findSome? fun b => if v = b.1 then b.2 else none

end Assignment

/-- The content of the document that a `SOURCE` clause finds for a solution. -/
def Resolver.contentFor? (resolver : Resolver) (document : IriPattern) (accept : Option IriPattern)
    (u : Solution) : Option Term :=
  (document.text? u).bind fun uri =>
    (resolver.fetch? uri (accept.bind (·.text? u) >>= mediaType?)).map Document.toTerm

/-- An iterator function supplies a tuple for the values of some arguments in a solution: it is in
one of the batches of a stream that the function has given. -/
def IteratorFunction.Supplies (function : IteratorFunction) (c : Context)
    (functions : FunctionRegistry) (arguments : List Expression) (u : Solution) (tuple : Tuple) :
    Prop :=
  ∃ stream told rest tuples, function.Answers c functions arguments u stream ∧
    stream.Yields told rest ∧ tuples ∈ told ∧ tuple ∈ tuples

namespace BindingClause

/-- The variables that a clause assigns. -/
def assigns : BindingClause → List Variable
  | .bind _ v | .source _ _ v => [v]
  | .iterator _ _ vars => vars

/-- What an execution of a clause, from one state to another, finds for which of the solutions that
it is given. -/
inductive Finds (setting : Setting) (c : Context) (inputs : List Solution) (s s' : RunState) :
    BindingClause → List (Solution × Assignment) → Prop where
  /-- The expression is evaluated in one solution after the other. -/
  | bind (e : Expression) (v : Variable) :
    Finds setting c inputs s s' (.bind e v)
      (inputs.zipWith (fun u value => (u, .only v value))
        (inputs.mapM (c.eval? setting.functions e) s).1)
  /-- Each solution gets the content of its document, unless a close has broken the fetch off. -/
  | source {document : IriPattern} {accept : Option IriPattern} {v : Variable}
      {found : List (Solution × Assignment)}
      (h : Forall₂ (fun u a => a.1 = u ∧
        (a.2 = .only v (setting.resolver.contentFor? document accept u) ∨
          s'.isClosed = true ∧ a.2 = .blank)) inputs found) :
    Finds setting c inputs s s' (.source document accept v) found
  /-- The streams of the function for the solutions give tuples. -/
  | iterator {name : Iri} {arguments : List Expression} {vars : List Variable}
      {function : IteratorFunction} {found : List (Solution × Assignment)}
      (hf : setting.functions.iterator? name = some function)
      (h : ∀ a ∈ found, a.1 ∈ inputs ∧ ∃ tuple,
        function.Supplies c setting.functions arguments a.1 tuple ∧ a.2 = .ofTuple vars tuple) :
    Finds setting c inputs s s' (.iterator name arguments vars) found

/-- What a clause hands on: a `BIND`, also one behind the select part, its only result; a `SOURCE`
what the clauses behind it go on with; an `ITERATOR` what one of its branches begins with. -/
inductive HandsOn (setting : Setting) (f : Frame) (input : Sequence) (s : RunState) :
    BindingClause → RunState → Sequence → Prop where
  | bind (e : Expression) (v : Variable) :
    HandsOn setting f input s (.bind e v) (f.context.bindAll setting.functions e v input s).2
      (f.context.bindAll setting.functions e v input s).1
  | source {document : IriPattern} {accept : Option IriPattern} {v : Variable}
      {rest : List PlanNode} {moves : List TaskMove} {s' : RunState} {out : Sequence}
      (hrun : (Task.clauses f (.clause (.source document accept v) :: rest) input).proceedAll
        setting s moves = some (.clauses f rest out, s')) :
    HandsOn setting f input s (.source document accept v) s' out
  | iterator {name : Iri} {arguments : List Expression} {vars : List Variable}
      {rest : List PlanNode} {moves : List TaskMove} {t : Task} {s' : RunState} {out : Sequence}
      (hrun : (Task.clauses f (.clause (.iterator name arguments vars) :: rest) input).proceedAll
        setting s moves = some (t, s'))
      (hout : Task.clauses f rest out ∈ (Task.chronicle setting .empty
        (.clauses f (.clause (.iterator name arguments vars) :: rest) input) s moves).started) :
    HandsOn setting f input s (.iterator name arguments vars) s' out

end BindingClause

/-! ### Layers -/

namespace Solution

/-- A solution shows what was found for some variables of another one, and older bindings elsewhere.
-/
structure Overlays (w : Solution) (vars : List Variable) (m : Assignment) (u : Solution) :
    Prop where
  found : ∀ v ∈ vars, ∀ t, m v = some t → w.get? v = some t
  older : ∀ v ∈ vars, m v = none → w.get? v = u.get? v
  others : ∀ v ∉ vars, w.get? v = u.get? v

variable {u w : Solution} {vars : List Variable} {m : Assignment}

theorem overlays_of_get? (hw : ∀ v, w.get? v = (m v).or (u.get? v)) (hm : ∀ v ∉ vars, m v = none) :
    w.Overlays vars m u where
  found v _ t ht := by rw [hw, ht, Option.some_or]
  older v _ hnone := by rw [hw, hnone, Option.none_or]
  others v hv := by rw [hw, hm v hv, Option.none_or]

theorem overlays_self (u : Solution) (vars : List Variable) : u.Overlays vars .blank u :=
  overlays_of_get? (fun _ => rfl) fun _ _ => rfl

theorem overlays_bindValue (u : Solution) (v : Variable) (value : Option Term) :
    (u.bindValue v value).Overlays [v] (.only v value) u := by
  refine overlays_of_get? (fun x => ?_) fun x hx => if_neg (by simpa using hx)
  rw [get?_bindValue, Assignment.only]
  by_cases h : x = v
  · rw [if_pos h, if_pos h, h]
  · rw [if_neg h, if_neg h, Option.none_or]

/-- Values that are not there make no binding. -/
theorem lookup_present (v : Variable) : ∀ l : List (Variable × Option Term),
    (l.filterMap fun b => b.2.map (b.1, ·)).lookup v =
      l.findSome? fun b => if v = b.1 then b.2 else none
  | [] => rfl
  | (x, none) :: l => by
    rw [List.filterMap_cons, List.findSome?_cons, ite_self]
    exact lookup_present v l
  | (x, some t) :: l => by
    rw [List.filterMap_cons, List.findSome?_cons]
    by_cases h : v = x
    · rw [if_pos h, h]
      exact List.lookup_cons_self
    · rw [if_neg h, Option.map_some, List.lookup_cons, beq_false_of_ne h]
      exact lookup_present v l

theorem overlays_withTuple (u : Solution) (vars : List Variable) (tuple : Tuple) :
    (u.withTuple vars tuple).Overlays vars (.ofTuple vars tuple) u := by
  refine overlays_of_get? (fun v => ?_) fun v hv => List.findSome?_eq_none_iff.mpr fun b hb => ?_
  · rw [get?_eq_lookup, withTuple, history_extend, List.lookup_append, ← get?_eq_lookup,
      ← List.filterMap_reverse, lookup_present]
    rfl
  · have hmem : b.1 ∈ vars := (List.of_mem_zip (List.mem_reverse.mp hb)).1
    exact if_neg fun heq : v = b.1 => hv (heq ▸ hmem)

/-- A variable shows what was found for it exactly if something was found, or nothing older is
there. -/
theorem Overlays.get?_eq_iff (h : w.Overlays vars m u) {v : Variable} (hv : v ∈ vars) :
    w.get? v = m v ↔ (m v = none → u.get? v = none) := by
  cases hm : m v with
  | none =>
    rw [h.older v hv hm]
    exact ⟨fun h _ => h, fun h => h rfl⟩
  | some t => exact iff_of_true (h.found v hv t hm) fun hnone => by cases hnone

end Solution

/-! ### Bind -/

/-- The values are found one after the other, and put on top of their solutions. -/
theorem RunM.mapM_bindValue {f : Solution → RunM (Option Term)} {v : Variable}
    {g : Solution → RunM Solution} (hg : ∀ u s, (g u s) = ((u.bindValue v (f u s).1), (f u s).2)) :
    ∀ (l : List Solution) (s : RunState), (l.mapM g s).1 =
      l.zipWith (·.bindValue v ·) (l.mapM f s).1
  | [], _ => rfl
  | u :: l, s => by
    simp only [List.mapM_cons, bind_apply, hg, mapM_bindValue hg l]
    rfl

theorem Context.solutions_bindAll_eq_zipWith (c : Context) (functions : FunctionRegistry)
    (e : Expression) (v : Variable) (input : Sequence) (s : RunState) :
    (c.bindAll functions e v input s).1.solutions = input.solutions.zipWith (·.bindValue v ·)
      (input.solutions.mapM (c.eval? functions e) s).1 := by
  refine RunM.mapM_bindValue (fun u s => ?_) input.solutions s
  rw [bindOne, bind_apply]
  cases (c.eval? functions e u s).1 <;> rfl

/-- What is made of the same two things at each place. -/
theorem forall₂_zipWith {α β γ δ : Type} {R : γ → δ → Prop} {f : α → β → γ} {g : α → β → δ}
    (h : ∀ a b, R (f a b) (g a b)) : ∀ (as : List α) (bs : List β),
    Forall₂ R (as.zipWith f bs) (as.zipWith g bs)
  | [], _ => .nil
  | _ :: _, [] => .nil
  | a :: as, b :: bs => .cons (h a b) (forall₂_zipWith h as bs)

/-! ### Source -/

/-- A `SOURCE` clause of a plan, with the solutions that it is run for. -/
structure SourceClause where
  setting : Setting
  frame : Frame
  rest : List PlanNode
  document : IriPattern
  accept : Option IriPattern
  v : Variable
  input : Sequence

/-- A fetch for a solution: it is on its way to some content, or a close has broken it off. -/
inductive Fetch.Serves (resolver : Resolver) (v : Variable) (content : Option Term) (u : Solution) :
    Bool → Fetch → Prop where
  | underWay {f : Fetch} (closed : Bool) (h : f.result resolver v = u.bindValue v content)
    (hu : f.isDone = false → f.solution = u) : Serves resolver v content u closed f
  | brokenOff {closed : Bool} (h : closed = true) : Serves resolver v content u closed (.done u)

namespace Fetch

variable {resolver : Resolver} {v : Variable} {content : Option Term} {u : Solution} {f : Fetch}
variable {closed later : Bool} {s : RunState}

theorem serves_ofSolution (resolver : Resolver) (v : Variable) (document : IriPattern)
    (accept : Option IriPattern) (u : Solution) (closed : Bool) :
    Serves resolver v (resolver.contentFor? document accept u) u closed
      (ofSolution document accept u) := by
  refine .underWay closed ?_ fun _ => solution_ofSolution document accept u
  unfold ofSolution Resolver.contentFor?
  cases document.text? u <;> rfl

theorem Serves.mono (h : Serves resolver v content u closed f)
    (himp : closed = true → later = true) : Serves resolver v content u later f := by
  cases h with
  | underWay _ h hu => exact .underWay later h hu
  | brokenOff h => exact .brokenOff (himp h)

/-- A close breaks off what is not over. -/
theorem advance_of_isClosed (resolver : Resolver) (v : Variable) (f : Fetch)
    (h : s.isClosed = true) : (f.advance resolver v s).1 = .done f.solution := by
  have hclosed : s.lifecycle.closed = true := h
  cases f with
  | waiting u uri accept =>
    have hrefused : s.lifecycle.acquire = (.refused, s.lifecycle) := by
      rw [Lifecycle.acquire, hclosed, if_pos rfl]
    simp only [advance, bind_apply, RunM.lifecycle, hrefused]
    rfl
  | asked u uri accept permit =>
    simp only [advance, bind_apply, get_apply, h, if_true]
    rfl
  | done u => rfl

/-- A fetch that does not come to its end keeps its solution. -/
theorem solution_advance (resolver : Resolver) (v : Variable) (f : Fetch)
    (h : (f.advance resolver v s).1.isDone = false) :
    f.isDone = false ∧ (f.advance resolver v s).1.solution = f.solution := by
  cases f with
  | waiting u uri accept =>
    refine ⟨rfl, ?_⟩
    simp only [advance, bind_apply]
    cases (RunM.lifecycle Lifecycle.acquire s).1 <;> rfl
  | asked u uri accept permit =>
    refine ⟨rfl, ?_⟩
    by_cases hc : s.isClosed = true
    · simp only [advance, bind_apply, get_apply, hc, if_true]
      rfl
    · simp only [advance, bind_apply, get_apply, hc] at h ⊢
      cases hr : resolver uri accept with
      | found document =>
        rw [hr] at h
        cases h
      | missing => cases accept <;> rfl
      | never => rfl
  | done u => cases h

theorem Serves.advance (h : Serves resolver v content u s.isClosed f) :
    Serves resolver v content u s.isClosed (f.advance resolver v s).1 := by
  cases h with
  | brokenOff hc => exact .brokenOff hc
  | underWay _ h hu =>
    by_cases hc : s.isClosed = true
    · rw [advance_of_isClosed resolver v f hc]
      cases hdone : f.isDone with
      | false =>
        rw [hu hdone]
        exact .brokenOff hc
      | true =>
        cases f with
        | done w => exact .underWay _ h fun hf => by cases hf
        | _ => cases hdone
    · obtain ⟨hresult, -⟩ := advance_spec resolver v f (by simpa using hc)
      refine .underWay _ (hresult.trans h) fun hlater => ?_
      obtain ⟨hnow, hsame⟩ := solution_advance resolver v f hlater
      exact hsame.trans (hu hnow)

/-- What comes of a fetch that is over. -/
theorem Serves.overlays (h : Serves resolver v content u closed f) (hdone : f.isDone = true) :
    ∃ m : Assignment, (m = .only v content ∨ closed = true ∧ m = .blank) ∧
      f.solution.Overlays [v] m u := by
  cases h with
  | brokenOff hc => exact ⟨.blank, .inr ⟨hc, rfl⟩, u.overlays_self [v]⟩
  | underWay _ h _ =>
    cases f with
    | done w =>
      obtain rfl : w = u.bindValue v content := h
      exact ⟨.only v content, .inl rfl, u.overlays_bindValue v content⟩
    | _ => cases hdone

end Fetch

/-! ### The fetches of a clause -/

namespace SourceClause

variable (P : SourceClause)

/-- The task of running the clause. -/
def task : Task :=
  .clauses P.frame (.clause (.source P.document P.accept P.v) :: P.rest) P.input

/-- What is found for a solution. -/
def Served (closed : Bool) (u : Solution) (f : Fetch) : Prop :=
  f.Serves P.setting.resolver P.v (P.setting.resolver.contentFor? P.document P.accept u) u closed

/-- A solution that is handed on for one of the input. -/
def Leads (closed : Bool) (u w : Solution) : Prop :=
  ∃ m : Assignment, (m = .only P.v (P.setting.resolver.contentFor? P.document P.accept u) ∨
    closed = true ∧ m = .blank) ∧ w.Overlays [P.v] m u

/-- A task attends to a clause: it is to begin with it, or its fetches are under way, or they are
over and their solutions handed on, or it has got beyond that. -/
inductive Attends : Task → RunState → Prop where
  | waiting (s : RunState) : Attends P.task s
  | fetching {s : RunState} {fetches : List Fetch}
    (h : Forall₂ (P.Served s.isClosed) P.input.solutions fetches) :
    Attends (.fetching P.frame P.rest P.v (P.input.declare P.v) fetches) s
  | handed {s : RunState} {out : Sequence}
    (h : Forall₂ (P.Leads s.isClosed) P.input.solutions out.solutions) :
    Attends (.clauses P.frame P.rest out) s
  | behind {t : Task} (h : t.IsBehind P.rest.length) (s : RunState) : Attends t s

variable {P} {t t' : Task} {s s' : RunState}

theorem Leads.mono {closed later : Bool} {u w : Solution} (h : P.Leads closed u w)
    (himp : closed = true → later = true) : P.Leads later u w := by
  obtain ⟨m, hm, hw⟩ := h
  exact ⟨m, hm.imp_right fun ⟨hclosed, hblank⟩ => ⟨himp hclosed, hblank⟩, hw⟩

theorem Attends.others (h : P.Attends t s) (hs : s.isClosed = true → s'.isClosed = true) :
    P.Attends t s' := by
  cases h with
  | waiting => exact .waiting s'
  | fetching h => exact .fetching (h.imp fun _ _ hf => hf.mono hs)
  | handed h => exact .handed (h.imp fun _ _ hw => hw.mono hs)
  | behind h => exact .behind h s'

theorem Attends.step {move : Move} (h : P.Attends t s)
    (hm : t.step P.setting move s = some (t', s')) : P.Attends t' s' := by
  have hclosed : s'.isClosed = s.isClosed := (Task.inner_step hm).isClosed
  suffices hnext : P.Attends t' s from hnext.others fun hc => hclosed.trans hc
  cases h with
  | behind h => exact .behind (h.step hm) s
  | handed h => exact .behind (Task.isBehind_of_clauses (Nat.le_refl _) hm) s
  | waiting =>
    rw [task] at hm
    cases Task.chainStep_of_step rfl rfl hm with
    | source =>
      refine .fetching (List.forall₂_map_right_iff.mpr (List.forall₂_same.mpr fun u _ => ?_))
      exact Fetch.serves_ofSolution P.setting.resolver P.v P.document P.accept u s.isClosed
    | refuse _ hnode => cases hnode rfl
  | @fetching _ fetches h =>
    cases Task.chainStep_of_step rfl rfl hm with
    | fetched _ _ _ _ hdone =>
      have hover : Forall₂ (fun f u => f.isDone = true ∧ P.Served s.isClosed u f) fetches
          P.input.solutions := (List.forall₂_and_left _ _).mpr ⟨hdone, h.flip⟩
      refine .handed (List.forall₂_map_right_iff.mpr (hover.flip.imp fun u f hf => ?_))
      exact hf.2.overlays hf.1
    | @fetch _ _ _ _ _ index f hf =>
      -- the fetch goes on, and its solution stays
      have hserved := rel_getElem? h index
      rw [hf] at hserved
      cases hu : P.input.solutions[index]? with
      | none => rw [hu] at hserved; cases hserved
      | some u =>
        rw [hu, Option.rel_some_some] at hserved
        obtain ⟨hlt, rfl⟩ := List.getElem?_eq_some_iff.mp hu
        have hset := rel_set h hserved.advance index
        rw [List.set_getElem_self] at hset
        exact .fetching hset

theorem Attends.proceedAll {moves : List TaskMove} (h : P.Attends t s)
    (hm : t.proceedAll P.setting s moves = some (t', s')) : P.Attends t' s' := by
  induction moves generalizing t s with
  | nil =>
    obtain ⟨rfl, rfl⟩ := Prod.mk.inj (Option.some.inj hm)
    exact h
  | cons move moves ih =>
    simp only [Task.proceedAll, Option.bind_eq_bind, Option.bind_eq_some_iff] at hm
    obtain ⟨⟨t₁, s₁⟩, hfirst, hrest⟩ := hm
    refine ih ?_ hrest
    cases move with
    | own move => exact h.step hfirst
    | others state =>
      have hclosed := Task.isClosed_of_proceed hfirst
      obtain ⟨rfl, rfl⟩ := Task.of_proceed_others hfirst
      exact h.others hclosed

/-- What is handed on lies over the input, solution by solution. -/
theorem leads_of_proceedAll {moves : List TaskMove} {out : Sequence}
    (hm : P.task.proceedAll P.setting s moves = some (.clauses P.frame P.rest out, s')) :
    Forall₂ (P.Leads s'.isClosed) P.input.solutions out.solutions := by
  generalize ht : Task.clauses P.frame P.rest out = t at hm
  cases (Attends.waiting s).proceedAll hm with
  | waiting =>
    injection ht with _ hnodes _
    exact absurd hnodes.symm (List.cons_ne_self _ _)
  | fetching => cases ht
  | handed h =>
    cases ht
    exact h
  | behind h =>
    subst ht
    cases h with
    | clauses _ hlt => exact absurd hlt (Nat.lt_irrefl _)
    | output h => cases h

end SourceClause

/-! ### The branches of a clause -/

namespace IteratorClause

variable {P : IteratorClause} {s s' : RunState} {moves : List TaskMove} {t : Task}

/-- Each solution that a branch begins with is one of the input with a tuple on top of it, from one
of the streams for it. -/
theorem exists_tuple {out : Sequence} (hrun : P.task.proceedAll P.setting s moves = some (t, s'))
    (hout : .clauses P.frame P.rest out ∈ (P.task.chronicle P.setting .empty s moves).started)
    {w : Solution} (hw : w ∈ out.solutions) :
    ∃ u ∈ P.input.solutions, ∃ tuple,
      P.function.Supplies P.frame.context P.setting.functions P.arguments u tuple ∧
        w = u.withTuple P.vars tuple := by
  obtain ⟨i, branches, error, h, hs, -, hstarted, -⟩ := (Attends.waiting.proceedAll hrun).recorded
  have hfit := hs.fit
  rw [Iteration.batches_cutOff, Iteration.queue_cutOff] at hfit
  rw [hstarted] at hout
  obtain ⟨b, hb, hbranch⟩ := List.mem_map.mp hout
  injection hbranch with _ _ hinput
  have hitems : out.solutions = b.items := congrArg Sequence.solutions hinput.symm
  rw [hitems, h.items_eq hfit (List.mem_of_mem_filter hb)] at hw
  obtain ⟨a, ha, hw⟩ := List.mem_flatMap.mp hw
  have htold := (ofRound_sublist _ _).subset ha
  obtain ⟨feed, hfeed, heq⟩ := h.sources a htold
  obtain ⟨stream, rest, ⟨u, hu, hanswers⟩, hyields, -⟩ := h.feeds feed hfeed
  rw [heq] at hu hyields
  rw [solutionsOf, hu] at hw
  obtain ⟨tuple, htuple, rfl⟩ := List.mem_map.mp hw
  have htuples : a.2 ∈ (addsOf a.1 _).map (·.2) :=
    List.mem_map_of_mem (List.mem_filter.mpr ⟨htold, beq_self_eq_true _⟩)
  exact ⟨u, List.mem_of_getElem? hu, tuple,
    ⟨stream, _, rest, a.2, hanswers, hyields, htuples, htuple⟩, rfl⟩

end IteratorClause

namespace Task

variable {setting : Setting}

/-- Nothing is seen of a task that is over. -/
theorem chronicle_finished (o : Outcome) (c : Chronicle) (s : RunState) :
    ∀ moves, (Task.finished o).chronicle setting c s moves = c
  | [] => rfl
  | move :: moves => by
    rw [chronicle]
    cases hfirst : (Task.finished o).proceed setting s move with
    | none => rfl
    | some p =>
      obtain ⟨t, s'⟩ := p
      cases move with
      | own move =>
        rw [proceed, IteratorClause.step_finished] at hfirst
        cases hfirst
      | others state =>
        obtain ⟨rfl, rfl⟩ := of_proceed_others hfirst
        exact chronicle_finished o c s' moves

/-- Without its function an iterator starts nothing. -/
theorem chronicle_unknown {f : Frame} {name : Iri} {arguments : List Expression}
    {vars : List Variable} {rest : List PlanNode} {input : Sequence}
    (h : setting.functions.iterator? name = none) (c : Chronicle) (s : RunState) :
    ∀ moves, (Task.clauses f (.clause (.iterator name arguments vars) :: rest) input).chronicle
      setting c s moves = c
  | [] => rfl
  | move :: moves => by
    rw [chronicle]
    cases hfirst : (Task.clauses f (.clause (.iterator name arguments vars) :: rest) input).proceed
        setting s move with
    | none => rfl
    | some p =>
      obtain ⟨t, s'⟩ := p
      cases move with
      | own move =>
        cases move with
        | here =>
          have hact : f.runClauses setting input
              (.clause (.iterator name arguments vars) :: rest) s = (t, s') :=
            Option.some.inj hfirst
          simp only [Frame.runClauses, h] at hact
          obtain ⟨rfl, rfl⟩ := Prod.mk.inj hact
          exact chronicle_finished _ c s moves
        | item | inside => cases hfirst
      | others state =>
        obtain ⟨rfl, rfl⟩ := of_proceed_others hfirst
        exact chronicle_unknown h c s' moves

end Task

/-! ### What is handed on -/

/-- Things that lie between those of two lists. -/
theorem exists_forall₂_between {α β γ : Type} {R : α → γ → Prop} {S : β → γ → Prop} {as : List α}
    {bs : List β} (h : Forall₂ (fun a b => ∃ c, R a c ∧ S b c) as bs) :
    ∃ cs, Forall₂ R as cs ∧ Forall₂ S bs cs := by
  induction h with
  | nil => exact ⟨[], .nil, .nil⟩
  | cons hab _ ih =>
    obtain ⟨c, hr, hs⟩ := hab
    obtain ⟨cs, hrs, hss⟩ := ih
    exact ⟨c :: cs, .cons hr hrs, .cons hs hss⟩

namespace BindingClause

variable {setting : Setting} {f : Frame} {input out : Sequence} {s s' : RunState}
variable {clause : BindingClause}

theorem HandsOn.exists_found (h : clause.HandsOn setting f input s s' out) :
    ∃ found, clause.Finds setting f.context input.solutions s s' found ∧
      Forall₂ (fun w a => w.Overlays clause.assigns a.2 a.1) out.solutions found := by
  cases h with
  | bind e v =>
    refine ⟨_, .bind e v, ?_⟩
    rw [f.context.solutions_bindAll_eq_zipWith setting.functions e v input s]
    exact forall₂_zipWith (fun u value => u.overlays_bindValue v value) _ _
  | @source document accept v rest moves _ _ hrun =>
    let P : SourceClause := ⟨setting, f, rest, document, accept, v, input⟩
    have hleads : Forall₂ (P.Leads s'.isClosed) input.solutions out.solutions :=
      SourceClause.leads_of_proceedAll (P := P) hrun
    obtain ⟨found, hfound, hout⟩ := exists_forall₂_between
      (R := fun u a => a.1 = u ∧ (a.2 = .only v (setting.resolver.contentFor? document accept u) ∨
        s'.isClosed = true ∧ a.2 = .blank))
      (S := fun w a => w.Overlays [v] a.2 a.1)
      (hleads.imp fun u w ⟨m, hm, hw⟩ => ⟨(u, m), ⟨rfl, hm⟩, hw⟩)
    exact ⟨found, .source hfound, hout⟩
  | @iterator name arguments vars rest moves t _ _ hrun hout =>
    cases hregistered : setting.functions.iterator? name with
    | none =>
      rw [Task.chronicle_unknown hregistered] at hout
      cases hout
    | some function =>
      let P : IteratorClause :=
        ⟨setting, f, rest, name, function, arguments, vars, input, hregistered⟩
      obtain ⟨found, hfound, hover⟩ := exists_forall₂_between
        (R := fun _ (a : Solution × Assignment) => a.1 ∈ input.solutions ∧ ∃ tuple,
          function.Supplies f.context setting.functions arguments a.1 tuple ∧
            a.2 = .ofTuple vars tuple)
        (S := fun (w : Solution) (a : Solution × Assignment) => w.Overlays vars a.2 a.1)
        (List.forall₂_same.mpr fun w hw => by
          obtain ⟨u, hu, tuple, hsupplies, rfl⟩ := IteratorClause.exists_tuple (P := P) hrun hout hw
          exact ⟨(u, .ofTuple vars tuple), ⟨hu, tuple, hsupplies, rfl⟩,
            u.overlays_withTuple vars tuple⟩)
      have hall := (List.forall₂_and_left (R := fun _ _ => True) found out.solutions).mp
        (hfound.flip.imp fun _ _ ha => ⟨ha, trivial⟩)
      exact ⟨found, .iterator hregistered hall.1, hover⟩

/-- **What a clause finds lies over what was bound.**  Whatever an expression, a resolver or a
stream comes to, and whenever the run is closed: each solution that a clause hands on shows what was
found for it, and behind that the solution of the input that it was found for.  So the other
variables keep their bindings, and a variable of the clause for which nothing was found keeps the
one it had: it is unbound only if it was unbound before. -/
theorem overlays_what_it_finds (h : clause.HandsOn setting f input s s' out) :
    ∃ found, clause.Finds setting f.context input.solutions s s' found ∧
      Forall₂ (fun w a => w.Overlays clause.assigns a.2 a.1 ∧ ∀ v ∈ clause.assigns,
        (w.get? v = a.2 v ↔ (a.2 v = none → a.1.get? v = none))) out.solutions found := by
  obtain ⟨found, hfound, hout⟩ := h.exists_found
  exact ⟨found, hfound, hout.imp fun _ _ hw => ⟨hw, fun _ hv => hw.get?_eq_iff hv⟩⟩

/-- A setting with an iterator function that gives one tuple without a value. -/
def sparseSetting : Setting where
  resolver := fun _ _ => .missing
  functions := FunctionRegistry.empty.addIterator ⟨"urn:gap"⟩ fun _ _ =>
    .ok (.given [[[none]]] .finished)
  engine := none
  parser := none
  maxConcurrency := 1
  timeout := none
  queryMediaType := none

/-- A plan that writes its solutions. -/
def plainFrame : Frame :=
  ⟨⟨none, none, none, [], [], none, [], .rows none⟩, ⟨0, 0, none, 0, 1⟩⟩

/-- One solution that binds a variable. -/
def boundInput : Sequence :=
  .ofLists [⟨"x"⟩] [.ofBindings [(⟨"x"⟩, .literal (.simple "old"))]]

theorem gap_overlays_what_it_finds :
    let clause := BindingClause.iterator ⟨"urn:gap"⟩ [] [⟨"x"⟩]
    ∃ s' out found, clause.HandsOn sparseSetting plainFrame boundInput (.start 1) s' out ∧
      out.solutions.length = 1 ∧
      clause.Finds sparseSetting plainFrame.context boundInput.solutions (.start 1) s' found ∧
      Forall₂ (fun w a => w.Overlays clause.assigns a.2 a.1 ∧ ∀ v ∈ clause.assigns,
        (w.get? v = a.2 v ↔ (a.2 v = none → a.1.get? v = none))) out.solutions found := by
  intro clause
  have hrun : ∃ t s', (Task.clauses plainFrame [.clause clause] boundInput).proceedAll sparseSetting
      (.start 1) [.own .here, .own (.item 0), .own .here] = some (t, s') := ⟨_, _, rfl⟩
  have hstarted : ∃ out, (Task.chronicle sparseSetting .empty
      (.clauses plainFrame [.clause clause] boundInput) (.start 1)
      [.own .here, .own (.item 0), .own .here]).started = [.clauses plainFrame [] out] ∧
      out.solutions.length = 1 := ⟨_, rfl, rfl⟩
  obtain ⟨t, s', hrun⟩ := hrun
  obtain ⟨out, hstarted, hlength⟩ := hstarted
  have hout : clause.HandsOn sparseSetting plainFrame boundInput (.start 1) s' out :=
    .iterator hrun (hstarted ▸ List.mem_singleton_self _)
  obtain ⟨found, hfound, hover⟩ := overlays_what_it_finds hout
  exact ⟨s', out, found, hout, hlength, hfound, hover⟩

/-- A `BIND` whose expression fails has no value for its variable, and hands on a solution that
binds it. -/
theorem failed_bind_shows_older :
    let clause := BindingClause.bind (.var ⟨"y"⟩) ⟨"x"⟩
    ∃ s' out, clause.HandsOn sparseSetting plainFrame boundInput (.start 1) s' out ∧
      (∀ found, clause.Finds sparseSetting plainFrame.context boundInput.solutions (.start 1) s'
        found → ∀ a ∈ found, ∀ v ∈ clause.assigns, a.2 v = none) ∧
      ∃ w ∈ out.solutions, w.get? ⟨"x"⟩ = some (.literal (.simple "old")) := by
  refine ⟨_, _, .bind _ _, fun found hfound a ha v _ => ?_, _, List.mem_singleton_self _, rfl⟩
  cases hfound
  obtain rfl := List.mem_singleton.mp ha
  exact ite_self none

end BindingClause

end TripleLoom
