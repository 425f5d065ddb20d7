import TripleLoom.Run.Execution

/-!
# TripleLoom.Proofs.Run.Change — what the parts of a run change

Whatever a task does, short of serving a call, is made of a few changes of the state: scopes, lists
and numbers move on, permits come and go, and events of the plain kind are noted.
`RunState.Change` is the least relation that allows these changes; `RunM.IsPlain` says of a
computation that it makes no others, and `RunM.IsScoped` that it changes the scopes alone, as
everything does that only evaluates.  What a change keeps is a matter of an induction over it.
-/

namespace TripleLoom

/-! ### Plain events and changes -/

/-- Whether a call on a sink belongs between the announcement of a run and its leave. -/
def SinkCall.isBody : SinkCall → Bool
  | .triple _ | .text _ | .solution .. => true
  | .start | .prefixName .. | .base _ | .finish => false

/-- Whether an event may happen in any part of a run: it is none of a call's. -/
def Event.isPlain : Event → Bool
  | .written _ call => call.isBody
  | .opened .. | .parsed .. | .invoked .. | .evaluated .. => true
  | .started .. | .skipped _ => false

/-- The changes that any part of a run may make to the state. -/
inductive RunState.Change : RunState → RunState → Prop where
  | refl (s : RunState) : Change s s
  | trans {s t u : RunState} : Change s t → Change t u → Change s u
  | scopes (s : RunState) (scopes : Scopes) : Change s { s with scopes }
  | lists (s : RunState) (lists : List ((Nat × Nat) × List Term)) : Change s { s with lists }
  | fork (s : RunState) : Change s { s with nextFork := s.nextFork + 1 }
  | sink (s : RunState) : Change s { s with nextSink := s.nextSink + 1 }
  | lifecycle (s : RunState) (l : Lifecycle) (h : l.closed = s.lifecycle.closed) :
    Change s { s with lifecycle := l }
  | note (s : RunState) (e : Event) (h : e.isPlain = true) :
    Change s { s with record := e :: s.record }

namespace RunState.Change

variable {s t : RunState}

theorem calls (h : Change s t) : t.calls = s.calls := by
  induction h with
  | trans _ _ ih₁ ih₂ => rw [ih₂, ih₁]
  | _ => rfl

theorem registry (h : Change s t) : t.registry = s.registry := by
  induction h with
  | trans _ _ ih₁ ih₂ => rw [ih₂, ih₁]
  | _ => rfl

theorem isClosed (h : Change s t) : t.isClosed = s.isClosed := by
  induction h with
  | trans _ _ ih₁ ih₂ => rw [ih₂, ih₁]
  | lifecycle _ _ h => exact h
  | _ => rfl

/-- The record grows by plain events. -/
theorem record (h : Change s t) :
    ∃ events, t.record = events ++ s.record ∧ ∀ e ∈ events, e.isPlain = true := by
  induction h with
  | trans _ _ ih₁ ih₂ =>
    obtain ⟨first, h₁, hp₁⟩ := ih₁
    obtain ⟨second, h₂, hp₂⟩ := ih₂
    refine ⟨second ++ first, by rw [h₂, h₁, List.append_assoc], fun e he => ?_⟩
    rcases List.mem_append.mp he with he | he
    · exact hp₂ e he
    · exact hp₁ e he
  | note s e h => exact ⟨[e], rfl, by simpa using h⟩
  | _ => exact ⟨[], rfl, by simp⟩

end RunState.Change

/-! ### Computations -/

namespace RunM

theorem bind_apply {α β : Type} (m : RunM α) (f : α → RunM β) (s : RunState) :
    (m >>= f) s = f (m s).1 (m s).2 := rfl

theorem pure_apply {α : Type} (a : α) (s : RunState) : (pure a : RunM α) s = (a, s) := rfl

theorem get_apply (s : RunState) : (get : RunM RunState) s = (s, s) := rfl

/-- Makes plain changes only. -/
def IsPlain {α : Type} (m : RunM α) : Prop := ∀ s : RunState, s.Change (m s).2

/-- Changes the scopes only. -/
def IsScoped {α : Type} (m : RunM α) : Prop :=
  ∀ s : RunState, ∃ scopes, (m s).2 = { s with scopes }

variable {α β : Type}

/-! #### Scoped -/

theorem IsScoped.pure (a : α) : IsScoped (Pure.pure a) := fun s => ⟨s.scopes, rfl⟩

theorem IsScoped.bind {m : RunM α} {f : α → RunM β} (hm : IsScoped m)
    (hf : ∀ a, IsScoped (f a)) : IsScoped (m >>= f) := by
  intro s
  obtain ⟨x, hx⟩ := hm s
  obtain ⟨y, hy⟩ := hf (m s).1 (m s).2
  exact ⟨y, by rw [bind_apply, hy, hx]⟩

theorem IsScoped.scopes (f : Scopes → α × Scopes) : IsScoped (RunM.scopes f) :=
  fun s => ⟨(f s.scopes).2, rfl⟩

theorem IsScoped.mapM {f : α → RunM β} (hf : ∀ a, IsScoped (f a)) :
    ∀ l : List α, IsScoped (l.mapM f)
  | [] => .pure _
  | a :: l => by
    rw [List.mapM_cons]
    exact .bind (hf a) fun _ => .bind (IsScoped.mapM hf l) fun _ => .pure _

theorem IsScoped.isPlain {m : RunM α} (hm : IsScoped m) : IsPlain m := by
  intro s
  obtain ⟨x, hx⟩ := hm s
  rw [hx]
  exact .scopes s x

/-! #### Plain -/

theorem IsPlain.pure (a : α) : IsPlain (Pure.pure a) := fun s => .refl s

theorem IsPlain.bind {m : RunM α} {f : α → RunM β} (hm : IsPlain m) (hf : ∀ a, IsPlain (f a)) :
    IsPlain (m >>= f) := fun s => (hm s).trans (hf _ _)

theorem IsPlain.get : IsPlain (MonadState.get : RunM RunState) := fun s => .refl s

theorem IsPlain.note {e : Event} (h : e.isPlain = true) : IsPlain (RunM.note e) :=
  fun s => .note s e h

theorem IsPlain.newSink : IsPlain RunM.newSink := fun s => .sink s

theorem IsPlain.forM {f : α → RunM Unit} (hf : ∀ a, IsPlain (f a)) :
    ∀ l : List α, IsPlain (l.forM f)
  | [] => .pure _
  | a :: l => .bind (hf a) fun _ => IsPlain.forM hf l

end RunM

open RunM

/-! ### Contexts -/

namespace Context

variable (c : Context) (functions : FunctionRegistry) (s : Solution)

theorem isPlain_forkFor (size : Nat) : IsPlain (c.forkFor size) :=
  .bind (IsScoped.scopes _).isPlain fun _ s => .fork s

theorem isPlain_listNodes (list : Nat) : IsPlain (c.listNodes list) := by
  intro s
  unfold listNodes
  split
  · exact .refl s
  · exact (RunState.Change.scopes s _).trans (.lists _ _)

theorem isScoped_mint (label : String) : IsScoped (c.mint label) :=
  .bind (.scopes _) fun _ => .pure _

theorem isPlain_write {call : SinkCall} (h : call.isBody = true) : IsPlain (c.write call) :=
  .note h

theorem isScoped_eval? (e : Expression) : IsScoped (c.eval? functions e s) := .scopes _

theorem isScoped_evalAll? (es : List Expression) : IsScoped (c.evalAll? functions es s) :=
  .scopes _

theorem isScoped_textOf (e : Option Expression) : IsScoped (c.textOf functions e s) := by
  unfold textOf
  split
  · exact .pure _
  · refine .bind (isScoped_eval? c functions s _) fun value => ?_
    split <;> exact .pure _

theorem isScoped_bindOne (e : Expression) (v : Variable) :
    IsScoped (c.bindOne functions e v s) := by
  refine .bind (isScoped_eval? c functions s e) fun value => ?_
  split <;> exact .pure _

theorem isScoped_bindAll (e : Expression) (v : Variable) (input : Sequence) :
    IsScoped (c.bindAll functions e v input) :=
  .bind (.mapM (fun s => isScoped_bindOne c functions s e v) _) fun _ => .pure _

theorem isScoped_bindArguments : ∀ pairs : List (Variable × Expression),
    IsScoped (c.bindArguments functions s pairs)
  | [] => .pure _
  | (_, e) :: rest => by
    refine .bind (isScoped_eval? c functions s e) fun value => ?_
    split
    · exact .bind (isScoped_bindArguments rest) fun _ => .pure _
    · exact isScoped_bindArguments rest

theorem isScoped_parameters (name : Iri) (plan : Plan) (arguments : Option (List Expression)) :
    IsScoped (c.parameters functions name plan arguments s) := by
  unfold parameters
  split
  · exact .pure _
  · exact .pure _
  · exact .pure _
  · split
    · exact .pure _
    · exact .bind (isScoped_bindArguments c functions s _) fun _ => .pure _

end Context

/-! ### Instances of triples -/

theorem TemplateTerm.isScoped_instantiate (c : Context) (s : Solution) (t : TemplateTerm) :
    IsScoped (t.instantiate c s) := by
  cases t with
  | blank b => exact .bind (c.isScoped_mint b.label) fun _ => .pure _
  | iri | literal | var => exact .pure _

theorem TripleTemplate.isScoped_instantiate (c : Context) (s : Solution) (t : TripleTemplate) :
    IsScoped (t.instantiate c s) := by
  refine .bind (t.subject.isScoped_instantiate c s) fun subject => ?_
  split
  · refine .bind (t.predicate.isScoped_instantiate c s) fun predicate => ?_
    split
    · refine .bind (t.object.isScoped_instantiate c s) fun object => ?_
      split <;> exact .pure _
    · exact .pure _
  · exact .pure _

theorem ListTemplate.isScoped_head (c : Context) (s : Solution) (node : Term) (t : ListTemplate) :
    IsScoped (t.head c s node) := by
  refine .bind (t.subject.isScoped_instantiate c s) fun subject =>
    .bind (t.predicate.isScoped_instantiate c s) fun predicate => ?_
  split <;> exact .pure _

theorem ListTemplate.isPlain_instantiate (fork c : Context) (index : Nat) (s : Solution)
    (t : ListTemplate) : IsPlain (t.instantiate fork c index s) := by
  refine .bind (fork.isPlain_listNodes t.id) fun nodes => ?_
  split
  · have htail : ∀ (node next : Term) (head : Option Triple), IsPlain (do
        let value ← t.element.instantiate c s
        let first := value.bind fun value => Triple.ofTerms? node (.iri (Iri.rdf "first")) value
        let rest := Triple.ofTerms? node (.iri (Iri.rdf "rest")) next
        return head.toList ++ first.toList ++ rest.toList) := fun _ _ _ =>
      .bind (t.element.isScoped_instantiate c s).isPlain fun _ => .pure _
    dsimp only
    split
    · exact .bind (t.isScoped_head c s _).isPlain fun head => htail _ _ head
    · exact .bind (.pure _) fun head => htail _ _ head
  · exact .pure _

theorem TriplesPlan.isPlain_writeOne (p : TriplesPlan) (fork c : Context) (index : Nat)
    (s : Solution) : IsPlain (p.writeOne fork c index s) := by
  refine .bind (.forM (fun t => .bind (t.isScoped_instantiate c s).isPlain fun triple => ?_) _) fun _ =>
    .forM (fun t => .bind (t.isPlain_instantiate fork c index s) fun triples =>
      .forM (fun triple => fork.isPlain_write rfl) _) _
  split
  · exact fork.isPlain_write rfl
  · exact .pure _

theorem TriplesPlan.isPlain_writeAll (p : TriplesPlan) (fork : Context) :
    ∀ (index : Nat) (sites : List (Context × Solution)), IsPlain (p.writeAll fork index sites)
  | _, [] => .pure _
  | index, (c, s) :: rest =>
    .bind (p.isPlain_writeOne fork c index s) fun _ => p.isPlain_writeAll fork (index + 1) rest

end TripleLoom
