import TripleLoom.Proofs.Renaming.States

/-!
# TripleLoom.Proofs.Renaming.Clauses — binding clauses up to renaming

The services of a run are generic if they treat blank nodes that stand for each other alike, and
give the same answer however often they were asked before.  With such services the clauses of a
query make of solutions that are alike solutions that are alike: a `BIND` by what is known of
expressions, a `SOURCE` because no document depends on blank nodes, and an `ITERATOR` because
batches are gathered without a look at the solutions in them.
-/

namespace TripleLoom

open List (Forall₂)
open RunM (Matches)

/-! ### Services -/

/-- Results that fail with one error or are related. -/
inductive ExceptRel {ε α β : Type} (R : α → β → Prop) : Except ε α → Except ε β → Prop where
  | error (e : ε) : ExceptRel R (.error e) (.error e)
  | ok {a : α} {b : β} (h : R a b) : ExceptRel R (.ok a) (.ok b)

/-- Batches of tuples whose values are alike. -/
abbrev TupleBatch.Like (p : Pairing) : TupleBatch → TupleBatch → Prop :=
  Forall₂ (Forall₂ (Option.Rel (Term.Like p)))

/-- Streams that give batches that are alike. -/
inductive TupleStream.Like (p : Pairing) : TupleStream → TupleStream → Prop where
  | given {batches batches' : List TupleBatch} (h : Forall₂ (TupleBatch.Like p) batches batches')
    (ending : Ending) : Like p (.given batches ending) (.given batches' ending)
  | counting (next : Option Integer) (last step : Integer) :
    Like p (.counting next last step) (.counting next last step)

/-- Replies of an engine with solutions that are alike once their blank nodes are put back. -/
inductive EngineReply.Like (p : Pairing) : EngineReply → EngineReply → Prop where
  | solutions {q q' : Sequence} (h : Sequence.Like p q.restoreBlanks q'.restoreBlanks) :
    Like p (.solutions q) (.solutions q')
  | failed (e : EngineError) : Like p (.failed e) (.failed e)
  | crashed : Like p .crashed .crashed

/-- An iterator function that gives like streams for like arguments, whenever it is called. -/
def IteratorFunction.IsGeneric (p : Pairing) (f : IteratorFunction) : Prop :=
  ∀ earlier earlier' values values', Forall₂ (Term.Like p) values values' →
    ExceptRel (TupleStream.Like p) (f earlier values) (f earlier' values')

/-- An engine that gives like replies for like solutions, whenever it is asked. -/
def PatternEngine.IsGeneric (p : Pairing) (engine : PatternEngine) : Prop :=
  ∀ earlier earlier' select q q', Sequence.Like p q q' →
    EngineReply.Like p (engine earlier select q) (engine earlier' select q')

/-- Functions that are all generic. -/
structure FunctionRegistry.IsGeneric (p : Pairing) (functions : FunctionRegistry) : Prop where
  scalar : ∀ name f, functions.scalar? name = some f → f.IsGeneric p
  iterator : ∀ name f, functions.iterator? name = some f → f.IsGeneric p

/-- Services that are all generic. -/
structure Setting.IsGeneric (p : Pairing) (setting : Setting) : Prop where
  functions : setting.functions.IsGeneric p
  engine : ∀ engine, setting.engine = some engine → engine.IsGeneric p

/-! ### Streams -/

/-- Signals with batches that are alike. -/
inductive Signal.Like (p : Pairing) : Signal → Signal → Prop where
  | batch {tuples tuples' : TupleBatch} (h : TupleBatch.Like p tuples tuples')
    {rest rest' : TupleStream} (hrest : TupleStream.Like p rest rest') :
    Like p (.batch tuples rest) (.batch tuples' rest')
  | finished : Like p .finished .finished
  | failed (e : FunctionError) : Like p (.failed e) (.failed e)
  | pending : Like p .pending .pending

theorem TupleStream.Like.next {p : Pairing} {s s' : TupleStream} (h : Like p s s') :
    Signal.Like p s.next s'.next := by
  cases h with
  | given h ending =>
    cases h with
    | nil =>
      cases ending with
      | finished => exact .finished
      | failed e => exact .failed e
      | pending => exact .pending
    | cons h hrest => exact .batch h (.given hrest ending)
  | counting value last step =>
    rw [TupleStream.next]
    split
    · exact .finished
    · refine .batch ?_ (.counting _ _ _)
      rw [TupleBatch.Like, List.forall₂_map_left_iff, List.forall₂_map_right_iff, List.forall₂_same]
      exact fun _ _ => .cons (.some (.literal _)) .nil

theorem Solution.Like.withTuple {p : Pairing} {s s' : Solution} (h : Like p s s')
    (vars : List Variable) {tuple tuple' : Tuple}
    (ht : Forall₂ (Option.Rel (Term.Like p)) tuple tuple') :
    Like p (s.withTuple vars tuple) (s'.withTuple vars tuple') := by
  refine Solution.Like.extend (List.rel_filterMap (fun x y hxy => ?_)
    (rel_zip (R := Eq) (List.forall₂_refl _) ht)) h
  obtain ⟨v, value⟩ := x
  obtain ⟨w, value'⟩ := y
  obtain ⟨rfl, hvalue⟩ := hxy
  exact rel_option_map hvalue fun _ _ h => ⟨rfl, h⟩

/-! ### Contexts -/

variable {A : Alignment}

/-- Contexts with one base IRI whose sinks and scopes stand for each other. -/
structure Context.Like (A : Alignment) (c c' : Context) : Prop where
  sink : A.sinks c.sink c'.sink
  scope : A.scopes c.scope c'.scope
  base : c.base = c'.base

namespace Context.Like

variable {c c' : Context} (hc : Like A c c')

include hc

theorem withBase (base : Option Iri) : Like A (c.withBase base) (c'.withBase base) :=
  ⟨hc.sink, hc.scope, congrArg base.or hc.base⟩

theorem write {call call' : SinkCall} (h : SinkCall.Like A.pairing call call') :
    Matches A Eq (c.write call) (c'.write call') := .note (.written hc.sink h)

theorem mint (label : String) : Matches A (Term.Like A.pairing) (c.mint label) (c'.mint label) :=
  .bind (.scopes (Scopes.inStep_mint hc.scope label)) fun _ _ h => .pure (.blank h)

variable {functions : FunctionRegistry} (hf : functions.IsGeneric A.pairing) {s s' : Solution}
  (hs : Solution.Like A.pairing s s')

include hf

theorem evalContext : Eval.ContextLike (Scopes.Like A) A.pairing (c.evalContext functions)
    (c'.evalContext functions) :=
  ⟨rfl, hc.base, hf.scalar, Scopes.mintsAlike hc.scope⟩

include hs

theorem eval? (e : Expression) :
    Matches A (Option.Rel (Term.Like A.pairing)) (c.eval? functions e s)
      (c'.eval? functions e s') :=
  .scopes (Eval.matches_eval (hc.evalContext hf) hs e)

theorem evalAll? (es : List Expression) :
    Matches A (Option.Rel (Forall₂ (Term.Like A.pairing))) (c.evalAll? functions es s)
      (c'.evalAll? functions es s') :=
  .scopes (Eval.Matches.each (Eval.matches_evalEach (hc.evalContext hf) hs es) fun _ _ h => h)

theorem textOf (e : Option Expression) :
    Matches A Eq (c.textOf functions e s) (c'.textOf functions e s') := by
  cases e with
  | none => exact .pure rfl
  | some e =>
    refine .bind (hc.eval? hf hs e) fun value value' h => ?_
    cases h with
    | none => exact .pure rfl
    | some h => cases h <;> exact .pure rfl

theorem bindOne (e : Expression) (v : Variable) :
    Matches A (Solution.Like A.pairing) (c.bindOne functions e v s)
      (c'.bindOne functions e v s') := by
  refine .bind (hc.eval? hf hs e) fun value value' h => ?_
  cases h with
  | none => exact .pure hs
  | some h => exact .pure (hs.overlay v h)

omit hs in
theorem bindAll (e : Expression) (v : Variable) {q q' : Sequence}
    (hq : Sequence.Like A.pairing q q') :
    Matches A (Sequence.Like A.pairing) (c.bindAll functions e v q)
      (c'.bindAll functions e v q') :=
  .bind (.mapM (P := Solution.Like A.pairing) (fun _ _ h => hc.bindOne hf h e v) hq.solutions)
    fun _ _ h => .pure ((hq.declare v).withSolutions h)

theorem bindArguments : ∀ pairs : List (Variable × Expression),
    Matches A (Forall₂ (BindingLike A.pairing)) (c.bindArguments functions s pairs)
      (c'.bindArguments functions s' pairs)
  | [] => .pure .nil
  | (v, e) :: rest => by
    refine .bind (hc.eval? hf hs e) fun value value' h => ?_
    cases h with
    | none => exact bindArguments rest
    | some h => exact .bind (bindArguments rest) fun _ _ hrest => .pure (.cons ⟨rfl, h⟩ hrest)

theorem parameters (name : Iri) (plan : Plan) (arguments : Option (List Expression)) :
    Matches A (ExceptRel (Solution.Like A.pairing))
      (c.parameters functions name plan arguments s)
      (c'.parameters functions name plan arguments s') := by
  unfold Context.parameters
  split
  · exact .pure (.ok .empty)
  · exact .pure (.error _)
  · exact .pure (.error _)
  · split
    · exact .pure (.error _)
    · exact .bind (hc.bindArguments hf hs _) fun _ _ h => .pure (.ok (.ofBindings h))

end Context.Like

/-! ### Source -/

/-- Fetches for solutions that are alike, at the same point. -/
inductive Fetch.Like (A : Alignment) : Fetch → Fetch → Prop where
  | waiting {s s' : Solution} (h : Solution.Like A.pairing s s') (uri : String)
    (accept : Option String) : Like A (.waiting s uri accept) (.waiting s' uri accept)
  | asked {s s' : Solution} (h : Solution.Like A.pairing s s') (uri : String)
    (accept : Option String) {permit permit' : Nat} (hp : A.permits permit permit') :
    Like A (.asked s uri accept permit) (.asked s' uri accept permit')
  | done {s s' : Solution} (h : Solution.Like A.pairing s s') : Like A (.done s) (.done s')

namespace Fetch.Like

theorem ofSolution (document : IriPattern) (accept : Option IriPattern) {s s' : Solution}
    (h : Solution.Like A.pairing s s') :
    Like A (Fetch.ofSolution document accept s) (Fetch.ofSolution document accept s') := by
  have haccept : accept.bind (·.text? s) = accept.bind (·.text? s') :=
    Option.bind_congr fun pattern _ => h.text? pattern
  unfold Fetch.ofSolution
  rw [h.text?, haccept]
  split
  · exact .waiting h _ _
  · exact .done h

variable {f f' : Fetch} (h : Like A f f')

include h

theorem solution : Solution.Like A.pairing f.solution f'.solution := by cases h <;> assumption

theorem isDone : f.isDone = f'.isDone := by cases h <;> rfl

theorem isReady (resolver : Resolver) {l l' : Lifecycle} (hl : Lifecycle.Like A l l') :
    f.isReady resolver l = f'.isReady resolver l' := by
  cases h <;> simp only [Fetch.isReady, hl.closed, hl.available]

theorem advance (resolver : Resolver) (v : Variable) :
    Matches A (Fetch.Like A) (f.advance resolver v) (f'.advance resolver v) := by
  have hfinish : ∀ {s s' : Solution} {permit permit' : Nat}, Solution.Like A.pairing s s' →
      A.permits permit permit' →
      Matches A (Fetch.Like A) (Fetch.finish s permit) (Fetch.finish s' permit') := by
    intro s s' permit permit' hs hp
    have hrelease : InStep (Lifecycle.Like A) Eq (fun l => ((), l.release permit))
        fun l => ((), l.release permit') := fun _ _ hl => ⟨rfl, hl.release hp⟩
    exact .bind (.lifecycle hrelease) fun _ _ _ => .pure (.done hs)
  cases h with
  | waiting hs uri accept =>
    refine .bind (.lifecycle Lifecycle.inStep_acquire) fun _ _ hacquired => ?_
    cases hacquired with
    | granted hp => exact .bind (.note (.opened uri accept)) fun _ _ _ => .pure (.asked hs _ _ hp)
    | pending => exact .pure (.waiting hs _ _)
    | refused => exact .pure (.done hs)
  | asked hs uri accept hp =>
    refine .bind .get fun state state' hstate => ?_
    rw [hstate.isClosed]
    split
    · exact hfinish hs hp
    · split
      · exact hfinish (hs.overlay v (by unfold Document.toTerm; split <;> exact .literal _)) hp
      · exact .bind (.note (.opened uri none)) fun _ _ _ => .pure (.asked hs _ _ hp)
      · exact hfinish hs hp
      · exact .pure (.asked hs _ _ hp)
  | done hs => exact .pure (.done hs)

end Fetch.Like

theorem Fetch.isReadyAt_eq (setting : Setting) {l l' : Lifecycle} (hl : Lifecycle.Like A l l')
    {fetches fetches' : List Fetch} (h : Forall₂ (Fetch.Like A) fetches fetches') (index : Nat) :
    isReadyAt setting l fetches index = isReadyAt setting l' fetches' index := by
  have hcount : doneCount fetches = doneCount fetches' := by
    unfold doneCount
    induction h with
    | nil => rfl
    | cons h _ ih =>
      rw [List.takeWhile_cons, List.takeWhile_cons, h.isDone]
      split
      · rw [List.length_cons, List.length_cons, ih]
      · rfl
  unfold isReadyAt
  rw [hcount]
  congr 1
  have hat := rel_getElem? h index
  generalize fetches[index]? = f at hat ⊢
  generalize fetches'[index]? = f' at hat ⊢
  cases hat with
  | none => rfl
  | some hf => exact hf.isReady setting.resolver hl

/-! ### Batches -/

section Batches

variable {α β : Type} {R : α → β → Prop}

/-- Open batches of related items that wait for the same inputs. -/
structure OpenBatch.Like (R : α → β → Prop) (b : OpenBatch α) (b' : OpenBatch β) : Prop where
  id : b.id = b'.id
  expected : b.expected = b'.expected
  contributors : b.contributors = b'.contributors
  items : Forall₂ R b.items b'.items

/-- Closed batches of related items. -/
structure ClosedBatch.Like (R : α → β → Prop) (b : ClosedBatch α) (b' : ClosedBatch β) : Prop where
  id : b.id = b'.id
  contributors : b.contributors = b'.contributors
  items : Forall₂ R b.items b'.items

/-- Batches of related items of the same inputs. -/
structure Batches.Like (R : α → β → Prop) (b : Batches α) (b' : Batches β) : Prop where
  pending : b.pending = b'.pending
  opened : Forall₂ (OpenBatch.Like R) b.opened b'.opened
  closed : Forall₂ (ClosedBatch.Like R) b.closed b'.closed
  nextId : b.nextId = b'.nextId

theorem OpenBatch.Like.deliver {b : OpenBatch α} {b' : OpenBatch β} (h : Like R b b') (input : Nat)
    {items : List α} {items' : List β} (hi : Forall₂ R items items') :
    Like R (b.deliver input items) (b'.deliver input items') :=
  ⟨h.id, congrArg (List.filter _) h.expected, congrArg (· ++ _) h.contributors,
    List.rel_append h.items hi⟩

theorem OpenBatch.Like.close {b : OpenBatch α} {b' : OpenBatch β} (h : Like R b b') :
    ClosedBatch.Like R b.close b'.close := ⟨h.id, h.contributors, h.items⟩

theorem OpenBatch.rel_deliverFirst? (input : Nat) {items : List α} {items' : List β}
    (hi : Forall₂ R items items') {l : List (OpenBatch α)} {l' : List (OpenBatch β)}
    (h : Forall₂ (Like R) l l') :
    Option.Rel (Forall₂ (Like R)) (deliverFirst? input items l)
      (deliverFirst? input items' l') := by
  induction h with
  | nil => exact .none
  | cons h hrest ih =>
    unfold deliverFirst?
    rw [h.expected]
    split
    · exact .some (.cons (h.deliver input hi) hrest)
    · exact rel_option_map ih fun _ _ hl => .cons h hl

namespace Batches.Like

theorem ofInputs (inputs : List Nat) : Like R (.ofInputs inputs) (.ofInputs inputs) :=
  ⟨rfl, .nil, .nil, rfl⟩

variable {b : Batches α} {b' : Batches β} (h : Like R b b')

include h

theorem closeReady : Like R b.closeReady b'.closeReady := by
  unfold Batches.closeReady
  simp only [List.partition_eq_filter_filter]
  refine ⟨h.pending, List.rel_filter (fun _ _ ho => ?_) h.opened,
    List.rel_append h.closed (List.rel_map (fun _ _ ho => ho.close)
      (List.rel_filter (fun _ _ ho => ?_) h.opened)), h.nextId⟩ <;> simp [ho.expected]

theorem add (input : Nat) {items : List α} {items' : List β} (hi : Forall₂ R items items') :
    Like R (b.add input items) (b'.add input items') := by
  have hfirst := OpenBatch.rel_deliverFirst? input hi h.opened
  unfold Batches.add
  rw [h.pending, h.nextId]
  split
  · generalize OpenBatch.deliverFirst? input items b.opened = o at hfirst ⊢
    generalize OpenBatch.deliverFirst? input items' b'.opened = o' at hfirst ⊢
    cases hfirst with
    | some ho => exact closeReady ⟨rfl, ho, h.closed, rfl⟩
    | none =>
      have hnew : OpenBatch.Like R (.mk b'.nextId b'.pending [] [])
          (.mk b'.nextId b'.pending [] []) := ⟨rfl, rfl, rfl, .nil⟩
      exact closeReady ⟨rfl, List.rel_append h.opened (.cons (hnew.deliver input hi) .nil),
        h.closed, rfl⟩
  · exact h

theorem complete (input : Nat) : Like R (b.complete input) (b'.complete input) := by
  unfold Batches.complete
  rw [h.pending]
  split
  · refine closeReady ⟨rfl, List.rel_map (fun o o' ho => ?_) h.opened, h.closed, h.nextId⟩
    exact ⟨ho.id, congrArg (List.filter _) ho.expected, ho.contributors, ho.items⟩
  · exact h

theorem forceClose : Like R b.forceClose b'.forceClose :=
  ⟨rfl, .nil, List.rel_append h.closed (List.rel_map (fun _ _ ho => ho.close) h.opened), h.nextId⟩

end Batches.Like

end Batches

/-! ### Iterator -/

/-- Feeds whose streams are alike; how often their functions were invoked before is left open. -/
structure Feed.Like (p : Pairing) (f f' : Feed) : Prop where
  input : f.input = f'.input
  function : f.function = f'.function
  stream : Option.Rel (TupleStream.Like p) f.stream f'.stream

/-- Events of streams that are alike. -/
inductive FeedEvent.Like (p : Pairing) : FeedEvent → FeedEvent → Prop where
  | batch (input : Nat) {tuples tuples' : TupleBatch} (h : TupleBatch.Like p tuples tuples') :
    Like p (.batch input tuples) (.batch input tuples')
  | done (input : Nat) : Like p (.done input) (.done input)

/-- Iterations at the same point, over inputs and streams that are alike. -/
structure Iteration.Like (p : Pairing) (i i' : Iteration) : Prop where
  vars : i.vars = i'.vars
  input : Sequence.Like p i.input i'.input
  feeds : Forall₂ (Feed.Like p) i.feeds i'.feeds
  queue : Forall₂ (FeedEvent.Like p) i.queue i'.queue
  batches : Batches.Like (Solution.Like p) i.batches i'.batches
  isListening : i.isListening = i'.isListening

theorem Feed.Like.next {p : Pairing} {f f' : Feed} (h : Like p f f') :
    Option.Rel (Signal.Like p) (f.stream.map TupleStream.next) (f'.stream.map TupleStream.next) :=
  rel_option_map h.stream fun _ _ hs => hs.next

theorem Feed.Like.isReady {p : Pairing} {f f' : Feed} (h : Like p f f') :
    f.isReady = f'.isReady := by
  have hnext := h.next
  unfold Feed.isReady
  generalize f.stream.map TupleStream.next = signal at hnext ⊢
  generalize f'.stream.map TupleStream.next = signal' at hnext ⊢
  cases hnext with
  | none => rfl
  | some h => cases h <;> rfl

namespace Iteration.Like

variable {p : Pairing} {i i' : Iteration} (h : Like p i i')

include h

theorem isSilent (closed : Bool) : i.isSilent closed = i'.isSilent closed := by
  have hall : i.feeds.all Feed.isOver = i'.feeds.all Feed.isOver :=
    all_of_rel h.feeds fun f f' hf => by
      rw [Feed.isOver, Feed.isOver, ← Option.not_isSome, ← Option.not_isSome,
        isSome_of_rel hf.stream]
  unfold Iteration.isSilent
  rw [hall]

theorem isAudible (closed : Bool) : i.isAudible closed = i'.isAudible closed := by
  unfold Iteration.isAudible
  rw [h.isSilent, h.isListening, isEmpty_of_rel h.queue]

theorem isReadyAt (closed : Bool) (index : Nat) :
    i.isReadyAt closed index = i'.isReadyAt closed index := by
  have hat := rel_getElem? h.feeds index
  unfold Iteration.isReadyAt
  congr 1
  generalize i.feeds[index]? = f at hat ⊢
  generalize i'.feeds[index]? = f' at hat ⊢
  cases hat with
  | none => rfl
  | some hf => exact hf.isReady

theorem tell (index : Nat) : Like p (i.tell index) (i'.tell index) := by
  have hat := rel_getElem? h.feeds index
  unfold Iteration.tell
  generalize i.feeds[index]? = f at hat ⊢
  generalize i'.feeds[index]? = f' at hat ⊢
  cases hat with
  | none => exact h
  | @some f f' hf =>
    have hset : ∀ {stream stream' : Option TupleStream},
        Option.Rel (TupleStream.Like p) stream stream' →
        Forall₂ (Feed.Like p) (i.feeds.set index { f with stream })
          (i'.feeds.set index { f' with stream := stream' }) := by
      intro stream stream' hs
      refine rel_set h.feeds ?_ index
      exact ⟨hf.input, hf.function, hs⟩
    have htell : ∀ {e e' : FeedEvent}, FeedEvent.Like p e e' →
        Forall₂ (FeedEvent.Like p) (i.queue ++ [e]) (i'.queue ++ [e']) := fun he =>
      List.rel_append h.queue (.cons he .nil)
    have hnext := hf.next
    dsimp only
    generalize f.stream.map TupleStream.next = signal at hnext ⊢
    generalize f'.stream.map TupleStream.next = signal' at hnext ⊢
    have hinput := hf.input
    cases hnext with
    | none => exact h
    | some hsignal =>
      cases hsignal with
      | batch ht hrest =>
        exact ⟨h.vars, h.input, hset (.some hrest), htell (hinput ▸ .batch _ ht), h.batches,
          h.isListening⟩
      | finished | failed =>
        exact ⟨h.vars, h.input, hset .none, htell (hinput ▸ .done _), h.batches, h.isListening⟩
      | pending => exact h

theorem solutionsOf (input : Nat) {tuples tuples' : TupleBatch}
    (ht : TupleBatch.Like p tuples tuples') :
    Forall₂ (Solution.Like p) (i.solutionsOf input tuples) (i'.solutionsOf input tuples') := by
  have hat := rel_getElem? h.input.solutions input
  unfold Iteration.solutionsOf
  rw [h.vars]
  generalize i.input.solutions[input]? = s at hat ⊢
  generalize i'.input.solutions[input]? = s' at hat ⊢
  cases hat with
  | none => exact .nil
  | some hs => exact List.rel_map (fun _ _ htuple => hs.withTuple _ htuple) ht

theorem hear : Like p i.hear i'.hear := by
  have hqueue := h.queue
  unfold Iteration.hear
  generalize i.queue = queue at hqueue ⊢
  generalize i'.queue = queue' at hqueue ⊢
  cases hqueue with
  | nil => exact ⟨h.vars, h.input, h.feeds, .nil, h.batches.forceClose, rfl⟩
  | cons he hrest =>
    cases he with
    | batch input ht =>
      exact ⟨h.vars, h.input, h.feeds, hrest, h.batches.add input (h.solutionsOf input ht),
        h.isListening⟩
    | done input =>
      exact ⟨h.vars, h.input, h.feeds, hrest, h.batches.complete input, h.isListening⟩

theorem takeSequences (wantsEmpty : Bool) :
    Forall₂ (Sequence.Like p) (i.takeSequences wantsEmpty).1 (i'.takeSequences wantsEmpty).1 ∧
      Like p (i.takeSequences wantsEmpty).2 (i'.takeSequences wantsEmpty).2 := by
  refine ⟨List.rel_map (fun _ _ hb => h.input.withSolutions hb.items)
    (List.rel_filter (fun b b' hb => ?_) h.batches.closed), { h with batches := ?_ }⟩
  · simp only [isEmpty_of_rel hb.items]
  · exact { h.batches with closed := .nil }

end Iteration.Like

section Invocations

variable {functions : FunctionRegistry} (hf : functions.IsGeneric A.pairing) {c c' : Context}
  (hc : Context.Like A c c') {f : IteratorFunction} (hg : f.IsGeneric A.pairing)

include hf hc hg

theorem Iteration.matches_invokeAll (name : Iri) (arguments : List Expression) :
    ∀ (input : Nat) {solutions solutions' : List Solution} {batches batches' : Batches Solution},
      Forall₂ (Solution.Like A.pairing) solutions solutions' →
      Batches.Like (Solution.Like A.pairing) batches batches' →
      Matches A (fun x y => Forall₂ (Feed.Like A.pairing) x.1 y.1 ∧
          Batches.Like (Solution.Like A.pairing) x.2 y.2)
        (invokeAll c functions name f arguments input solutions batches)
        (invokeAll c' functions name f arguments input solutions' batches')
  | _, _, _, _, _, .nil, hb => .pure ⟨.nil, hb⟩
  | input, _, _, _, _, .cons hs hrest, hb => by
    have ih := fun {batches batches' : Batches Solution}
        (h : Batches.Like (Solution.Like A.pairing) batches batches') =>
      matches_invokeAll name arguments (input + 1) hrest h
    refine .bind (hc.evalAll? hf hs arguments) fun values values' hvalues => ?_
    cases hvalues with
    | none => exact ih (hb.complete input)
    | @some values values' hvalues =>
      refine .bind .get fun state state' _ => .bind (.note (.invoked name hvalues)) fun _ _ _ => ?_
      -- the executions may have invoked the function different numbers of times before
      have hstream := hg (state.invocations name) (state'.invocations name) _ _ hvalues
      dsimp only
      generalize f (state.invocations name) values = r at hstream ⊢
      generalize f (state'.invocations name) values' = r' at hstream ⊢
      cases hstream with
      | error => exact ih (hb.complete input)
      | ok hstream =>
        exact .bind (ih hb) fun _ _ h => .pure ⟨.cons ⟨rfl, rfl, .some hstream⟩ h.1, h.2⟩

theorem Iteration.matches_start (name : Iri) (arguments : List Expression) (vars : List Variable)
    {q q' : Sequence} (hq : Sequence.Like A.pairing q q') :
    Matches A (Iteration.Like A.pairing) (Iteration.start c functions name f arguments vars q)
      (Iteration.start c' functions name f arguments vars q') := by
  unfold Iteration.start
  rw [hq.size]
  exact .bind (matches_invokeAll hf hc hg name arguments 0 hq.solutions (.ofInputs _))
    fun _ _ h => .pure ⟨rfl, hq.declareAll vars, h.1, .nil, h.2, rfl⟩

end Invocations

end TripleLoom
