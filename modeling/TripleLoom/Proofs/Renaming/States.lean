import TripleLoom.Proofs.Lifecycle.History
import TripleLoom.Proofs.Renaming.Expressions
import TripleLoom.Proofs.Run.Footprint

/-!
# TripleLoom.Proofs.Renaming.States — states up to the numbers given out

Scopes, forks, sinks, permits and blank nodes are numbered as they come, so an execution that begins
in another state gets other numbers.  An `Alignment` says where two executions begin.  What one of
them is given from then on lies as far beyond its beginning as what the other is given, and this is
how the numbers correspond.  Two states are alike if what the executions did since they began is the
same up to that (`RunState.Like`), and `RunM.Matches` says of two computations that they lead from
states that are alike to states that are alike.
-/

namespace TripleLoom

open List (Forall₂)

/-! ### Numbers -/

/-- Numbers that lie equally far beyond two marks. -/
def Shifted (m m' a b : Nat) : Prop := m ≤ a ∧ a + m' = b + m

namespace Shifted

variable {m m' a b c d : Nat}

theorem start (m m' : Nat) : Shifted m m' m m' := ⟨Nat.le_refl m, Nat.add_comm m m'⟩

theorem succ (h : Shifted m m' a b) : Shifted m m' (a + 1) (b + 1) := by
  unfold Shifted at *
  omega

theorem eq_iff (h : Shifted m m' a b) (h' : Shifted m m' c d) : a = c ↔ b = d := by
  unfold Shifted at *
  omega

theorem le_left (h : Shifted m m' a b) : m ≤ a := h.1

theorem le_right (h : Shifted m m' a b) : m' ≤ b := by
  unfold Shifted at h
  omega

end Shifted

/-- Entries under one number after the other: looked up under a number that has just been given out
or under one that was given out before. -/
theorem rel_lookup_cons {κ α β : Type} [BEq κ] [LawfulBEq κ] {R : α → β → Prop}
    {l : List (κ × α)} {l' : List (κ × β)} {j j' k k' : κ} {a : α} {b : β}
    (h : Option.Rel R (l.lookup k) (l'.lookup k')) (hk : k = j ↔ k' = j') (hab : R a b) :
    Option.Rel R (((j, a) :: l).lookup k) (((j', b) :: l').lookup k') := by
  by_cases hj : k = j
  · obtain rfl := hj
    obtain rfl := hk.mp rfl
    rw [List.lookup_cons_self, List.lookup_cons_self]
    exact .some hab
  · rw [List.lookup_cons, List.lookup_cons, beq_false_of_ne hj,
      beq_false_of_ne fun hj' => hj (hk.mpr hj')]
    exact h

/-! ### Calls on sinks -/

/-- Calls on a sink that hand out what is alike. -/
inductive SinkCall.Like (p : Pairing) : SinkCall → SinkCall → Prop where
  | start : Like p .start .start
  | prefixName (name iri : String) : Like p (.prefixName name iri) (.prefixName name iri)
  | base (iri : String) : Like p (.base iri) (.base iri)
  | triple {t t' : Triple} (h : Triple.Like p t t') : Like p (.triple t) (.triple t')
  | text (text : String) : Like p (.text text) (.text text)
  | solution (vars : List Variable) {s s' : Solution} (h : Solution.Like p s s') :
    Like p (.solution vars s) (.solution vars s')
  | finish : Like p .finish .finish

/-- Calls that are alike hand out the same text. -/
theorem Collected.text_ofCalls {p : Pairing} {calls calls' : List SinkCall}
    (h : Forall₂ (SinkCall.Like p) calls calls') :
    (ofCalls calls).text = (ofCalls calls').text := by
  refine List.rel_foldl (P := fun c c' : Collected => c.text = c'.text)
    (R := SinkCall.Like p) (fun c c' hc call call' hcall => ?_) rfl h
  cases hcall <;> simp only [receive, hc]

/-! ### Beginnings -/

/-- Where two executions begin: in which states, and into which sinks they write; and which blank
nodes of the two stand for each other, among them the ones that they will make. -/
structure Alignment where
  first : RunState
  second : RunState
  firstSink : SinkId
  secondSink : SinkId
  pairing : Pairing
  made : firstSink < first.nextSink ∧ secondSink < second.nextSink
  /-- Nothing was written into sinks that were not made. -/
  quiet : (∀ sink, first.nextSink ≤ sink → first.output sink = []) ∧
    ∀ sink, second.nextSink ≤ sink → second.output sink = []
  minted : ∀ n n', Shifted first.scopes.nextFresh second.scopes.nextFresh n n' →
    pairing.pairs (.fresh n) (.fresh n')

namespace Alignment

variable (A : Alignment)

/-- Scopes that stand for each other. -/
def scopes : ScopeId → ScopeId → Prop := Shifted A.first.scopes.count A.second.scopes.count

/-- Forks that stand for each other. -/
def forks : Nat → Nat → Prop := Shifted A.first.nextFork A.second.nextFork

/-- Permits that stand for each other. -/
def permits : Nat → Nat → Prop :=
  Shifted A.first.lifecycle.permits.size A.second.lifecycle.permits.size

/-- Sinks that stand for each other: those the executions write into, and those they make. -/
def sinks (sink sink' : SinkId) : Prop :=
  sink = A.firstSink ∧ sink' = A.secondSink ∨
    Shifted A.first.nextSink A.second.nextSink sink sink'

variable {A} {sink sink' other other' : SinkId}

theorem sinks_eq_iff (h : A.sinks sink sink') (h' : A.sinks other other') :
    sink = other ↔ sink' = other' := by
  have hbelow : ∀ {a b : SinkId}, Shifted A.first.nextSink A.second.nextSink a b →
      A.firstSink ≠ a ∧ A.secondSink ≠ b := fun h =>
    ⟨Nat.ne_of_lt (A.made.1.trans_le h.le_left), Nat.ne_of_lt (A.made.2.trans_le h.le_right)⟩
  rcases h with ⟨rfl, rfl⟩ | h <;> rcases h' with ⟨rfl, rfl⟩ | h'
  · exact ⟨fun _ => rfl, fun _ => rfl⟩
  · exact iff_of_false (hbelow h').1 (hbelow h').2
  · exact iff_of_false (hbelow h).1.symm (hbelow h).2.symm
  · exact h.eq_iff h'

end Alignment

/-- Events that are alike, in sinks that stand for each other. -/
inductive Event.Like (A : Alignment) : Event → Event → Prop where
  | written {sink sink' : SinkId} (hs : A.sinks sink sink') {call call' : SinkCall}
    (h : SinkCall.Like A.pairing call call') : Like A (.written sink call) (.written sink' call')
  | opened (uri : String) (accept : Option String) :
    Like A (.opened uri accept) (.opened uri accept)
  | parsed (text : String) (base : Option String) : Like A (.parsed text base) (.parsed text base)
  | invoked (function : Iri) {values values' : List Term}
    (h : Forall₂ (Term.Like A.pairing) values values') :
    Like A (.invoked function values) (.invoked function values')
  | evaluated (select : Select) {q q' : Sequence} (h : Sequence.Like A.pairing q q') :
    Like A (.evaluated select q) (.evaluated select q')
  | started {call call' : CallKey} (h : CallKey.Like A.pairing call call') (plan : Plan)
    (once once' : Bool) : Like A (.started call plan once) (.started call' plan once')
  | skipped {call call' : CallKey} (h : CallKey.Like A.pairing call call') :
    Like A (.skipped call) (.skipped call')

theorem Event.Like.writtenTo? {A : Alignment} {e e' : Event} (h : Like A e e')
    {sink sink' : SinkId} (hs : A.sinks sink sink') :
    Option.Rel (SinkCall.Like A.pairing) (e.writtenTo? sink) (e'.writtenTo? sink') := by
  cases h with
  | @written other other' ho call call' hcall =>
    have hiff := A.sinks_eq_iff ho hs
    show Option.Rel _ (if other = sink then some call else none)
      (if other' = sink' then some call' else none)
    by_cases heq : other = sink
    · rw [if_pos heq, if_pos (hiff.mp heq)]
      exact .some hcall
    · rw [if_neg heq, if_neg fun h => heq (hiff.mpr h)]
      exact .none
  | _ => exact .none

/-! ### Steps -/

/-- Steps that lead from related states to related states, with related results. -/
def InStep {σ α β : Type} (S : σ → σ → Prop) (R : α → β → Prop) (f : σ → α × σ) (g : σ → β × σ) :
    Prop := ∀ x x', S x x' → R (f x).1 (g x').1 ∧ S (f x).2 (g x').2

/-! ### Scopes -/

/-- Scopes in which the labels of new scopes have paired nodes. -/
structure Scopes.Like (A : Alignment) (x x' : Scopes) : Prop where
  nextFresh : Shifted A.first.scopes.nextFresh A.second.scopes.nextFresh x.nextFresh x'.nextFresh
  count : A.scopes x.count x'.count
  ancestors : ∀ a a', A.scopes a a' →
    Forall₂ A.scopes (x.ancestors.getD a []) (x'.ancestors.getD a' [])
  minted : ∀ a a', A.scopes a a' → ∀ label,
    Option.Rel A.pairing.pairs (x.minted.lookup (a, label)) (x'.minted.lookup (a', label))

namespace Scopes

variable {A : Alignment}

theorem Like.path {x x' : Scopes} (h : Like A x x') {a a' : ScopeId} (ha : A.scopes a a') :
    Forall₂ A.scopes (x.path a) (x'.path a') := .cons ha (h.ancestors a a' ha)

theorem Like.node? {x x' : Scopes} (h : Like A x x') {a a' : ScopeId} (ha : A.scopes a a')
    (label : String) : Option.Rel A.pairing.pairs (x.node? a label) (x'.node? a' label) :=
  rel_findSome? (h.path ha) fun b b' hb => h.minted b b' hb label

/-- A new scope below scopes that stand for each other. -/
theorem Like.push {x x' : Scopes} (h : Like A x x') {l l' : List ScopeId}
    (hl : Forall₂ A.scopes l l') :
    Like A { x with ancestors := x.ancestors.push l }
      { x' with ancestors := x'.ancestors.push l' } where
  nextFresh := h.nextFresh
  count := by
    show A.scopes (x.ancestors.push l).size (x'.ancestors.push l').size
    rw [Array.size_push, Array.size_push]
    exact h.count.succ
  ancestors a a' ha := by
    have hiff : a = x.ancestors.size ↔ a' = x'.ancestors.size := ha.eq_iff h.count
    have hold := h.ancestors a a' ha
    simp only [Array.getD_eq_getD_getElem?, Array.getElem?_push] at hold ⊢
    by_cases heq : a = x.ancestors.size
    · rw [if_pos heq, if_pos (hiff.mp heq)]
      exact hl
    · rw [if_neg heq, if_neg fun h => heq (hiff.mpr h)]
      exact hold
  minted := h.minted

theorem inStep_root : InStep (Like A) A.scopes root root :=
  fun _ _ h => ⟨h.count, h.push .nil⟩

theorem inStep_child {a a' : ScopeId} (ha : A.scopes a a') :
    InStep (Like A) A.scopes (child · a) (child · a') :=
  fun _ _ h => ⟨h.count, h.push (h.path ha)⟩

theorem inStep_children {a a' : ScopeId} (ha : A.scopes a a') :
    ∀ n, InStep (Like A) (Forall₂ A.scopes) (children · a n) (children · a' n)
  | 0 => fun _ _ h => ⟨.nil, h⟩
  | n + 1 => fun x x' h => by
    obtain ⟨hscope, hx⟩ := inStep_child ha x x' h
    obtain ⟨hscopes, hx⟩ := inStep_children ha n _ _ hx
    exact ⟨.cons hscope hscopes, hx⟩

theorem inStep_fresh : InStep (Like A) A.pairing.pairs fresh fresh := fun _ _ h =>
  ⟨A.minted _ _ h.nextFresh, h.nextFresh.succ, h.count, h.ancestors, h.minted⟩

theorem inStep_freshAll :
    ∀ n, InStep (Like A) (Forall₂ A.pairing.pairs) (freshAll · n) (freshAll · n)
  | 0 => fun _ _ h => ⟨.nil, h⟩
  | n + 1 => fun x x' h => by
    obtain ⟨hnode, hx⟩ := inStep_fresh x x' h
    obtain ⟨hnodes, hx⟩ := inStep_freshAll n _ _ hx
    exact ⟨.cons hnode hnodes, hx⟩

theorem inStep_mint {a a' : ScopeId} (ha : A.scopes a a') (label : String) :
    InStep (Like A) A.pairing.pairs (mint · a label) (mint · a' label) := by
  intro x x' h
  have hnode := h.node? ha label
  dsimp only [mint]
  generalize x.node? a label = node at hnode ⊢
  generalize x'.node? a' label = node' at hnode ⊢
  cases hnode with
  | some hnode => exact ⟨hnode, h⟩
  | none =>
    -- neither scope knows the label, so both executions make a node, and these are paired
    obtain ⟨hfresh, hx⟩ := inStep_fresh x x' h
    refine ⟨hfresh, hx.nextFresh, hx.count, hx.ancestors, fun b b' hb l => ?_⟩
    refine rel_lookup_cons (hx.minted b b' hb l) ?_ hfresh
    rw [Prod.mk.injEq, Prod.mk.injEq, hb.eq_iff ha]

theorem inStep_allocateList (size : Nat) :
    InStep (Like A) (Forall₂ (Term.Like A.pairing)) (allocateList · size)
      (allocateList · size) := by
  intro x x' h
  obtain ⟨hnodes, hx⟩ := inStep_freshAll size x x' h
  exact ⟨List.rel_append (List.rel_map (fun _ _ h => .blank h) hnodes) (.cons (.iri _) .nil), hx⟩

/-- In scopes that stand for each other, the same labels get paired nodes. -/
theorem mintsAlike {a a' : ScopeId} (ha : A.scopes a a') :
    Eval.MintsAlike (Like A) A.pairing a a' where
  fresh := fun x x' h => ⟨.some (inStep_fresh x x' h).1, (inStep_fresh x x' h).2⟩
  mint := fun label x x' h =>
    ⟨.some (inStep_mint ha label x x' h).1, (inStep_mint ha label x x' h).2⟩

end Scopes

/-! ### The lifecycle -/

/-- Lifecycles that are closed or not alike and have as many permits to give. -/
structure Lifecycle.Like (A : Alignment) (l l' : Lifecycle) : Prop where
  closed : l.closed = l'.closed
  available : l.available = l'.available
  count : A.permits l.permits.size l'.permits.size
  held : ∀ a a', A.permits a a' → l.isHeld a = l'.isHeld a'

/-- What comes of asking for a permit alike. -/
inductive Lifecycle.Acquisition.Like (A : Alignment) : Acquisition → Acquisition → Prop where
  | granted {permit permit' : Nat} (h : A.permits permit permit') :
    Like A (.granted permit) (.granted permit')
  | pending : Like A .pending .pending
  | refused : Like A .refused .refused

namespace Lifecycle

variable {A : Alignment}

theorem inStep_acquire : InStep (Like A) (Acquisition.Like A) acquire acquire := by
  intro l l' h
  unfold acquire
  rw [h.closed, h.available]
  by_cases hclosed : l'.closed = true
  · rw [if_pos hclosed, if_pos hclosed]
    exact ⟨.refused, h⟩
  · rw [if_neg hclosed, if_neg hclosed]
    by_cases hnone : l'.available = 0
    · rw [if_pos hnone, if_pos hnone]
      exact ⟨.pending, h⟩
    · rw [if_neg hnone, if_neg hnone]
      refine ⟨.granted h.count, rfl, rfl, ?_, fun a a' ha => ?_⟩
      · rw [Array.size_push, Array.size_push]
        exact h.count.succ
      · have hiff := ha.eq_iff h.count
        have hold := h.held a a' ha
        simp only [isHeld, Array.getElem?_push] at hold ⊢
        by_cases heq : a = l.permits.size
        · rw [if_pos heq, if_pos (hiff.mp heq)]
        · rw [if_neg heq, if_neg fun h => heq (hiff.mpr h)]
          exact hold

theorem isHeld_setIfInBounds (l : Lifecycle) (permit a n : Nat) :
    isHeld { l with permits := l.permits.setIfInBounds permit false, available := n } a =
      (l.isHeld a && !decide (a = permit)) := by
  simp only [isHeld, Array.getElem?_setIfInBounds]
  by_cases h : permit = a
  · rw [if_pos h]
    split <;> simp [h]
  · rw [if_neg h]
    simp [Ne.symm h]

theorem Like.release {l l' : Lifecycle} (h : Like A l l') {a a' : Nat} (ha : A.permits a a') :
    Like A (l.release a) (l'.release a') := by
  unfold Lifecycle.release
  rw [h.held a a' ha]
  split
  · refine ⟨h.closed, congrArg (· + 1) h.available, ?_, fun b b' hb => ?_⟩
    · rw [Array.size_setIfInBounds, Array.size_setIfInBounds]
      exact h.count
    · rw [isHeld_setIfInBounds, isHeld_setIfInBounds, h.held b b' hb,
        decide_eq_decide.mpr (hb.eq_iff ha)]
  · exact h

theorem Like.close {l l' : Lifecycle} (h : Like A l l') : Like A l.close l'.close := by
  cases hclosed : l.closed with
  | true =>
    have hclosed' := h.closed.symm.trans hclosed
    unfold Lifecycle.close
    rw [if_pos hclosed, if_pos hclosed']
    exact h
  | false =>
    obtain ⟨hc, hp, ha⟩ := samePermits_close hclosed
    obtain ⟨hc', hp', ha'⟩ := samePermits_close (h.closed.symm.trans hclosed)
    refine ⟨hc.trans hc'.symm, ha.trans (h.available.trans ha'.symm), ?_, fun a a' hperm => ?_⟩
    · rw [hp, hp']
      exact h.count
    · show (l.close.permits[a]?).getD false = (l'.close.permits[a']?).getD false
      rw [hp, hp']
      exact h.held a a' hperm

end Lifecycle

/-! ### States -/

/-- States in which two executions have done the same since they began. -/
structure RunState.Like (A : Alignment) (s s' : RunState) : Prop where
  scopes : Scopes.Like A s.scopes s'.scopes
  lists : ∀ fork fork', A.forks fork fork' → ∀ list,
    Option.Rel (Forall₂ (Term.Like A.pairing)) (s.lists.lookup (fork, list))
      (s'.lists.lookup (fork', list))
  nextFork : A.forks s.nextFork s'.nextFork
  nextSink : Shifted A.first.nextSink A.second.nextSink s.nextSink s'.nextSink
  calls : Forall₂ (CallKey.Like A.pairing) s.calls s'.calls
  registry : s.registry = s'.registry
  lifecycle : Lifecycle.Like A s.lifecycle s'.lifecycle
  record : ∃ events events', s.record = events ++ A.first.record ∧
    s'.record = events' ++ A.second.record ∧ Forall₂ (Event.Like A) events events'

namespace RunState.Like

variable {A : Alignment} {s s' : RunState} (h : Like A s s')

include h

theorem isClosed : s.isClosed = s'.isClosed := h.lifecycle.closed

/-- What the executions wrote since they began is alike. -/
theorem exists_output {sink sink' : SinkId} (hs : A.sinks sink sink') :
    ∃ calls calls', s.output sink = A.first.output sink ++ calls ∧
      s'.output sink' = A.second.output sink' ++ calls' ∧
      Forall₂ (SinkCall.Like A.pairing) calls calls' := by
  obtain ⟨events, events', hr, hr', hevents⟩ := h.record
  refine ⟨_, _, ?_, ?_, List.rel_reverse (List.rel_filterMap (fun _ _ he => he.writtenTo? hs)
    hevents)⟩
  · rw [output, output, hr, List.filterMap_append, List.reverse_append]
  · rw [output, output, hr', List.filterMap_append, List.reverse_append]

/-- The text in sinks that the executions have made is the same. -/
theorem text_output {sink sink' : SinkId}
    (hs : Shifted A.first.nextSink A.second.nextSink sink sink') :
    (Collected.ofCalls (s.output sink)).text = (Collected.ofCalls (s'.output sink')).text := by
  obtain ⟨calls, calls', ho, ho', hcalls⟩ := h.exists_output (.inr hs)
  rw [ho, ho', A.quiet.1 _ hs.le_left, A.quiet.2 _ hs.le_right]
  exact Collected.text_ofCalls hcalls

theorem note {e e' : Event} (he : Event.Like A e e') :
    Like A { s with record := e :: s.record } { s' with record := e' :: s'.record } := by
  obtain ⟨events, events', hr, hr', hevents⟩ := h.record
  exact { h with record := ⟨e :: events, e' :: events', congrArg (e :: ·) hr,
    congrArg (e' :: ·) hr', .cons he hevents⟩ }

end RunState.Like

/-! ### Computations -/

/-- Computations that lead from states that are alike to states that are alike, with related
results. -/
def RunM.Matches {α β : Type} (A : Alignment) (R : α → β → Prop) (m : RunM α) (m' : RunM β) :
    Prop := ∀ s s', RunState.Like A s s' → R (m s).1 (m' s').1 ∧ RunState.Like A (m s).2 (m' s').2

namespace RunM.Matches

variable {α β γ δ : Type} {A : Alignment} {R : α → β → Prop} {P : γ → δ → Prop} {m : RunM α}
  {m' : RunM β}

theorem pure {a : α} {b : β} (h : R a b) : Matches A R (Pure.pure a) (Pure.pure b) :=
  fun _ _ hs => ⟨h, hs⟩

theorem bind (h : Matches A R m m') {f : α → RunM γ} {g : β → RunM δ}
    (hf : ∀ a b, R a b → Matches A P (f a) (g b)) : Matches A P (m >>= f) (m' >>= g) :=
  fun s s' hs => hf _ _ (h s s' hs).1 _ _ (h s s' hs).2

/-- Computations with equal results. -/
theorem bindEq {m m' : RunM α} (h : Matches A Eq m m') {f : α → RunM γ} {g : α → RunM δ}
    (hf : ∀ a, Matches A P (f a) (g a)) : Matches A P (m >>= f) (m' >>= g) :=
  h.bind fun a _ hab => hab ▸ hf a

theorem get : Matches A (RunState.Like A) (MonadState.get : RunM RunState) MonadState.get :=
  fun _ _ hs => ⟨hs, hs⟩

theorem note {e e' : Event} (he : Event.Like A e e') : Matches A Eq (RunM.note e) (RunM.note e') :=
  fun _ _ hs => ⟨rfl, hs.note he⟩

theorem scopes {f : Scopes → α × Scopes} {g : Scopes → β × Scopes}
    (h : InStep (Scopes.Like A) R f g) : Matches A R (RunM.scopes f) (RunM.scopes g) :=
  fun _ _ hs => ⟨(h _ _ hs.scopes).1, { hs with scopes := (h _ _ hs.scopes).2 }⟩

theorem lifecycle {f : Lifecycle → α × Lifecycle} {g : Lifecycle → β × Lifecycle}
    (h : InStep (Lifecycle.Like A) R f g) : Matches A R (RunM.lifecycle f) (RunM.lifecycle g) :=
  fun _ _ hs => ⟨(h _ _ hs.lifecycle).1, { hs with lifecycle := (h _ _ hs.lifecycle).2 }⟩

theorem newSink :
    Matches A (Shifted A.first.nextSink A.second.nextSink) RunM.newSink RunM.newSink :=
  fun _ _ hs => ⟨hs.nextSink, { hs with nextSink := hs.nextSink.succ }⟩

theorem recordCall {call call' : CallKey} (h : CallKey.Like A.pairing call call') :
    Matches A Eq (RunM.recordCall call) (RunM.recordCall call') := by
  intro s s' hs
  have hiff : call ∈ s.calls ↔ call' ∈ s'.calls := List.rel_mem CallKey.Like.unique h hs.calls
  unfold RunM.recordCall
  -- that nodes are paired one to one is what keeps one execution from leaving a call out alone
  by_cases hmem : call ∈ s.calls
  · rw [if_pos hmem, if_pos (hiff.mp hmem)]
    exact ⟨rfl, hs⟩
  · rw [if_neg hmem, if_neg fun h => hmem (hiff.mpr h)]
    exact ⟨rfl, { hs with calls := .cons h hs.calls }⟩

theorem register (name : Iri) (plan : Plan) :
    Matches A Eq (RunM.register name plan) (RunM.register name plan) := by
  intro s s' hs
  unfold RunM.register
  rw [hs.registry]
  exact ⟨rfl, { hs with registry := rfl }⟩

theorem mapM {f : γ → RunM α} {g : δ → RunM β} (hf : ∀ a b, P a b → Matches A R (f a) (g b)) :
    ∀ {l : List γ} {l' : List δ}, Forall₂ P l l' → Matches A (Forall₂ R) (l.mapM f) (l'.mapM g)
  | _, _, .nil => pure .nil
  | _, _, .cons h hrest => by
    rw [List.mapM_cons, List.mapM_cons]
    exact .bind (hf _ _ h) fun _ _ hab => .bind (mapM hf hrest) fun _ _ hl => pure (.cons hab hl)

theorem forM {f : γ → RunM Unit} {g : δ → RunM Unit}
    (hf : ∀ a b, P a b → Matches A Eq (f a) (g b)) :
    ∀ {l : List γ} {l' : List δ}, Forall₂ P l l' → Matches A Eq (l.forM f) (l'.forM g)
  | _, _, .nil => pure rfl
  | _, _, .cons h hrest => .bind (hf _ _ h) fun _ _ _ => forM hf hrest

end RunM.Matches

end TripleLoom
