import TripleLoom.Proofs.Renaming.Tasks
import TripleLoom.Proofs.Run.Once
import TripleLoom.Proofs.Run.Turns

/-!
# TripleLoom.Proofs.Renaming.Calls — one call in place of another

A call that was recorded stands for all equal calls that come later.  What the callee sees of its
caller besides the parameters is the base IRI, and that only if the callee's plan has none itself:
two executions of one plan for equal calls under one base IRI write the same up to the names of the
blank nodes they make (`Run.calls_interchangeable`).  Under two base IRIs they need not
(`Run.site_calls_differ`).
-/

namespace TripleLoom

open List (Forall₂)

/-! ### Blank nodes to come -/

/-- Whether a blank node is none of the fresh ones from a number on. -/
def BlankNode.IsOld (n : Nat) (b : BlankNode) : Prop := ∀ i, b = .fresh i → i < n

/-- Pairs the fresh nodes from two numbers on in their order, and all that are old for both with
themselves. -/
def Pairing.fresh (n n' : Nat) : Pairing where
  pairs a b := (∃ i j, Shifted n n' i j ∧ a = .fresh i ∧ b = .fresh j) ∨
    a = b ∧ a.IsOld n ∧ a.IsOld n'
  unique := by
    constructor
    · rintro a b _ (⟨i, k, hik, rfl, rfl⟩ | ⟨rfl, hn, hn'⟩) (⟨j, l, hjl, rfl, hl⟩ | ⟨rfl, hm, hm'⟩)
      · rw [(hik.eq_iff hjl).mpr (BlankNode.fresh_injective hl)]
      · exact absurd (hm' k rfl) (Nat.not_lt.mpr hik.le_right)
      · exact absurd (hn' l hl) (Nat.not_lt.mpr hjl.le_right)
      · rfl
    · rintro _ a b (⟨i, k, hik, rfl, rfl⟩ | ⟨rfl, hn, hn'⟩) (⟨j, l, hjl, hj, rfl⟩ | ⟨rfl, hm, hm'⟩)
      · rw [(hik.eq_iff hjl).mp (BlankNode.fresh_injective hj)]
      · exact absurd (hm i rfl) (Nat.not_lt.mpr hik.le_left)
      · exact absurd (hn j hj) (Nat.not_lt.mpr hjl.le_left)
      · rfl

/-- Whether a term is no blank node or an old one. -/
def Term.IsOld (n : Nat) (t : Term) : Prop := ∀ b, t = .blank b → b.IsOld n

/-- Whether the parameters of a call are old. -/
def CallKey.IsOld (n : Nat) (call : CallKey) : Prop := ∀ t, some t ∈ call.parameters → t.IsOld n

variable {n n' : Nat}

theorem Term.IsOld.like {t : Term} (h : t.IsOld n) (h' : t.IsOld n') :
    Term.Like (.fresh n n') t t := by
  cases t with
  | iri i => exact .iri i
  | literal l => exact .literal l
  | blank b => exact .blank (.inr ⟨rfl, h b rfl, h' b rfl⟩)

theorem CallKey.IsOld.like {call : CallKey} (h : call.IsOld n) (h' : call.IsOld n') :
    CallKey.Like (.fresh n n') call call :=
  ⟨rfl, List.forall₂_same.mpr fun _ hv => rel_option_refl fun t ht =>
    (h t (ht ▸ hv)).like (h' t (ht ▸ hv))⟩

/-- Solutions that a plan is run for are alike if its parameters have the same old values. -/
theorem Solution.like_of_ofSolution_eq {s s' : Solution} {name : Iri} {plan : Plan}
    (hs : s.IsUnder plan.parameters) (hs' : s'.IsUnder plan.parameters)
    (hkey : CallKey.ofSolution name plan.signature s = .ofSolution name plan.signature s')
    (hold : (CallKey.ofSolution name plan.signature s).IsOld n)
    (hold' : (CallKey.ofSolution name plan.signature s).IsOld n') :
    Solution.Like (.fresh n n') s s' := by
  intro v
  have hvalues : plan.parameters.map s.get? = plan.parameters.map s'.get? :=
    congrArg CallKey.parameters hkey
  by_cases hv : v ∈ plan.parameters
  · rw [← List.map_inj_left.mp hvalues v hv]
    refine rel_option_refl fun t ht => ?_
    have hmem : some t ∈ plan.parameters.map s.get? := List.mem_map.mpr ⟨v, hv, ht⟩
    exact (hold t hmem).like (hold' t hmem)
  · rw [Option.eq_none_iff_forall_ne_some.mpr fun t ht => hv (hs v t ht),
      Option.eq_none_iff_forall_ne_some.mpr fun t ht => hv (hs' v t ht)]
    exact .none

/-! ### Places of calls -/

/-- A place where a plan may be started for a call.  The scopes, labels and lists are in order, the
context writes into a sink that was made, nothing was written into those still to be made, and the
parameters of this call and of those recorded are old. -/
structure Context.IsSite (c : Context) (call : CallKey) (s : RunState) : Prop where
  sound : s.IsSound
  sink : c.sink < s.nextSink
  quiet : ∀ sink, s.nextSink ≤ sink → s.output sink = []
  old : ∀ k ∈ call :: s.calls, k.IsOld s.scopes.nextFresh

/-- States in which a plan that is started finds the same: the same calls recorded, the same plans
registered, and as many permits to get. -/
structure RunState.Agrees (s s' : RunState) : Prop where
  calls : s.calls = s'.calls
  registry : s.registry = s'.registry
  closed : s.isClosed = s'.isClosed
  available : s.lifecycle.available = s'.lifecycle.available

/-- Executions that begin at two places. -/
def Alignment.ofSites {c c' : Context} {call call' : CallKey} {s s' : RunState}
    (h : c.IsSite call s) (h' : c'.IsSite call' s') : Alignment where
  first := s
  second := s'
  firstSink := c.sink
  secondSink := c'.sink
  pairing := .fresh s.scopes.nextFresh s'.scopes.nextFresh
  made := ⟨h.sink, h'.sink⟩
  quiet := ⟨h.quiet, h'.quiet⟩
  minted i j hij := .inl ⟨i, j, hij, rfl, rfl⟩

/-- There are no entries under numbers that were not given out. -/
theorem lookup_eq_none_of_le {κ α : Type} [BEq κ] [LawfulBEq κ] {l : List ((Nat × κ) × α)}
    {m a : Nat} (h : ∀ b ∈ l, b.1.1 < m) (ha : m ≤ a) (k : κ) : l.lookup (a, k) = none :=
  Option.eq_none_iff_forall_ne_some.mpr fun _ hb =>
    Nat.not_lt.mpr ha (h _ (mem_of_lookup hb))

theorem Scopes.getD_eq_nil_of_le {x : Scopes} {a : ScopeId} (h : x.count ≤ a) :
    x.ancestors.getD a [] = [] := by
  rw [Array.getD_eq_getD_getElem?, Array.getElem?_eq_none h]
  rfl

theorem Lifecycle.isHeld_of_le {l : Lifecycle} {a : Nat} (h : l.permits.size ≤ a) :
    l.isHeld a = false := by
  rw [isHeld, Array.getElem?_eq_none h]
  rfl

/-- States that agree are alike in the beginning. -/
theorem RunState.Agrees.like {c c' : Context} {call : CallKey} {s s' : RunState}
    (h : c.IsSite call s) (h' : c'.IsSite call s') (hs : s.Agrees s') :
    RunState.Like (.ofSites h h') s s' := by
  refine ⟨⟨.start _ _, .start _ _, fun a a' ha => ?_, fun a a' ha label => ?_⟩,
    fun fork fork' hfork list => ?_, .start _ _, .start _ _, ?_, hs.registry,
    ⟨hs.closed, hs.available, .start _ _, fun a a' ha => ?_⟩, ⟨[], [], rfl, rfl, .nil⟩⟩
  · rw [Scopes.getD_eq_nil_of_le (x := s.scopes) ha.le_left,
      Scopes.getD_eq_nil_of_le (x := s'.scopes) ha.le_right]
    exact .nil
  · rw [lookup_eq_none_of_le h.sound.minted ha.le_left,
      lookup_eq_none_of_le h'.sound.minted ha.le_right]
    exact .none
  · rw [lookup_eq_none_of_le h.sound.lists hfork.le_left,
      lookup_eq_none_of_le h'.sound.lists hfork.le_right]
    exact .none
  · rw [← hs.calls]
    refine List.forall₂_same.mpr fun k hk => (h.old k (List.mem_cons_of_mem _ hk)).like ?_
    exact h'.old k (List.mem_cons_of_mem _ (hs.calls ▸ hk))
  · rw [Lifecycle.isHeld_of_le (l := s.lifecycle) ha.le_left,
      Lifecycle.isHeld_of_le (l := s'.lifecycle) ha.le_right]

namespace Run

/-! ### Executions of calls -/

/-- The execution of a plan for a call, on its own. -/
def ofCall (state : RunState) (c : Context) (call : CallKey) (plan : Plan) (s : Solution)
    (once : Bool) : Run :=
  let started := c.startCall call plan s once state
  ⟨c, started.1, started.2⟩

/-- **One call stands for another.**  Let a plan be called twice, by any callers and with any
arguments, so that the calls are equal: the name and the values of the parameters are the same.
Then executing the plan for the one comes to the same as executing it for the other, provided that
both run under one base IRI, which is the plan's own or else the caller's.  Whatever moves the one
execution makes, the other can make too, whereupon both are over or not, with the same outcome, and
what they have written is the same up to the names of the blank nodes that they have made. -/
theorem calls_interchangeable {setting : Setting} {state state' : RunState} {c c' : Context}
    {name : Iri} {plan : Plan} {s s' : Solution}
    (hs : ∃ arguments caller t,
      (c.parameters setting.functions name plan arguments caller t).1 = .ok s)
    (hs' : ∃ arguments caller t,
      (c'.parameters setting.functions name plan arguments caller t).1 = .ok s')
    (hkey : CallKey.ofSolution name plan.signature s = .ofSolution name plan.signature s')
    (hbase : plan.base.or c.base = plan.base.or c'.base)
    (hsite : c.IsSite (.ofSolution name plan.signature s) state)
    (hsite' : c'.IsSite (.ofSolution name plan.signature s) state')
    (hstate : state.Agrees state')
    (hsetting : setting.IsGeneric (.fresh state.scopes.nextFresh state'.scopes.nextFresh))
    (once once' : Bool) (moves : List RunMove) :
    Option.Rel
      (fun r r' => r.isOver = r'.isOver ∧ r.task.outcome = r'.task.outcome ∧
        ∃ calls calls', r.state.output c.sink = state.output c.sink ++ calls ∧
          r'.state.output c'.sink = state'.output c'.sink ++ calls' ∧
          Forall₂ (SinkCall.Like (.fresh state.scopes.nextFresh state'.scopes.nextFresh))
            calls calls')
      ((ofCall state c (.ofSolution name plan.signature s) plan s once).replay setting moves)
      ((ofCall state' c' (.ofSolution name plan.signature s') plan s' once').replay setting
        moves) := by
  have hunder : ∀ {c : Context} {u : Solution}, (∃ arguments caller t,
      (c.parameters setting.functions name plan arguments caller t).1 = .ok u) →
      u.IsUnder plan.parameters := fun ⟨arguments, caller, t, h⟩ =>
    Context.isUnder_parameters _ _ name plan arguments caller t h
  have hold := hsite.old _ List.mem_cons_self
  have hold' := hsite'.old _ List.mem_cons_self
  -- a plan sees nothing of its caller's solution but the values of its parameters
  have hsolution := Solution.like_of_ofSolution_eq (hunder hs) (hunder hs') hkey hold hold'
  let A : Alignment := .ofSites hsite hsite'
  have hsinks : A.sinks c.sink c'.sink := .inl ⟨rfl, rfl⟩
  have hcall : CallKey.Like A.pairing (.ofSolution name plan.signature s)
      (.ofSolution name plan.signature s') := hkey ▸ hold.like hold'
  obtain ⟨htask, hstart⟩ := Context.matches_startCall (A := A) hsinks hbase hcall hsolution once
    once' state state' (hstate.like hsite hsite')
  have hbegin : Run.Like A (ofCall state c (.ofSolution name plan.signature s) plan s once)
      (ofCall state' c' (.ofSolution name plan.signature s') plan s' once') := ⟨htask, hstart⟩
  exact rel_option_mono (rel_replay hsetting moves hbegin) fun r r' h =>
    ⟨h.task.isFinished, h.task.outcome, h.state.exists_output hsinks⟩

/-! ### Calls of a query with a base IRI of its own -/

/-- The name of a query. -/
def mark : Iri := ⟨"urn:mark"⟩

/-- The query, which has a base IRI, says of a new node what it was called with. -/
def markPlan : Plan :=
  ⟨some mark, some [⟨"n"⟩], some mark, [], [], none, [],
    .generate [.triples ⟨[⟨.blank ⟨"m"⟩, .iri mark, .var ⟨"n"⟩⟩], []⟩]⟩

/-- A state in which some sinks and nodes were made. -/
def markState (sinks nodes : Nat) : RunState :=
  { RunState.start 1 with nextSink := sinks, scopes := ⟨#[], [], nodes⟩ }

/-- A context that writes into a sink. -/
def markContext (sink : SinkId) (base : Option Iri) : Context := ⟨sink, 0, base, 0, 1⟩

/-- The solution that the query is run for. -/
def markSolution : Solution := .ofBindings [(⟨"n"⟩, .ofText "7")]

/-- The call of the query. -/
abbrev markCall : CallKey := .ofSolution mark markPlan.signature markSolution

theorem markContext_isSite {sink sinks : SinkId} (h : sink < sinks) (nodes : Nat)
    (base : Option Iri) : (markContext sink base).IsSite markCall (markState sinks nodes) where
  sound := ⟨nofun, nofun, nofun, nofun, nofun, List.nodup_nil⟩
  sink := h
  quiet := fun _ _ => rfl
  old := by
    rintro k (_ | ⟨_, ⟨⟩⟩) t (_ | ⟨_, ⟨⟩⟩) b hb
    cases hb

theorem bareSetting_isGeneric (p : Pairing) : bareSetting.IsGeneric p where
  functions := ⟨nofun, nofun⟩
  engine := nofun

/-- The moves of an execution of the query. -/
def markMoves : List RunMove := [.here, .here, .here, .here].map .work

/-- The triple that the query writes. -/
def markTriple (node : Nat) : Triple := ⟨.blank (.fresh node), mark, .ofText "7"⟩

/-- Two callers under different base IRIs, one of which passes a constant and the other the value of
a variable: the executions of the query make different nodes, and write the same otherwise. -/
theorem mark_calls_interchangeable :
    ∃ r r',
      (ofCall (markState 1 0) (markContext 0 none) markCall markPlan markSolution true).replay
        bareSetting markMoves = some r ∧
      (ofCall (markState 3 5) (markContext 2 (some ⟨"urn:b"⟩)) markCall markPlan markSolution
        false).replay bareSetting markMoves = some r' ∧
      r.isOver = true ∧ (Collected.ofCalls (r.state.output 0)).triples = [markTriple 0] ∧
      (Collected.ofCalls (r'.state.output 2)).triples = [markTriple 5] ∧
      r.isOver = r'.isOver ∧ r.task.outcome = r'.task.outcome ∧
      ∃ calls calls', r.state.output 0 = (markState 1 0).output 0 ++ calls ∧
        r'.state.output 2 = (markState 3 5).output 2 ++ calls' ∧
        Forall₂ (SinkCall.Like (.fresh 0 5)) calls calls' := by
  have hrun : ((ofCall (markState 1 0) (markContext 0 none) markCall markPlan markSolution
      true).replay bareSetting markMoves).any (fun r =>
        r.isOver && (Collected.ofCalls (r.state.output 0)).triples == [markTriple 0]) = true := by
    decide +kernel
  have hrun' : ((ofCall (markState 3 5) (markContext 2 (some ⟨"urn:b"⟩)) markCall markPlan
      markSolution false).replay bareSetting markMoves).any (fun r =>
        (Collected.ofCalls (r.state.output 2)).triples == [markTriple 5]) = true := by
    decide +kernel
  obtain ⟨r, hr, htests⟩ := (Option.any_eq_true _ _).mp hrun
  obtain ⟨r', hr', htriples'⟩ := (Option.any_eq_true _ _).mp hrun'
  rw [Bool.and_eq_true, beq_iff_eq] at htests
  have hconstant : ∃ arguments caller t, ((markContext 0 none).parameters bareSetting.functions mark
      markPlan arguments caller t).1 = .ok markSolution :=
    ⟨some [.literal (.simple "7")], .empty, markState 1 0, rfl⟩
  have hvariable : ∃ arguments caller t, ((markContext 2 (some ⟨"urn:b"⟩)).parameters
      bareSetting.functions mark markPlan arguments caller t).1 = .ok markSolution :=
    ⟨some [.var ⟨"v"⟩], .ofBindings [(⟨"v"⟩, .ofText "7")], markState 3 5, rfl⟩
  have hstate : (markState 1 0).Agrees (markState 3 5) := ⟨rfl, rfl, rfl, rfl⟩
  have hrel := calls_interchangeable hconstant hvariable rfl rfl
    (markContext_isSite Nat.zero_lt_one 0 none)
    (markContext_isSite (Nat.lt_succ_self 2) 5 (some ⟨"urn:b"⟩)) hstate (bareSetting_isGeneric _)
    true false markMoves
  rw [hr, hr'] at hrel
  cases hrel with
  | some h => exact ⟨r, r', hr, hr', htests.1, htests.2, eq_of_beq htriples', h⟩

/-! ### Calls of a query without a base IRI -/

/-- The name of another query. -/
def site : Iri := ⟨"urn:site"⟩

/-- The query, which has no base IRI, resolves a relative reference. -/
def sitePlan : Plan :=
  ⟨some site, none, none, [], [], none, [], .template (.template
    ⟨none, [.expression (.call (.builtin .str) [.call (.builtin .iri) [.literal (.simple "x")]])],
      none, none⟩)⟩

/-- A query that calls it under a base IRI. -/
def siteCaller (base : String) : Plan :=
  ⟨none, none, some ⟨base⟩, [], [], none, [], .template (.template
    ⟨none, [.call ⟨.iri site, none⟩], none, none⟩)⟩

/-- A query that holds two of these. -/
def sitesPlan : Plan :=
  ⟨none, none, none, [], [], none, [], .template (.template
    ⟨none, [.plan (siteCaller "http://a.example/"), .plan (siteCaller "http://b.example/")],
      none, none⟩)⟩

/-- A state in which the query is registered. -/
def siteState : RunState :=
  { RunState.start 1 with registry := (QueryRegistry.empty.register site sitePlan).2 }

/-- The moves of a run of the query that holds both. -/
def siteMoves : List RunMove :=
  let part : List Move := List.replicate 4 (.inside 0 .here) ++
    List.replicate 7 (.inside 0 (.inside 0 .here)) ++ List.replicate 3 (.inside 0 .here)
  let moves : List Move :=
    List.replicate 4 .here ++ part ++ [.here, .here] ++ part ++ [.here, .here, .here]
  moves.map .work

/-- The query is called twice without parameters in one run, and what the calls write into the sinks
that are made for them is not the same up to any names of blank nodes: each holds the reference
resolved against the caller's base IRI. -/
theorem site_calls_differ :
    ∃ r, (start (siteState.renew 1) sitesPlan .unit).replay bareSetting siteMoves = some r ∧
      r.isOver = true ∧
      (r.state.record.countP fun e => match e with
        | .started call _ _ => call == ⟨site, []⟩
        | _ => false) = 2 ∧
      (Collected.ofCalls (r.state.output 2)).text = "http://a.example/x" ∧
      (Collected.ofCalls (r.state.output 4)).text = "http://b.example/x" ∧
      ∀ p, ¬ Forall₂ (SinkCall.Like p) (r.state.output 2) (r.state.output 4) := by
  have hrun : ((start (siteState.renew 1) sitesPlan .unit).replay bareSetting siteMoves).any
      (fun r => r.isOver && (r.state.record.countP fun e => match e with
        | .started call _ _ => call == ⟨site, []⟩
        | _ => false) == 2 &&
        (Collected.ofCalls (r.state.output 2)).text == "http://a.example/x" &&
        (Collected.ofCalls (r.state.output 4)).text == "http://b.example/x") = true := by
    decide +kernel
  obtain ⟨r, hr, htests⟩ := (Option.any_eq_true _ _).mp hrun
  simp only [Bool.and_eq_true, beq_iff_eq] at htests
  obtain ⟨⟨⟨hover, hcount⟩, hfirst⟩, hsecond⟩ := htests
  refine ⟨r, hr, hover, hcount, hfirst, hsecond, fun p h => ?_⟩
  have htext := Collected.text_ofCalls h
  rw [hfirst, hsecond] at htext
  exact absurd htext (by decide)

end Run

end TripleLoom
