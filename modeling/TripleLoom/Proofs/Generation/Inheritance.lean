import TripleLoom.Proofs.Generation.Sheltering
import TripleLoom.Proofs.Renaming.Terms

/-!
# TripleLoom.Proofs.Generation.Inheritance — placeholders of queries inside a query

A query that stands in the form of another one is run for each solution in the solution's scope, and
so at any depth.  A label has a node there from the first element on that asks for it.  So a query
inside the form shares the nodes of the labels that elements in front of it ask for, and mints nodes
of its own for all others, also for those that elements behind it ask for
(`Run.shares_labels_asked_before`): the order of the elements tells which
(`Run.order_separates_labels`).

What is shared is an invariant of runs (`Run.Inherits`), and that nothing else is needs two more: the
labels in the scope of a solution were asked for by elements (`Run.IsAsked`), and the form writes none
while it waits (`Run.Awaits`).
-/

namespace TripleLoom

open RunM

/-! ### Labels in the scopes of an execution -/

namespace Execution

variable {e : Execution} {c : Context}

/-- Nothing is minted in the scopes of an execution when it begins. -/
theorem lookup_began (h : e.state.IsSound) {scope : ScopeId} (hs : e.state.scopes.count ≤ scope)
    (label : String) : e.began.scopes.minted.lookup (scope, label) = none := by
  rw [e.generates.minted]
  refine Option.eq_none_iff_forall_ne_some.mpr fun node hnode => ?_
  exact Nat.not_lt.mpr hs (h.minted _ (mem_of_lookup hnode))

theorem placeholder?_eq {w : Writeout} {i : Nat} {u : Solution}
    (h : e.generation.sites[i]? = some (c, u)) (label : String) :
    e.placeholder? w i label = c.label? w.after label := by
  rw [placeholder?, (List.getElem?_zip_eq_some.mp h).1]
  rfl

theorem mem_contexts_of_sites {i : Nat} {u : Solution} (h : e.generation.sites[i]? = some (c, u)) :
    c ∈ e.generation.contexts := List.mem_of_getElem? (List.getElem?_zip_eq_some.mp h).1

/-- When an execution begins its labels stand for what they stand for in its context. -/
theorem label?_began (h : e.state.IsSound) (hc : c ∈ e.generation.fork :: e.generation.contexts)
    (label : String) : c.label? e.began label = e.frame.context.label? e.state label := by
  have hfork : (e.state.scopes.count :: e.state.scopes.path e.frame.context.scope).findSome?
      (fun a => e.began.scopes.minted.lookup (a, label)) = e.frame.context.label? e.state label := by
    rw [List.findSome?_cons, lookup_began h (Nat.le_refl _), e.generates.minted]
    rfl
  rw [Context.label?, Scopes.node?]
  rcases List.mem_cons.mp hc with rfl | hc
  · rw [show e.began.scopes.path e.generation.fork.scope = _ from e.generates.fork, hfork]
  · obtain ⟨hlt, -, hpath⟩ := e.generates.sites c hc
    rw [hpath, List.findSome?_cons, lookup_began h (Nat.le_of_lt hlt), hfork]

/-- Of the scopes of an execution only that of a solution itself has this scope above it. -/
theorem eq_of_mem_path (h : e.state.IsSound) (hin : e.frame.context.IsIn e.state) {d : Context}
    (hc : c ∈ e.generation.contexts) (hd : d ∈ e.generation.fork :: e.generation.contexts)
    (hmem : c.scope ∈ e.began.scopes.path d.scope) : d.scope = c.scope := by
  have hlt := (e.generates.sites c hc).1
  have hfork : c.scope ∉ e.state.scopes.count :: e.state.scopes.path e.frame.context.scope := by
    intro hmem
    rcases List.mem_cons.mp hmem with heq | hmem
    · exact Nat.ne_of_gt hlt heq
    · exact h.not_mem_path hin.scope (Nat.lt_trans hin.scope hlt) hmem
  rcases List.mem_cons.mp hd with rfl | hd
  · rw [show e.began.scopes.path e.generation.fork.scope = _ from e.generates.fork] at hmem
    exact absurd hmem hfork
  · rw [(e.generates.sites d hd).2.2] at hmem
    exact ((List.mem_cons.mp hmem).resolve_right hfork).symm

end Execution

namespace Run

variable {setting : Setting} {acts : List Act} {r r' : Run} {move : RunMove} {e e' : Execution}
  {w : Writeout} {c : Context}

/-- What is written for an execution was written before, or is written now by its form, and in both
cases the execution has begun before. -/
theorem History.mem_writeouts_concat (h : History setting acts r) {a : Act}
    (h' : History setting (acts ++ [a]) r') (hwithin : a.task.Within r.task)
    (he : e ∈ executions setting (acts ++ [a])) (hw : w ∈ e.writeouts (acts ++ [a])) :
    e ∈ executions setting acts ∧ (w ∈ e.writeouts acts ∨
      a.writeout? = some w ∧ a.task.generation? = some e.generation) := by
  obtain ⟨hmem, heq, -⟩ := h'.of_mem_writeouts he hw
  have hknown : ∀ e₁ ∈ executions setting acts, e₁.generation = w.generation →
      e ∈ executions setting acts := fun e₁ he₁ hg => by
    rwa [← h'.eq_of_generation (mem_executions_concat.mpr (.inl he₁)) he (hg.trans heq)]
  rw [writeouts_concat] at hmem
  rcases List.mem_append.mp hmem with hold | hnew
  · obtain ⟨e₁, he₁, hg, -⟩ := h.written w hold
    exact ⟨hknown e₁ he₁ hg, .inl (List.mem_filter.mpr ⟨hold, (List.mem_filter.mp hw).2⟩)⟩
  · have hnew := Option.mem_toList.mp hnew
    have hg := Act.generation_of_writeout? hnew
    obtain ⟨e₁, he₁, hg₁⟩ := h.owned _ hwithin _ hg
    exact ⟨hknown e₁ he₁ hg₁, .inr ⟨hnew, heq ▸ hg⟩⟩

/-! ### What is known below -/

/-- A label that stood for a node in a solution once an element had been written stands for it in all
that goes on in the solution's scope. -/
def Inherits (setting : Setting) (acts : List Act) (r : Run) : Prop :=
  ∀ e ∈ executions setting acts, ∀ w ∈ e.writeouts acts, ∀ c ∈ e.generation.contexts,
    ∀ label node, c.label? w.after label = some node → ∀ v : Task, v.Within r.task →
      ∀ d ∈ v.contexts, c.scope ∈ r.state.scopes.path d.scope → d.label? r.state label = some node

/-- A form that begins in the scope of a solution knows the labels that its context knows. -/
theorem label?_of_begins {u u' : Task} (hr : History setting acts r) (hwithin : u.Within r.task)
    (hturns : Task.Turns setting r.state u u' r'.state)
    (he : (Act.mk u r.state u' r'.state).execution? setting = some e) {label : String}
    {node : BlankNode} (hnode : e.frame.context.label? r.state label = some node) :
    ∀ d ∈ e.generation.fork :: e.generation.contexts, d.label? r'.state label = some node := by
  intro d hd
  obtain ⟨hcontext, hbound, hbegan, -⟩ := Act.execution?_eq_some he hturns
  have hlt := (hr.areIn u hwithin e.frame.context (by rw [hcontext]; exact List.mem_cons_self)).scope
  rw [hbegan, e.label?_began (hr.sound.evolves hbound) hd]
  exact (hr.sound.keeps hbound).node? _ hlt label node hnode

theorem Inherits.step (h : Inherits setting acts r) (hr : History setting acts r)
    (ht : Tracks setting acts r) (hh : IsHoused setting acts r)
    (hs : r.step setting move = some r') :
    Inherits setting (acts ++ (r.act? setting move).toList) r' := by
  have hr' := hr.step hs
  have hkept : ∀ {p : Footprint} {c d : Context} {label : String} {node : BlankNode},
      r.state.Evolves p r'.state → d.IsIn r.state →
      (c.scope ∈ r.state.scopes.path d.scope → d.label? r.state label = some node) →
      c.scope ∈ r'.state.scopes.path d.scope → d.label? r'.state label = some node := by
    intro p c d label node hevolves hd hknown hmem
    rw [hevolves.path hd.scope] at hmem
    exact (hr.sound.keeps hevolves).node? _ hd.scope label node (hknown hmem)
  obtain ⟨-, ⟨hact, htask, hevolves⟩ | ⟨m, u, u', hact, hturning⟩⟩ := step_cases hr.areIn hs
  · rw [hact, Option.toList_none, List.append_nil]
    intro e he w hw c hc label node hnode v hv d hd
    rw [htask] at hv
    exact hkept hevolves (hr.areIn v hv d hd) (h e he w hw c hc label node hnode v hv d hd)
  · rw [hact, Option.toList_some] at hr' ⊢
    intro e he w hw c hc label node hnode
    obtain ⟨hold, hcase⟩ := hr.mem_writeouts_concat hr' hturning.within he hw
    have hlt := hr.scope_lt hold (List.mem_cons_of_mem _ hc)
    have hroot : ∀ scope, r.state.scopes.count ≤ scope → r'.state.scopes.path scope = [scope] →
        c.scope ∉ r'.state.scopes.path scope := by
      intro scope hnew hpath hmem
      rw [hpath] at hmem
      exact Nat.ne_of_lt (Nat.lt_of_lt_of_le hlt hnew) (List.mem_singleton.mp hmem)
    rcases hcase with hw | ⟨hw, hg⟩
    · refine hturning.forall_scopes (Q := fun scope => c.scope ∈ r'.state.scopes.path scope →
        r'.state.scopes.node? scope label = some node) (fun v hv d hd => ?_)
        (fun e₀ he₀ d hd hmem => ?_) fun scope hnew hpath hmem => absurd hmem (hroot scope hnew hpath)
      · exact hkept hturning.evolves (hr.areIn v hv d hd) (h e hold w hw c hc label node hnode v hv d hd)
      · obtain ⟨hcontext, hbound, hbegan, -⟩ := Act.execution?_eq_some he₀ hturning.turns
        have hmem₀ : e₀.frame.context ∈ u.contexts := by
          rw [hcontext]
          exact List.mem_cons_self
        rw [hbegan] at hmem
        have habove := e₀.mem_path_context hd hmem (Nat.lt_of_lt_of_le hlt hbound.grows.scopes)
        rw [hbound.path (hr.areIn u hturning.within _ hmem₀).scope] at habove
        exact label?_of_begins hr hturning.within hturning.turns he₀
          (h e hold w hw c hc label node hnode u hturning.within _ hmem₀ habove) d hd
    · -- nothing else is in the scope of the solution while the element is written
      obtain ⟨-, hafter, nodes, running, error, rfl, -⟩ := Act.writeout?_eq_some hw hturning.turns
      obtain ⟨hsound, hin, hbegan⟩ := hr.begun e hold
      have hgeneration : w.generation = e.generation := Option.some.inj hg
      have hsame := hturning.forall_scopes (Q := fun scope =>
        c.scope ∈ r'.state.scopes.path scope → scope = c.scope) (fun v hv d hd hmem => ?_)
        (fun e₀ he₀ => ?_) fun scope hnew hpath hmem => absurd hmem (hroot scope hnew hpath)
      · intro v hv d hd hmem
        rw [Context.label?, hsame v hv d hd hmem, hafter]
        exact hnode
      · have hform := hturning.within
        rw [hgeneration] at hform
        rw [hturning.evolves.path (hr.areIn v hv d hd).scope] at hmem
        obtain rfl := hh.eq_of_idle ht hold hform hv ⟨d, hd, c, hc, hmem⟩
        rw [hbegan.path (e.contexts_isIn hd).scope] at hmem
        exact e.eq_of_mem_path hsound hin hc hd hmem
      · cases he₀

/-! ### What labels are asked for -/

/-- A form that writes no element leaves the state as it is. -/
theorem state_eq_of_form {u u' : Task} {s s' : RunState} {g : Generation}
    (ht : Task.Turns setting s u u' s') (hg : u.generation? = some g)
    (hw : (Act.mk u s u' s').writeout? = none) : s' = s := by
  cases ht with
  | triples => cases hw
  | stay _ hnone | finish _ _ hnone | call hnone =>
    rw [hg] at hnone
    cases hnone
  | ask _ _ _ _ ht => rcases ht with rfl | rfl <;> cases hg
  | generated | nest | resolve | refuse | nested | resolved | called => rfl
  | _ => cases hg

/-- Executions have scopes of their own. -/
theorem History.eq_of_scope (h : History setting acts r) (he : e ∈ executions setting acts)
    (he' : e' ∈ executions setting acts) {d : Context}
    (hc : c ∈ e.generation.fork :: e.generation.contexts)
    (hd : d ∈ e'.generation.fork :: e'.generation.contexts) (hscope : d.scope = c.scope) : e = e' := by
  have hle : ∀ {e : Execution} {c : Context}, c ∈ e.generation.fork :: e.generation.contexts →
      e.state.scopes.count ≤ c.scope := by
    intro e c hc
    rcases List.mem_cons.mp hc with rfl | hc
    · exact Nat.le_refl _
    · exact Nat.le_of_lt (e.generates.sites c hc).1
  by_contra hne
  have hc' := (e.contexts_isIn hc).scope
  have hd' := (e'.contexts_isIn hd).scope
  rcases h.began_before_or he he' hne with hb | hb
  · exact Nat.not_le_of_lt hc' (hscope ▸ Nat.le_trans hb.grows.scopes (hle hd))
  · exact Nat.not_le_of_lt hd' (hscope ▸ Nat.le_trans hb.grows.scopes (hle hc))

/-- A label that gets a node in the scope of a solution gets it when an element is written. -/
theorem IsHoused.lookup_eq_or_writes (hh : IsHoused setting acts r) (hr : History setting acts r)
    (ht : Tracks setting acts r) {m : Move} {u u' : Task}
    (hturning : Task.Turning setting m r.task r.state r'.task r'.state u u')
    (he : e ∈ executions setting acts) (hpure : e.frame.plan.callsBnode = false)
    (hc : c ∈ e.generation.contexts) (label : String) :
    r'.state.scopes.minted.lookup (c.scope, label) =
        r.state.scopes.minted.lookup (c.scope, label) ∨
      ∃ w, (Act.mk u r.state u' r'.state).writeout? = some w ∧ w.generation = e.generation := by
  by_cases hmints : c.scope ∈ u.mintScopes
  · obtain ⟨d, hd, hscope⟩ := Task.exists_context_of_mintScopes hmints
    cases hg : u.generation? with
    | none =>
      -- below the form only parts of its plan are at work, which call no `BNODE`
      have hpath : r.state.scopes.path c.scope = _ :=
        ((hr.begun e he).2.2.path (e.generates.sites c hc).2.1).trans (e.generates.sites c hc).2.2
      have hlies : u.LiesIn e r.state := ⟨d, hd, c, hc, by
        rw [hscope, hpath]
        exact List.mem_cons_self⟩
      obtain ⟨done, q, todo, hplan, hq, -⟩ := hh.exists_query ht he hturning.within hlies
        (by rw [hg]; exact nofun)
      have hholds : e.frame.plan.Holds q := .element .self (by
        rw [hplan]
        exact List.mem_append_right _ List.mem_cons_self)
      have hevolves := (hq.fitsIn (hholds.callsBnode hpure) hg).evolves_actOn? setting hturning.acts
        (hr.areIn u hturning.within)
      exact .inl (hevolves.minted_eq id label)
    | some g =>
      obtain ⟨e', he', rfl⟩ := hr.owned u hturning.within g hg
      have hd' : d ∈ e'.generation.fork :: e'.generation.contexts := by
        cases u with
        | generating => exact Option.some.inj hg ▸ hd
        | _ => cases hg
      obtain rfl := hr.eq_of_scope he he' (List.mem_cons_of_mem _ hc) hd' hscope
      cases hw : (Act.mk u r.state u' r'.state).writeout? with
      | some w =>
        have hgeneration := Act.generation_of_writeout? hw
        exact .inr ⟨w, rfl, Option.some.inj (hgeneration.symm.trans hg)⟩
      | none => exact .inl (by rw [state_eq_of_form hturning.turns hg hw])
  · exact .inl (hturning.evolves.minted_eq hmints label)

/-- The nodes of labels in the scope of a solution, if no expression of the plan calls `BNODE`, are
those of labels that an element asks for. -/
def IsAsked (setting : Setting) (acts : List Act) (r : Run) : Prop :=
  ∀ e ∈ executions setting acts, e.frame.plan.callsBnode = false → ∀ i c u,
    e.generation.sites[i]? = some (c, u) → ∀ label node,
      r.state.scopes.minted.lookup (c.scope, label) = some node →
        ∃ w ∈ e.writeouts acts, label ∈ w.plan.askedIn (c.label? w.after) u i

theorem IsAsked.step (h : IsAsked setting acts r) (hr : History setting acts r)
    (ht : Tracks setting acts r) (hl : HasLists setting acts r) (hh : IsHoused setting acts r)
    (hs : r.step setting move = some r') :
    IsAsked setting (acts ++ (r.act? setting move).toList) r' := by
  have hr' := hr.step hs
  have hl' := hl.step hr hs
  obtain ⟨-, ⟨hact, -, hevolves⟩ | ⟨m, u, u', hact, hturning⟩⟩ := step_cases hr.areIn hs
  · rw [hact, Option.toList_none, List.append_nil]
    intro e he hpure i c v hi label node hnode
    rw [hevolves.minted_eq id label] at hnode
    exact h e he hpure i c v hi label node hnode
  · rw [hact, Option.toList_some] at hr' hl' ⊢
    intro e he hpure i c v hi label node hnode
    have hc := Execution.mem_contexts_of_sites hi
    rcases mem_executions_concat.mp he with hold | hnew
    · have hbefore : r.state.scopes.minted.lookup (c.scope, label) = some node → ∃ w ∈ e.writeouts
          (acts ++ [⟨u, r.state, u', r'.state⟩]), label ∈ w.plan.askedIn (c.label? w.after) v i := by
        intro hnode
        obtain ⟨w, hw, hasked⟩ := h e hold hpure i c v hi label node hnode
        exact ⟨w, by rw [e.writeouts_concat]; exact List.mem_append_left _ hw, hasked⟩
      rcases hh.lookup_eq_or_writes hr ht hturning hold hpure hc label with hsame | ⟨w, hw, hg⟩
      · exact hbefore (hsame ▸ hnode)
      · have hmem : w ∈ e.writeouts (acts ++ [⟨u, r.state, u', r'.state⟩]) := by
          rw [e.writeouts_concat, hw]
          refine List.mem_append_right _ (List.mem_filter.mpr ⟨List.mem_singleton_self w, ?_⟩)
          rw [hg]
          exact decide_eq_true rfl
        by_cases hasked : label ∈ w.plan.askedIn (c.label? w.after) v i
        · exact ⟨w, hmem, hasked⟩
        · have hlookup := hl'.lookup_eq hr' he hmem (hg ▸ hi) hasked
          obtain ⟨hstate, hafter, -⟩ := Act.writeout?_eq_some hw hturning.turns
          rw [← hafter, hstate] at hlookup
          exact hbefore (hlookup ▸ hnode)
    · obtain ⟨-, hbound, hbegan, -⟩ := Act.execution?_eq_some hnew hturning.turns
      rw [hbegan, Execution.lookup_began (hr.sound.evolves hbound)
        (Nat.le_of_lt (e.generates.sites c hc).1)] at hnode
      cases hnode

/-- What is known of a run about what goes on in the scopes of solutions. -/
structure IsSheltered (setting : Setting) (acts : List Act) (r : Run) : Prop where
  history : History setting acts r
  tracks : Tracks setting acts r
  lists : HasLists setting acts r
  untouched : IsUntouched setting acts r
  housed : IsHoused setting acts r
  inherits : Inherits setting acts r
  asked : IsAsked setting acts r

theorem IsSheltered.step (h : IsSheltered setting acts r) (hs : r.step setting move = some r') :
    IsSheltered setting (acts ++ (r.act? setting move).toList) r' where
  history := h.history.step hs
  tracks := h.tracks.step h.history hs
  lists := h.lists.step h.history hs
  untouched := h.untouched.step h.history hs
  housed := h.housed.step h.history hs
  inherits := h.inherits.step h.history h.tracks h.housed hs
  asked := h.asked.step h.history h.tracks h.lists h.housed hs

theorem isSheltered_replay {state : RunState} (hstate : state.IsSound) (limit : Nat) (plan : Plan)
    (input : Sequence) {moves : List RunMove}
    (hreplay : (start (state.renew limit) plan input).replay setting moves = some r) :
    IsSheltered setting ((start (state.renew limit) plan input).acts setting moves) r :=
  acts_induction (P := IsSheltered setting) (fun _ _ _ _ h hs => h.step hs) [] _
    ⟨history_start hstate limit plan input, tracks_start state limit plan input,
      fun _ he => (nomatch he), fun _ he => (nomatch he), fun _ he => (nomatch he),
      fun _ he => (nomatch he), fun _ he => (nomatch he)⟩ hreplay

/-! ### While an execution waits -/

/-- The form of an execution that has begun does not begin again. -/
theorem History.generation_within (h : History setting acts r) {m : Move} {u u' : Task}
    (hturning : Task.Turning setting m r.task r.state r'.task r'.state u u')
    (he : e ∈ executions setting acts) : ∀ v : Task, v.Within r'.task →
      v.generation? = some e.generation →
        ∃ v : Task, v.Within r.task ∧ v.generation? = some e.generation := by
  refine hturning.forall_within (fun v hv hg => ⟨v, hv, hg⟩) (fun v index inner hv hg => ?_)
    (fun hg => ?_) fun v hb hg => ?_
  · rw [Task.generation?_replaceInside] at hg
    exact hv hg
  · rcases Act.Turns.generation? hturning.turns hg with hold | ⟨e', he', hsame⟩
    · exact ⟨u, hturning.within, hold⟩
    · have hbound := (Act.execution?_eq_some he' hturning.turns).2.1
      have hfork : e'.state.nextFork = e.state.nextFork := congrArg (·.fork.fork) hsame
      have hforks := Nat.le_trans (h.begun e he).2.2.grows.forks hbound.grows.forks
      rw [e.generates.forks, hfork] at hforks
      exact absurd hforks (Nat.not_succ_le_self _)
  · cases hb <;> cases hg

/-- An execution that has begun does not begin again. -/
theorem History.execution?_ne (h : History setting acts r) {u u' : Task}
    (hturns : Task.Turns setting r.state u u' r'.state) (he : e ∈ executions setting acts) :
    (Act.mk u r.state u' r'.state).execution? setting ≠ some e := by
  intro he'
  have hbound := (Act.execution?_eq_some he' hturns).2.1
  exact e.ne_of_evolves ((h.begun e he).2.2.trans (hbound.mono (Footprint.le_all _))) rfl

/-- The form of an execution lies in the scopes that the execution has begun in. -/
theorem History.liesIn (h : History setting acts r) (he' : e' ∈ executions setting acts)
    (hin : e.Surrounds e'.state e'.frame.context.scope) {v : Task}
    (hg : v.generation? = some e'.generation) : v.LiesIn e r.state := by
  have hfork : e'.generation.fork ∈ v.contexts := by
    cases v with
    | generating =>
      obtain rfl := Option.some.inj hg
      exact List.mem_cons_self
    | _ => cases hg
  obtain ⟨c, hc, hmem⟩ := hin
  have hpath := (h.begun e' he').2.2.path (e'.contexts_isIn List.mem_cons_self).scope
  refine ⟨_, hfork, c, hc, ?_⟩
  rw [hpath, show e'.began.scopes.path e'.generation.fork.scope = _ from e'.generates.fork]
  exact List.mem_cons_of_mem _ hmem

/-- While an execution that has begun after some acts goes on, nothing is written for one around it;
so what it writes finds in the scopes of that one's solutions only what was asked for before. -/
structure Awaits (acts : List Act) (r : Run) (xs : List Act) (e e' : Execution) : Prop where
  waits : ∀ v : Task, v.Within r.task → v.generation? = some e'.generation →
    e.writeouts acts ⊆ e.writeouts xs
  knows : ∀ w' ∈ e'.writeouts acts, ∀ i c u, e.generation.sites[i]? = some (c, u) →
    ∀ label node, w'.after.scopes.minted.lookup (c.scope, label) = some node →
      ∃ w ∈ e.writeouts xs, label ∈ w.plan.askedIn (c.label? w.after) u i

theorem Awaits.begins {u u' : Task} (hr : History setting acts r)
    (hr' : History setting (acts ++ [⟨u, r.state, u', r'.state⟩]) r') (hwithin : u.Within r.task)
    (hturns : Task.Turns setting r.state u u' r'.state) (he : e ∈ executions setting acts)
    (he' : (Act.mk u r.state u' r'.state).execution? setting = some e') :
    Awaits (acts ++ [⟨u, r.state, u', r'.state⟩]) r' acts e e' where
  waits v hv hg w hw := by
    obtain ⟨-, hold | ⟨-, hform⟩⟩ :=
      hr.mem_writeouts_concat hr' hwithin (mem_executions_concat.mpr (.inl he)) hw
    · exact hold
    · obtain ⟨-, -, -, ⟨input, hu⟩, -⟩ := Act.execution?_eq_some he' hturns
      rw [show (Act.mk u r.state u' r'.state).task = _ from hu] at hform
      cases hform
  knows w' hw' := by
    have hbefore := hr.mem_writeouts_concat hr' hwithin (mem_executions_concat.mpr (.inr he')) hw'
    exact absurd he' (hr.execution?_ne hturns hbefore.1)

theorem Awaits.step {xs : List Act} (h : Awaits acts r xs e e') (hs : IsSheltered setting acts r)
    (he : e ∈ executions setting acts) (he' : e' ∈ executions setting acts) (hne : e ≠ e')
    (hpure : e.frame.plan.callsBnode = false)
    (hin : e.Surrounds e'.state e'.frame.context.scope) (hstep : r.step setting move = some r') :
    Awaits (acts ++ (r.act? setting move).toList) r' xs e e' := by
  have hr := hs.history
  have hs' := hs.step hstep
  obtain ⟨-, ⟨hact, htask, -⟩ | ⟨m, u, u', hact, hturning⟩⟩ := step_cases hr.areIn hstep
  · rw [hact, Option.toList_none, List.append_nil]
    exact ⟨htask ▸ h.waits, h.knows⟩
  · rw [hact, Option.toList_some] at hs' ⊢
    have hr' := hs'.history
    have hmem := mem_executions_concat (a := ⟨u, r.state, u', r'.state⟩).mpr (.inl he)
    have hmem' := mem_executions_concat (a := ⟨u, r.state, u', r'.state⟩).mpr (.inl he')
    refine ⟨fun v hv hg w hw => ?_, fun w' hw' i c v hi label node hnode => ?_⟩
    · obtain ⟨v, hv, hg⟩ := hr.generation_within hturning he' v hv hg
      obtain ⟨-, hold | ⟨hw, hform⟩⟩ := hr.mem_writeouts_concat hr' hturning.within hmem hw
      · exact h.waits v hv hg hold
      · -- the form around is not between two elements
        obtain ⟨-, -, nodes, running, error, rfl, -⟩ := Act.writeout?_eq_some hw hturning.turns
        have hidle := hturning.within
        rw [Option.some.inj hform] at hidle
        rw [hs.housed.eq_of_idle hs.tracks he hidle hv (hr.liesIn he' hin hg)] at hg
        exact absurd (hr.eq_of_generation he he' (Option.some.inj hg)) hne
    · obtain ⟨-, hold | ⟨hw', hform⟩⟩ := hr.mem_writeouts_concat hr' hturning.within hmem' hw'
      · exact h.knows w' hold i c v hi label node hnode
      · obtain ⟨-, hafter, -⟩ := Act.writeout?_eq_some hw' hturning.turns
        obtain ⟨w, hw, hasked⟩ :=
          hs'.asked e hmem hpure i c v hi label node (hafter ▸ hnode)
        obtain ⟨-, hold | ⟨-, hother⟩⟩ := hr.mem_writeouts_concat hr' hturning.within hmem hw
        · exact ⟨w, h.waits u hturning.within hform hold, hasked⟩
        · exact absurd (hr.eq_of_generation he he' (Option.some.inj (hother.symm.trans hform))) hne

/-- An execution around another one awaits it from its beginning to the end of the run. -/
theorem Awaits.replay {xs : List Act} {moves : List RunMove} (h : Awaits acts r xs e e')
    (hs : IsSheltered setting acts r) (he : e ∈ executions setting acts)
    (he' : e' ∈ executions setting acts) (hne : e ≠ e') (hpure : e.frame.plan.callsBnode = false)
    (hin : e.Surrounds e'.state e'.frame.context.scope)
    (hreplay : r.replay setting moves = some r') :
    Awaits (acts ++ r.acts setting moves) r' xs e e' := by
  refine (acts_induction (P := fun acts r => IsSheltered setting acts r ∧
    e ∈ executions setting acts ∧ e' ∈ executions setting acts ∧ Awaits acts r xs e e')
    (fun acts r move r' h hstep => ?_) acts r ⟨hs, he, he', h⟩ hreplay).2.2.2
  obtain ⟨hs, he, he', h⟩ := h
  exact ⟨hs.step hstep, mem_executions_append _ he, mem_executions_append _ he',
    h.step hs he he' hne hpure hin hstep⟩

/-! ### What is shared -/

section Shared

variable {i : Nat} {v : Solution} {label : String} {node : BlankNode} {w' : Writeout} {d : Context}

/-- A label that a written element asks for in a solution stands for a node there. -/
theorem IsSheltered.exists_label (h : IsSheltered setting acts r)
    (he : e ∈ executions setting acts) (hw : w ∈ e.writeouts acts)
    (hi : e.generation.sites[i]? = some (c, v))
    (hasked : label ∈ w.plan.askedIn (c.label? w.after) v i) :
    ∃ node, c.label? w.after label = some node := by
  have hgeneration := (h.history.of_mem_writeouts he hw).2.1
  exact h.lists.exists_label h.history he hw (hgeneration ▸ hi) hasked

/-- What begins in the scope of a solution is of a query that stands in the form behind all elements
that are written. -/
theorem IsSheltered.exists_query {u u' : Task} (h : IsSheltered setting acts r)
    (hwithin : u.Within r.task) (hturns : Task.Turns setting r.state u u' r'.state)
    (he : e ∈ executions setting acts)
    (he' : (Act.mk u r.state u' r'.state).execution? setting = some e')
    (hin : e.Surrounds e'.state e'.frame.context.scope) :
    ∃ done q todo, e.frame.plan.elements = done ++ .plan q :: todo ∧ q.Holds e'.frame.plan ∧
      (e.writeouts acts).map (·.plan) = PlanNode.triplesOf done := by
  obtain ⟨-, hbound, -, ⟨input, rfl⟩, -⟩ := Act.execution?_eq_some he' hturns
  have hlt := (h.history.areIn _ hwithin e'.frame.context List.mem_cons_self).scope
  exact h.housed.exists_query h.tracks he hwithin
    ⟨_, List.mem_cons_self, hin.of_evolves hbound hlt⟩ nofun

/-- What begins in the scope of a solution knows the labels that the form has asked for. -/
theorem IsSheltered.label?_began {u u' : Task} (h : IsSheltered setting acts r)
    (hwithin : u.Within r.task) (hturns : Task.Turns setting r.state u u' r'.state)
    (he : e ∈ executions setting acts)
    (he' : (Act.mk u r.state u' r'.state).execution? setting = some e')
    (hc : c ∈ e.generation.contexts) (hin : c.scope ∈ e'.state.scopes.path e'.frame.context.scope)
    (hw : w ∈ e.writeouts acts) (hnode : c.label? w.after label = some node)
    (hd : d ∈ e'.generation.contexts) : d.label? e'.began label = some node := by
  obtain ⟨hcontexts, hbound, hbegan, -⟩ := Act.execution?_eq_some he' hturns
  have hmem : e'.frame.context ∈ u.contexts := hcontexts ▸ List.mem_cons_self
  rw [hbound.path (h.history.areIn u hwithin _ hmem).scope] at hin
  have hknown := h.inherits e he w hw c hc label node hnode u hwithin _ hmem hin
  rw [← hbegan]
  exact label?_of_begins h.history hwithin hturns he' hknown d (List.mem_cons_of_mem _ hd)

/-- What an execution has known from its beginning it knows once it has written an element. -/
theorem History.label?_after (h : History setting acts r) (he : e ∈ executions setting acts)
    (hw : w ∈ e.writeouts acts) (hc : c ∈ e.generation.contexts)
    (hnode : c.label? e.began label = some node) : c.label? w.after label = some node := by
  obtain ⟨hmem, -, hbefore, -⟩ := h.of_mem_writeouts he hw
  have hkeeps := hbefore.trans ((h.writeout_evolves hmem).mono (Footprint.le_all _))
  exact ((h.isSound_began he).keeps hkeeps).node? _ (e.generates.sites c hc).2.1 label node hnode

/-- A label stands for the same node whenever it stands for one in a solution. -/
theorem History.label?_unique (h : History setting acts r) (he : e ∈ executions setting acts)
    (hw : w ∈ e.writeouts acts) (hw' : w' ∈ e.writeouts acts) (hc : c ∈ e.generation.contexts)
    {node' : BlankNode} (hnode : c.label? w.after label = some node)
    (hnode' : c.label? w'.after label = some node') : node' = node := by
  have hend : ∀ {w : Writeout} {node : BlankNode}, w ∈ e.writeouts acts →
      c.label? w.after label = some node → c.label? r.state label = some node := by
    intro w node hw hnode
    obtain ⟨hmem, -, hbefore, hafter⟩ := h.of_mem_writeouts he hw
    have hwrites := h.writeout_evolves hmem
    have hlt := Nat.lt_of_lt_of_le (e.generates.sites c hc).2.1
      (hbefore.grows.trans hwrites.grows).scopes
    exact (((h.isSound_writeout hmem).1.evolves hwrites).keeps hafter).node? _ hlt label node hnode
  exact Option.some.inj ((hend hw' hnode').symm.trans (hend hw hnode))

/-- A node that a solution has for a label that no scope above it knows is known elsewhere only from
the scope of the solution. -/
theorem IsSheltered.lookup_of_shared (h : IsSheltered setting acts r)
    (he : e ∈ executions setting acts) (he' : e' ∈ executions setting acts)
    (hpure : e.frame.plan.callsBnode = false) (hw : w ∈ e.writeouts acts)
    (hfree : e.frame.context.label? w.state label = none) (hc : c ∈ e.generation.contexts)
    (hnode : c.label? w.after label = some node) (hw' : w' ∈ e'.writeouts acts)
    (hnode' : d.label? w'.after label = some node) :
    w'.after.scopes.minted.lookup (c.scope, label) = some node := by
  rw [h.untouched.label?_eq h.history he hw (Plan.any_passesBnode hpure) hfree hc] at hnode
  obtain ⟨a, -, hlookup⟩ := List.exists_of_findSome?_eq_some hnode'
  have hminted := (h.history.of_mem_writeouts he hw).2.2.2.extends_scopes _ _ hnode
  have hminted' := (h.history.of_mem_writeouts he' hw').2.2.2.extends_scopes _ _ hlookup
  obtain ⟨rfl, -⟩ := Prod.mk.inj (h.history.sound.eq_of_minted hminted' hminted)
  exact hlookup

end Shared

/-- **Queries inside a form share the nodes that were asked for before them.**  Take any run, in it
an execution of a form, and another execution that begins in the scope of one of its solutions, at
whatever depth.  It is of a query that an element of the form holds, and the elements of triples in
front of that element are those that the form has written so far.  If elements of both ask for a label,
the one for the solution, the other for any of its own, then the label has a node in both.  It is the
same node if an element in front has asked for the label too; and if no expression of the plan calls
`BNODE` and the form's context does not know the label, then only so. -/
theorem shares_labels_asked_before {state : RunState} (hstate : state.IsSound) (limit : Nat)
    (plan : Plan) (input : Sequence) {moves : List RunMove}
    (hreplay : (start (state.renew limit) plan input).replay setting moves = some r)
    {xs ys : List Act} {a : Act}
    (hacts : (start (state.renew limit) plan input).acts setting moves = xs ++ a :: ys)
    (he : e ∈ executions setting xs) (he' : a.execution? setting = some e') {i : Nat} {u : Solution}
    (hi : e.generation.sites[i]? = some (c, u))
    (hin : c.scope ∈ e'.state.scopes.path e'.frame.context.scope) :
    ∃ done q todo, e.frame.plan.elements = done ++ .plan q :: todo ∧ q.Holds e'.frame.plan ∧
      (e.writeouts xs).map (·.plan) = PlanNode.triplesOf done ∧
      ∀ w ∈ e.writeouts (xs ++ a :: ys), ∀ w' ∈ e'.writeouts (xs ++ a :: ys),
        w.calls = w.triples.map .triple ∧ w'.calls = w'.triples.map .triple ∧
        ∀ label ∈ w.plan.askedIn (c.label? w.after) u i, ∀ j d v,
          e'.generation.sites[j]? = some (d, v) → label ∈ w'.plan.askedIn (d.label? w'.after) v j →
          ∃ node node', e.placeholder? w i label = some node ∧
            e'.placeholder? w' j label = some node' ∧
            ((∃ w₀ ∈ e.writeouts xs, label ∈ w₀.plan.askedIn (c.label? w₀.after) u i) →
              node' = node) ∧
            (e.frame.plan.callsBnode = false → e.frame.context.label? w.state label = none →
              node' = node →
                ∃ w₀ ∈ e.writeouts xs, label ∈ w₀.plan.askedIn (c.label? w₀.after) u i) := by
  obtain ⟨before, r₀, move, r₁, rest, hbefore, hxs, hstep, hact, hrest, hys⟩ :=
    exists_step_of_acts hreplay hacts
  have h₀ : IsSheltered setting xs r₀ := hxs ▸ isSheltered_replay hstate limit plan input hbefore
  have h : IsSheltered setting (xs ++ a :: ys) r :=
    hacts ▸ isSheltered_replay hstate limit plan input hreplay
  have h₁ : IsSheltered setting (xs ++ [a]) r₁ := by
    have hafter := h₀.step hstep
    rwa [hact, Option.toList_some] at hafter
  obtain ⟨-, ⟨hnone, -⟩ | ⟨m, t, t', hsome, hturning⟩⟩ := step_cases h₀.history.areIn hstep
  · rw [hact] at hnone
    cases hnone
  obtain rfl := Option.some.inj (hact.symm.trans hsome)
  have hc := Execution.mem_contexts_of_sites hi
  have hsurrounds : e.Surrounds e'.state e'.frame.context.scope := ⟨c, hc, hin⟩
  have hall := mem_executions_append (⟨t, r₀.state, t', r₁.state⟩ :: ys) he
  have hall' : e' ∈ executions setting (xs ++ ⟨t, r₀.state, t', r₁.state⟩ :: ys) :=
    List.mem_filterMap.mpr ⟨_, List.mem_append_right _ List.mem_cons_self, he'⟩
  obtain ⟨done, q, todo, hplan, hq, hwritten⟩ :=
    h₀.exists_query hturning.within hturning.turns he he' hsurrounds
  refine ⟨done, q, todo, hplan, hq, hwritten, fun w hw w' hw' => ⟨?_, ?_, ?_⟩⟩
  · exact h.history.calls_eq (h.history.of_mem_writeouts hall hw).1
  · exact h.history.calls_eq (h.history.of_mem_writeouts hall' hw').1
  intro label hlabel j d v hj hlabel'
  obtain ⟨node, hnode⟩ := h.exists_label hall hw hi hlabel
  obtain ⟨node', hnode'⟩ := h.exists_label hall' hw' hj hlabel'
  refine ⟨node, node', (Execution.placeholder?_eq hi label).trans hnode,
    (Execution.placeholder?_eq hj label).trans hnode', fun hfront => ?_, fun hpure hfree hsame => ?_⟩
  · -- the node was there when the inner execution began, and stays
    obtain ⟨w₀, hw₀, hasked⟩ := hfront
    obtain ⟨node₀, hnode₀⟩ := h₀.exists_label he hw₀ hi hasked
    have hd := Execution.mem_contexts_of_sites hj
    have hbegan := h₀.label?_began hturning.within hturning.turns he he' hc hin hw₀ hnode₀ hd
    have hshared := h.history.label?_after hall' hw' hd hbegan
    have hmem₀ : w₀ ∈ e.writeouts (xs ++ ⟨t, r₀.state, t', r₁.state⟩ :: ys) := by
      rw [Execution.writeouts, writeouts, List.filterMap_append, List.filter_append]
      exact List.mem_append_left _ hw₀
    obtain rfl := h.history.label?_unique hall hw hmem₀ hc hnode hnode₀
    exact Option.some.inj (hnode'.symm.trans hshared)
  · -- the inner execution could find it in the solution's scope only, where it was asked for before
    subst hsame
    have hlookup := h.lookup_of_shared hall hall' hpure hw hfree hc hnode hw' hnode'
    have hne : e ≠ e' := fun heq => h₀.history.execution?_ne hturning.turns he (heq ▸ he')
    have hawaits := (Awaits.begins h₀.history h₁.history hturning.within hturning.turns he he').replay
      h₁ (mem_executions_append _ he) (mem_executions_concat.mpr (.inr he')) hne hpure hsurrounds hrest
    rw [hys, List.append_assoc, List.singleton_append] at hawaits
    exact hawaits.knows w' hw' i c u hi label _ hlookup

/-- A plan around a query that uses two labels, one of them in front of the query too, and both behind
it. -/
def aroundPlan : Plan :=
  formPlan [labelled "l" "urn:p", .plan (formPlan [labelled "l" "urn:q", labelled "m" "urn:q"]),
    labelled "l" "urn:r", labelled "m" "urn:r"]

/-- The moves of its run for one solution. -/
def aroundMoves : List RunMove :=
  movesAt [] [.here, .here, .here, .here] ++ movesAt [0] [.here, .here, .here, .here, .here] ++
    movesAt [] [.here, .here, .here, .here]

/-- The query inside begins with the sixth act. -/
theorem around_shares_label_in_front :
    ∃ r xs a ys e e', (start ((RunState.start 1).renew 1) aroundPlan .unit).replay bareSetting
        aroundMoves = some r ∧ r.isOver = true ∧
      (start ((RunState.start 1).renew 1) aroundPlan .unit).acts bareSetting aroundMoves =
        xs ++ a :: ys ∧
      e ∈ executions bareSetting xs ∧ a.execution? bareSetting = some e' ∧
      (∃ w ∈ e.writeouts (xs ++ a :: ys), ∃ w' ∈ e'.writeouts (xs ++ a :: ys), ∃ node,
        e.placeholder? w 0 "l" = some node ∧ e'.placeholder? w' 0 "l" = some node) ∧
      ∃ w ∈ e.writeouts (xs ++ a :: ys), ∃ w' ∈ e'.writeouts (xs ++ a :: ys), ∃ node node',
        e.placeholder? w 0 "m" = some node ∧ e'.placeholder? w' 0 "m" = some node' ∧ node' ≠ node := by
  let acts := (start ((RunState.start 1).renew 1) aroundPlan .unit).acts bareSetting aroundMoves
  have hrun : ((start ((RunState.start 1).renew 1) aroundPlan .unit).replay bareSetting
      aroundMoves).any (·.isOver) = true := by
    decide +kernel
  obtain ⟨r, hr, hover⟩ := (Option.any_eq_true _ _).mp hrun
  have hfound : acts[5]?.any (fun a => (a.execution? bareSetting).any fun e' =>
      (executions bareSetting (acts.take 5)).any fun e => !e.frame.plan.callsBnode &&
        e.generation.sites[0]?.any fun site => e'.generation.sites[0]?.any fun site' =>
          (e'.state.scopes.path e'.frame.context.scope).contains site.1.scope &&
          ["l", "m"].all fun label => (e.writeouts acts).any fun w => (e'.writeouts acts).any fun w' =>
            (w.plan.askedIn (site.1.label? w.after) site.2 0).contains label &&
            (w'.plan.askedIn (site'.1.label? w'.after) site'.2 0).contains label &&
            (e.frame.context.label? w.state label).isNone &&
            ((e.writeouts (acts.take 5)).any fun w₀ =>
              (w₀.plan.askedIn (site.1.label? w₀.after) site.2 0).contains label) ==
                (label == "l")) = true := by
    decide +kernel
  simp only [Option.any_eq_true, List.any_eq_true, List.all_eq_true, Bool.and_eq_true,
    Bool.not_eq_true', List.contains_iff_mem, Option.isNone_iff_eq_none, beq_iff_eq] at hfound
  obtain ⟨a, ha, e', he', e, he, hpure, ⟨c, u⟩, hi, ⟨d, v⟩, hj, hin, hlabels⟩ := hfound
  have hacts : acts = acts.take 5 ++ a :: acts.drop 6 := by
    obtain ⟨hlt, rfl⟩ := List.getElem?_eq_some_iff.mp ha
    rw [List.getElem_cons_drop, List.take_append_drop]
  obtain ⟨-, -, -, -, -, -, hshares⟩ := shares_labels_asked_before (RunState.isSound_start 1) 1
    aroundPlan .unit hr hacts he he' hi hin
  rw [← hacts] at hshares
  refine ⟨r, acts.take 5, a, acts.drop 6, e, e', hr, hover, hacts, he, he', ?_, ?_⟩ <;> rw [← hacts]
  · obtain ⟨w, hw, w', hw', ⟨⟨hasked, hasked'⟩, -⟩, hfront⟩ := hlabels "l" (by decide)
    obtain ⟨node, node', hnode, hnode', hsame, -⟩ :=
      (hshares w hw w' hw').2.2 "l" hasked 0 d v hj hasked'
    obtain ⟨w₀, hw₀, hasked₀⟩ := List.any_eq_true.mp hfront
    obtain rfl := hsame ⟨w₀, hw₀, List.contains_iff_mem.mp hasked₀⟩
    exact ⟨w, hw, w', hw', _, hnode, hnode'⟩
  · obtain ⟨w, hw, w', hw', ⟨⟨hasked, hasked'⟩, hfree⟩, hfront⟩ := hlabels "m" (by decide)
    obtain ⟨node, node', hnode, hnode', -, honly⟩ :=
      (hshares w hw w' hw').2.2 "m" hasked 0 d v hj hasked'
    refine ⟨w, hw, w', hw', node, node', hnode, hnode', fun heq => ?_⟩
    obtain ⟨w₀, hw₀, hasked₀⟩ := honly hpure hfree heq
    have hnone := List.any_eq_false.mp hfront w₀ hw₀
    exact hnone (List.contains_iff_mem.mpr hasked₀)

/-- A triple, and a query inside the form that uses its label. -/
def labelPair : List PlanNode := [labelled "l" "urn:p", .plan (formPlan [labelled "l" "urn:q"])]

/-- The triple of a fresh node and an IRI. -/
def freshTriple (node : Nat) (predicate : String) : Triple :=
  ⟨.blank (.fresh node), ⟨predicate⟩, .iri ⟨"urn:o"⟩⟩

/-- With the query in front of the triple the two have different nodes, and behind it they share one:
what the two orders leave is not the same up to names of blank nodes. -/
theorem order_separates_labels :
    ∃ r r', (start ((RunState.start 1).renew 1) (formPlan labelPair) .unit).replay bareSetting
        (movesAt [] [.here, .here, .here, .here] ++ movesAt [0] [.here, .here, .here, .here] ++
          movesAt [] [.here, .here]) = some r ∧ r.isOver = true ∧
      (start ((RunState.start 1).renew 1) (formPlan labelPair.reverse) .unit).replay bareSetting
        (movesAt [] [.here, .here, .here] ++ movesAt [0] [.here, .here, .here, .here] ++
          movesAt [] [.here, .here, .here]) = some r' ∧ r'.isOver = true ∧
      (Collected.ofCalls (r.state.output 0)).triples =
        [freshTriple 0 "urn:p", freshTriple 0 "urn:q"] ∧
      (Collected.ofCalls (r'.state.output 0)).triples =
        [freshTriple 0 "urn:q", freshTriple 1 "urn:p"] ∧
      ∀ p ts, ts.Perm (Collected.ofCalls (r'.state.output 0)).triples →
        ¬List.Forall₂ (Triple.Like p) (Collected.ofCalls (r.state.output 0)).triples ts := by
  have hfront : ((start ((RunState.start 1).renew 1) (formPlan labelPair) .unit).replay bareSetting
      (movesAt [] [.here, .here, .here, .here] ++ movesAt [0] [.here, .here, .here, .here] ++
        movesAt [] [.here, .here])).any (fun r => r.isOver &&
          (Collected.ofCalls (r.state.output 0)).triples ==
            [freshTriple 0 "urn:p", freshTriple 0 "urn:q"]) = true := by
    decide +kernel
  have hbehind : ((start ((RunState.start 1).renew 1) (formPlan labelPair.reverse) .unit).replay
      bareSetting (movesAt [] [.here, .here, .here] ++ movesAt [0] [.here, .here, .here, .here] ++
        movesAt [] [.here, .here, .here])).any (fun r => r.isOver &&
          (Collected.ofCalls (r.state.output 0)).triples ==
            [freshTriple 0 "urn:q", freshTriple 1 "urn:p"]) = true := by
    decide +kernel
  obtain ⟨r, hr, htests⟩ := (Option.any_eq_true _ _).mp hfront
  obtain ⟨r', hr', htests'⟩ := (Option.any_eq_true _ _).mp hbehind
  simp only [Bool.and_eq_true, beq_iff_eq] at htests htests'
  obtain ⟨hover, htriples⟩ := htests
  obtain ⟨hover', htriples'⟩ := htests'
  refine ⟨r, r', hr, hover, hr', hover', htriples, htriples', fun p ts hperm hlike => ?_⟩
  rw [htriples] at hlike
  rw [htriples'] at hperm
  obtain ⟨t, _, hp, hrest, rfl⟩ := List.forall₂_cons_left_iff.mp hlike
  obtain ⟨t', _, hq, hnil, rfl⟩ := List.forall₂_cons_left_iff.mp hrest
  have hpairs : ∀ {node other : Nat} {predicate : String}, Triple.Like p (freshTriple node predicate)
      (freshTriple other predicate) → p.pairs (.fresh node) (.fresh other) := fun h => by
    cases show Term.Like p (.blank _) (.blank _) from h.subject with
    | blank h => exact h
  -- each triple goes with the one of its predicate, so one node would have to go with two
  have hmem := hperm.mem_iff.mp List.mem_cons_self
  have hmem' := hperm.mem_iff.mp (List.mem_cons_of_mem _ List.mem_cons_self)
  simp only [List.mem_cons, List.not_mem_nil, or_false] at hmem hmem'
  rcases hmem with rfl | rfl
  · exact absurd hp.predicate (by decide)
  · rcases hmem' with rfl | rfl
    · exact absurd ((p.eq_iff (hpairs hp) (hpairs hq)).mp rfl) (by decide)
    · exact absurd hq.predicate (by decide)

end Run

end TripleLoom
