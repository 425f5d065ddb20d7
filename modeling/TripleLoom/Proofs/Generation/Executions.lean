import TripleLoom.Proofs.Run.Acts

/-!
# TripleLoom.Proofs.Generation.Executions — the executions of forms along a run

A `GENERATE` form is executed once for each sequence that comes out of its plan's select part: for
each batch of an iterator, each call, each solution of the form around it.  Such an `Execution` begins
in a state of its own, makes its fork and its scopes, and then writes the elements of triples of the
form one by one (`Writeout`).  Both are read off the acts of a run.  `Run.History` says how they lie:
every execution has begun before the next one, so their scopes and forks are different ones, every
form at work belongs to one of them, and so does every element that was written.
-/

namespace TripleLoom

open RunM

/-- The elements of the form that a plan generates, none if it has another form. -/
def Plan.elements (p : Plan) : List PlanNode :=
  match p.output with
  | .generate nodes => nodes
  | _ => []

/-- The execution of a form: the plan with its context, the solutions, and the state in which it
begins. -/
structure Execution where
  frame : Frame
  input : Sequence
  state : RunState

namespace Execution

variable (e : Execution)

/-- The generation that an execution carries out. -/
def generation : Generation := e.frame.generation e.state e.input

/-- The state after an execution has made its scopes. -/
def began : RunState := (e.frame.generate e.frame.plan.elements e.input e.state).2

theorem generates : e.frame.Generates e.state e.input e.began := (e.frame.generate_spec _ _ _).2

/-- An execution that began after another one is another one. -/
theorem ne_of_evolves {e e' : Execution} {p : Footprint} (h : e.began.Evolves p e'.state) :
    e ≠ e' := by
  rintro rfl
  have hforks := h.grows.forks
  rw [e.generates.forks] at hforks
  exact Nat.not_succ_le_self _ hforks

theorem state_evolves (h : e.frame.context.IsIn e.state) : e.state.Evolves .all e.began :=
  (Frame.keepsTo_generate (p := .none) h _ _ _ (.refl _)).mono (Footprint.le_all _)

/-- The scopes of the solutions are numbered one after the other. -/
theorem scope_of_getElem? {i : Nat} {c : Context} (h : e.generation.contexts[i]? = some c) :
    c.scope = e.state.scopes.count + 1 + i ∧ c.fork = e.state.nextFork := by
  obtain ⟨scope, hs, rfl⟩ := Option.map_eq_some_iff.mp (List.getElem?_map .. ▸ h)
  obtain ⟨_, rfl⟩ := List.getElem?_eq_some_iff.mp hs
  exact ⟨by rw [List.getElem_range', Nat.one_mul], rfl⟩

theorem contexts_isIn {c : Context} (h : c ∈ e.generation.fork :: e.generation.contexts) :
    c.IsIn e.began := by
  obtain ⟨hcount, hforks, -, -, -, hsites⟩ := e.generates
  have hfork : c.fork = e.state.nextFork := by
    rcases List.mem_cons.mp h with rfl | h
    · rfl
    · obtain ⟨i, hi⟩ := List.getElem?_of_mem h
      exact (e.scope_of_getElem? hi).2
  refine ⟨?_, by rw [hfork, hforks]; exact Nat.lt_succ_self _⟩
  rcases List.mem_cons.mp h with rfl | h
  · rw [hcount]
    exact Nat.lt_of_lt_of_le (Nat.lt_succ_self _) (Nat.le_add_right _ _)
  · exact (hsites c h).2.1

/-- Of the scopes that were there before, those above the scope of a solution are the scopes above
that of the context. -/
theorem mem_path_of_lt {a : ScopeId} {c : Context} (hc : c ∈ e.generation.contexts)
    (ha : a ∈ e.began.scopes.path c.scope) (hlt : a < e.state.scopes.count) :
    a ∈ e.state.scopes.path e.frame.context.scope := by
  have hsite := e.generates.sites c hc
  rw [hsite.2.2] at ha
  rcases List.mem_cons.mp ha with rfl | ha
  · exact absurd hsite.1 (Nat.lt_asymm hlt)
  · rcases List.mem_cons.mp ha with rfl | ha
    · exact absurd hlt (Nat.lt_irrefl _)
    · exact ha

end Execution

/-- The writing of an element of triples, in the state before it. -/
structure Writeout where
  generation : Generation
  plan : TriplesPlan
  state : RunState

namespace Writeout

variable (w : Writeout)

/-- The state after an element was written. -/
def after : RunState :=
  (w.plan.writeAll w.generation.fork 0 w.generation.sites w.state).2

/-- What was written. -/
def calls : List SinkCall :=
  (w.after.output w.generation.fork.sink).drop (w.state.output w.generation.fork.sink).length

/-- The triples of an element, as they can be read off the state after it was written. -/
def triples : List Triple :=
  w.generation.sites.zipIdx.flatMap (w.plan.triplesIn w.generation.fork w.after)

/-- Where writing an element leaves its mark. -/
def footprint : Footprint :=
  { Footprint.all with mints := (· ∈ w.generation.contexts.map (·.scope)) }

theorem settles (hin : ∀ c ∈ w.generation.fork :: w.generation.contexts, c.IsIn w.state) :
    Settles w.footprint w.state w.generation.fork.sink
      (w.plan.writeAll w.generation.fork 0 w.generation.sites) (fun _ => ()) fun s =>
        (w.generation.sites.zipIdx.flatMap (w.plan.triplesIn w.generation.fork s)).map .triple :=
  w.plan.settles_writeAll (hin _ List.mem_cons_self) trivial 0 fun site hs =>
    have hmem := (List.of_mem_zip hs).1
    ⟨hin site.1 (List.mem_cons_of_mem _ hmem), List.mem_map_of_mem hmem⟩

end Writeout

namespace Act

/-- The execution that an act begins. -/
def execution? (setting : Setting) (a : Act) : Option Execution :=
  match a.task, a.result with
  | .assembling f input, .generating g .. =>
    some ⟨f, g.input, (f.bindAfter setting f.plan.postSelect input a.before).2⟩
  | _, _ => none

/-- The element of triples that an act writes. -/
def writeout? (a : Act) : Option Writeout :=
  match a.task with
  | .generating g (.triples p :: _) .idle .. => some ⟨g, p, a.before⟩
  | _ => none

variable {setting : Setting} {u u' : Task} {s s' : RunState}

theorem execution?_eq_some {e : Execution}
    (h : (Act.mk u s u' s').execution? setting = some e) (ht : Task.Turns setting s u u' s') :
    u.contexts = [e.frame.context] ∧ s.Evolves (.minting [e.frame.context.scope]) e.state ∧
      s' = e.began ∧ (∃ input, u = .assembling e.frame input) ∧
      u' = .generating e.generation e.frame.plan.elements .idle [] none := by
  cases ht with
  | @generate f input bound s₁ nodes hb hs ho =>
    have hstate : (f.bindAfter setting f.plan.postSelect input s).2 = s₁ := by rw [hb]
    have helements : f.plan.elements = nodes := by rw [Plan.elements, ho]
    obtain rfl : (⟨f, bound, (f.bindAfter setting f.plan.postSelect input s).2⟩ : Execution) = e :=
      Option.some.inj h
    subst hstate helements
    exact ⟨rfl, hs, rfl, ⟨input, rfl⟩, rfl⟩
  | stay => cases u <;> cases h
  | finish | call => cases u <;> cases h
  | ask _ _ _ _ ht => rcases ht with rfl | rfl <;> cases h
  | _ => cases h

theorem writeout?_eq_some {w : Writeout} (h : (Act.mk u s u' s').writeout? = some w)
    (ht : Task.Turns setting s u u' s') :
    w.state = s ∧ s' = w.after ∧ ∃ nodes running error,
      u = .generating w.generation (.triples w.plan :: nodes) .idle running error ∧
        u' = .generating w.generation nodes .idle [] error := by
  obtain ⟨g, p, nodes, running, error, rfl, rfl⟩ : ∃ g p nodes running error,
      u = .generating g (.triples p :: nodes) .idle running error ∧ ⟨g, p, s⟩ = w := by
    unfold writeout? at h
    split at h
    · next hu => exact ⟨_, _, _, _, _, hu, Option.some.inj h⟩
    · cases h
  cases ht with
  | triples => exact ⟨rfl, rfl, _, _, _, rfl, rfl⟩
  | refuse _ hnode => cases hnode
  | stay _ hnone | finish _ _ hnone | call hnone => cases hnone
  | ask _ _ _ _ ht => rcases ht with ht | ht <;> cases ht

/-- What writes an element is the form of its generation. -/
theorem generation_of_writeout? {a : Act} {w : Writeout} (h : a.writeout? = some w) :
    a.task.generation? = some w.generation := by
  unfold writeout? at h
  split at h
  · next htask =>
    obtain rfl := Option.some.inj h
    rw [htask]
    rfl
  · cases h

theorem Turns.generation? {g : Generation} (ht : Task.Turns setting s u u' s')
    (h : u'.generation? = some g) : u.generation? = some g ∨
      ∃ e, (Act.mk u s u' s').execution? setting = some e ∧ e.generation = g := by
  cases ht with
  | generate f input hb =>
    refine .inr ⟨_, rfl, ?_⟩
    obtain rfl := Option.some.inj h
    rw [Execution.generation, hb]
    rfl
  | ask _ _ _ _ ht => cases h
  | _ => first | exact .inl h | cases h

end Act

/-! ### Histories -/

/-- The executions that begin in some acts. -/
def Run.executions (setting : Setting) (acts : List Act) : List Execution :=
  acts.filterMap (·.execution? setting)

/-- The elements that are written in some acts. -/
def Run.writeouts (acts : List Act) : List Writeout := acts.filterMap Act.writeout?

/-- The elements that are written in some acts for an execution. -/
def Execution.writeouts (e : Execution) (acts : List Act) : List Writeout :=
  (Run.writeouts acts).filter (·.generation.fork.fork = e.state.nextFork)

namespace Run

variable {setting : Setting} {acts : List Act} {r r' : Run} {move : RunMove}

/-- What is known of a run from the acts that have led to it. -/
structure History (setting : Setting) (acts : List Act) (r : Run) : Prop where
  sound : r.state.IsSound
  areIn : r.task.AreIn r.state
  begun : ∀ e ∈ executions setting acts, e.state.IsSound ∧ e.frame.context.IsIn e.state ∧
    e.began.Evolves .all r.state
  apart : (executions setting acts).Pairwise fun e e' => e.began.Evolves .all e'.state
  owned : ∀ u : Task, u.Within r.task → ∀ g, u.generation? = some g →
    ∃ e ∈ executions setting acts, e.generation = g
  written : ∀ w ∈ writeouts acts, ∃ e ∈ executions setting acts, e.generation = w.generation ∧
    e.began.Evolves .all w.state ∧ w.after.Evolves .all r.state

theorem executions_concat (setting : Setting) (acts : List Act) (a : Act) :
    executions setting (acts ++ [a]) = executions setting acts ++ (a.execution? setting).toList := by
  rw [executions, List.filterMap_append, executions]
  cases h : a.execution? setting <;> simp [h]

theorem mem_executions_concat {a : Act} {e : Execution} :
    e ∈ executions setting (acts ++ [a]) ↔
      e ∈ executions setting acts ∨ a.execution? setting = some e := by
  rw [executions_concat, List.mem_append, Option.mem_toList]

theorem mem_executions_append {xs : List Act} (ys : List Act) {e : Execution}
    (he : e ∈ executions setting xs) :
    e ∈ executions setting (xs ++ ys) := by
  rw [executions, List.filterMap_append]
  exact List.mem_append_left _ he

theorem writeouts_concat (acts : List Act) (a : Act) :
    writeouts (acts ++ [a]) = writeouts acts ++ a.writeout?.toList := by
  rw [writeouts, List.filterMap_append, writeouts]
  cases h : a.writeout? <;> simp [h]

theorem history_start {state : RunState} (h : state.IsSound) (limit : Nat) (plan : Plan)
    (input : Sequence) : History setting [] (start (state.renew limit) plan input) := by
  obtain ⟨hevolves, hin⟩ := start_evolves (state.renew limit) plan input
  refine ⟨(h.renew limit).evolves hevolves, hin, fun _ he => (nomatch he), .nil, ?_,
    fun _ hw => (nomatch hw)⟩
  intro u hu g hg
  cases hu with
  | self => cases hg
  | inside hi => cases hi

/-- Every move keeps the history. -/
theorem History.step (h : History setting acts r) (hs : r.step setting move = some r') :
    History setting (acts ++ (r.act? setting move).toList) r' := by
  obtain ⟨-, ⟨hact, htask, hevolves⟩ | ⟨m, u, u', hact, hturning⟩⟩ := step_cases h.areIn hs
  · have hall := hevolves.mono (Footprint.le_all _)
    rw [hact, Option.toList_none, List.append_nil]
    refine ⟨h.sound.evolves hevolves, fun u hu c hc => ?_, fun e he => ?_, h.apart, htask ▸ h.owned,
      fun w hw => ?_⟩
    · exact (h.areIn u (htask ▸ hu) c hc).grows hevolves.grows
    · obtain ⟨hsound, hin, hbegan⟩ := h.begun e he
      exact ⟨hsound, hin, hbegan.trans hall⟩
    · obtain ⟨e, he, heq, hbefore, hafter⟩ := h.written w hw
      exact ⟨e, he, heq, hbefore, hafter.trans hall⟩
  · have hall := hturning.evolves.mono (Footprint.le_all _)
    have hsound := h.sound.evolves hturning.evolves
    rw [hact, Option.toList_some]
    -- an execution that begins has its state between those of the run
    have hnew : ∀ e, (Act.mk u r.state u' r'.state).execution? setting = some e →
        r.state.Evolves .all e.state ∧ e.frame.context.IsIn e.state ∧ e.state.IsSound ∧
          e.began = r'.state := by
      intro e he
      obtain ⟨hcontexts, hbound, hbegan, -⟩ := Act.execution?_eq_some he hturning.turns
      exact ⟨hbound.mono (Footprint.le_all _),
        (h.areIn u hturning.within _
          (by rw [hcontexts]; exact List.mem_cons_self)).grows hbound.grows,
        h.sound.evolves hbound, hbegan.symm⟩
    refine ⟨hsound, hturning.areIn h.areIn, fun e he => ?_, ?_, ?_, fun w hw => ?_⟩
    · rcases mem_executions_concat.mp he with hold | he
      · obtain ⟨hsound, hin, hbegan⟩ := h.begun e hold
        exact ⟨hsound, hin, hbegan.trans hall⟩
      · obtain ⟨-, hin, hsound, hbegan⟩ := hnew e he
        exact ⟨hsound, hin, hbegan ▸ .refl _⟩
    · rw [executions_concat, List.pairwise_append]
      refine ⟨h.apart, ?_, fun e he e' he' => ?_⟩
      · cases (Act.mk u r.state u' r'.state).execution? setting with
        | none => exact .nil
        | some e => exact List.pairwise_singleton _ _
      · exact (h.begun e he).2.2.trans (hnew e' (Option.mem_toList.mp he')).1
    · have hstay : ∀ v : Task, v.Within r.task → ∀ g, v.generation? = some g →
          ∃ e ∈ executions setting (acts ++ [⟨u, r.state, u', r'.state⟩]), e.generation = g := by
        intro v hv g hg
        obtain ⟨e, he, heq⟩ := h.owned v hv g hg
        exact ⟨e, mem_executions_concat.mpr (.inl he), heq⟩
      refine hturning.forall_within hstay (fun v index inner hv g hg => hv g ?_) (fun g hg => ?_)
        fun v hb g hg => ?_
      · rwa [Task.generation?_replaceInside] at hg
      · rcases Act.Turns.generation? hturning.turns hg with hold | ⟨e, he, heq⟩
        · exact hstay u hturning.within g hold
        · exact ⟨e, mem_executions_concat.mpr (.inr he), heq⟩
      · cases hb <;> cases hg
    · rw [writeouts_concat] at hw
      rcases List.mem_append.mp hw with hold | hw
      · obtain ⟨e, he, heq, hbefore, hafter⟩ := h.written w hold
        exact ⟨e, mem_executions_concat.mpr (.inl he), heq, hbefore, hafter.trans hall⟩
      · obtain ⟨hstate, hafter, nodes, running, error, rfl, -⟩ :=
          Act.writeout?_eq_some (Option.mem_toList.mp hw) hturning.turns
        obtain ⟨e, he, heq⟩ := h.owned _ hturning.within w.generation rfl
        exact ⟨e, mem_executions_concat.mpr (.inl he), heq, hstate ▸ (h.begun e he).2.2,
          hafter ▸ .refl _⟩

/-! ### What lies apart -/

namespace History

variable {e e' : Execution} {w : Writeout} (h : History setting acts r)

include h

theorem isSound_began (he : e ∈ executions setting acts) : e.began.IsSound := by
  obtain ⟨hsound, hin, -⟩ := h.begun e he
  exact hsound.evolves (e.state_evolves hin)

/-- Of two executions one has begun before the other. -/
theorem began_before_or (he : e ∈ executions setting acts) (he' : e' ∈ executions setting acts)
    (hne : e ≠ e') : e.began.Evolves .all e'.state ∨ e'.began.Evolves .all e.state := by
  have hsymm : Std.Symm fun a b : Execution =>
      a.began.Evolves .all b.state ∨ b.began.Evolves .all a.state := ⟨fun _ _ => Or.symm⟩
  have hpairwise : (executions setting acts).Pairwise fun a b : Execution =>
      a.began.Evolves .all b.state ∨ b.began.Evolves .all a.state := h.apart.imp .inl
  exact hpairwise.forall he he' hne

/-- Every execution has a fork of its own. -/
theorem eq_of_fork (he : e ∈ executions setting acts) (he' : e' ∈ executions setting acts)
    (hfork : e.state.nextFork = e'.state.nextFork) : e = e' := by
  by_contra hne
  have hforks := e.generates.forks
  have hforks' := e'.generates.forks
  rcases h.began_before_or he he' hne with hb | hb
  all_goals
    have := hb.grows.forks
    omega

/-- An execution is known by its generation. -/
theorem eq_of_generation (he : e ∈ executions setting acts) (he' : e' ∈ executions setting acts)
    (hg : e.generation = e'.generation) : e = e' :=
  h.eq_of_fork he he' (congrArg (·.fork.fork) hg)

/-- What is written for an execution is of its generation, after it has begun. -/
theorem of_mem_writeouts (he : e ∈ executions setting acts) (hw : w ∈ e.writeouts acts) :
    w ∈ writeouts acts ∧ w.generation = e.generation ∧ e.began.Evolves .all w.state ∧
      w.after.Evolves .all r.state := by
  obtain ⟨hmem, hfork⟩ := List.mem_filter.mp hw
  obtain ⟨e', he', heq, hbefore, hafter⟩ := h.written w hmem
  have hfork' : w.generation.fork.fork = e.state.nextFork := of_decide_eq_true hfork
  rw [← heq] at hfork'
  obtain rfl : e' = e := h.eq_of_fork he' he hfork'
  exact ⟨hmem, heq.symm, hbefore, hafter⟩

/-- Before an element is written the state is sound and the contexts are there. -/
theorem isSound_writeout (hw : w ∈ writeouts acts) : w.state.IsSound ∧
    ∀ c ∈ w.generation.fork :: w.generation.contexts, c.IsIn w.state := by
  obtain ⟨e, he, heq, hbefore, -⟩ := h.written w hw
  exact ⟨(h.isSound_began he).evolves hbefore,
    fun c hc => (e.contexts_isIn (heq ▸ hc)).grows hbefore.grows⟩

/-- The scopes above that of a solution are those it has begun with. -/
theorem path_after (he : e ∈ executions setting acts) (hw : w ∈ e.writeouts acts) {c : Context}
    (hc : c ∈ e.generation.contexts) :
    w.after.scopes.path c.scope = e.began.scopes.path c.scope := by
  obtain ⟨hmem, -, hbefore, -⟩ := h.of_mem_writeouts he hw
  obtain ⟨-, hin⟩ := h.isSound_writeout hmem
  exact (hbefore.trans (((w.settles hin).keepsTo _ (.refl _)).mono (Footprint.le_all _))).path
    (e.generates.sites c hc).2.1

/-- Writing an element mints labels in the scopes of the solutions only. -/
theorem writeout_evolves (hw : w ∈ writeouts acts) : w.state.Evolves w.footprint w.after :=
  (w.settles (h.isSound_writeout hw).2).keepsTo _ (.refl _)

/-- What was written are the triples that can be read off the state after it. -/
theorem calls_eq (hw : w ∈ writeouts acts) : w.calls = w.triples.map .triple := by
  obtain ⟨hsound, hin⟩ := h.isSound_writeout hw
  have hwrites := ((w.settles hin).reads _ (.refl _) hsound w.after (.refl _)).2
  rw [Writeout.calls, show w.after.output _ = _ from hwrites, List.drop_left]
  rfl

end History

end Run

end TripleLoom
