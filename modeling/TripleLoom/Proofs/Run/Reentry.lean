import TripleLoom.Proofs.Run.Acts
import TripleLoom.Proofs.Run.Skipping

/-!
# TripleLoom.Proofs.Run.Reentry — calls of a run's own plan with its own input

A run of a named plan records the calls of its input, so that a call with the same parameters does
not run the plan again.  Only calls that are made once look at what is recorded, and these are made
by `GENERATE` forms; the calls in a text are made each time.  `Task.Seated` says where in a tree of
tasks the two kinds of calls stand, and `Run.reenters_in_texts` what comes of it: a call of the run's
own comes to nothing in a `GENERATE` form, and runs the plan again in a text.
-/

namespace TripleLoom

open RunM

/-! ### Where calls stand -/

/-- Whether the call that a purpose is for is made once; nothing if it is for none. -/
def Purpose.once? : Purpose → Option Bool
  | .resolve => none
  | .call _ _ _ once => some once

namespace Task

/-- What a task finds a plan for. -/
def purpose? : Task → Option Purpose
  | .entering _ purpose | .asking _ _ purpose => some purpose
  | _ => none

/-- Whether the call that a task finds the plan for is made once; nothing if it finds none for a
call. -/
def callsOnce? (t : Task) : Option Bool := t.purpose?.bind Purpose.once?

/-- Whether a task makes calls of a kind right below itself: a `GENERATE` form makes calls that are
made once, and a text the others. -/
def makesCalls (once : Bool) : Task → Bool
  | .generating .. => once
  | .nesting .. => !once
  | _ => false

/-- Every call in a tree of tasks stands right below a task that makes calls of its kind. -/
def Seated (t : Task) : Prop :=
  ∀ v : Task, v.Within t → ∀ index inner once, v.inside? index = some inner →
    inner.callsOnce? = some once → v.makesCalls once = true

/-- The task right above the one that a move makes act. -/
def above? : Move → Task → Option Task
  | .here, _ | .item _, _ => none
  | .inside index move, t => (t.inside? index).bind fun inner => (above? move inner).or (some t)

variable {setting : Setting} {move : Move} {t t' u inner : Task} {s s' : RunState} {once : Bool}
  {index : Nat}

theorem Seated.inside (h : t.Seated) (hi : t.inside? index = some inner) : inner.Seated :=
  fun v hv => h v (.inside hi hv)

/-- A call is found the plan for only by a task that did so before. -/
theorem Turns.callsOnce? (h : Turns setting s t t' s') (hc : t'.callsOnce? = some once) :
    t.callsOnce? = some once := by
  cases h with
  | stay => exact hc
  | ask name accept accept' purpose ht => rcases ht with rfl | rfl <;> exact hc
  | _ => cases hc

/-- What a task has turned into makes the calls right below it. -/
theorem Turns.makesCalls (h : Turns setting s t t' s') (ht : t.Seated)
    (hi : t'.inside? index = some inner) (hc : inner.callsOnce? = some once) :
    t'.makesCalls once = true := by
  cases h with
  | stay => exact ht _ .self index inner once hi hc
  | tell f nodes i branches error =>
    exact ht (.iterating f nodes i branches error) .self index inner once hi hc
  | hear f nodes i branches error =>
    rcases List.mem_append.mp (List.mem_of_getElem? hi) with hold | hnew
    · obtain ⟨k, hk⟩ := List.getElem?_of_mem hold
      exact ht (.iterating f nodes i branches error) .self k inner once hk hc
    · obtain ⟨q, -, rfl⟩ := List.mem_map.mp hnew
      cases hc
  | nest g plan =>
    obtain ⟨⟨c, u⟩, -, rfl⟩ := List.mem_map.mp (List.mem_of_getElem? hi)
    cases hc
  | resolve g call =>
    obtain ⟨name, -, rfl⟩ := List.mem_map.mp (List.mem_of_getElem? hi)
    cases hc
  | resolved g nodes call calls =>
    obtain ⟨⟨name, u⟩, -, rfl⟩ := List.mem_map.mp (List.mem_of_getElem? hi)
    exact (Option.some.inj hc).symm
  | embed hw sink hp hu =>
    rw [inside?] at hi
    split at hi
    · obtain rfl := Option.some.inj hi
      cases hc
    · cases hi
  | embedCall hw sink name call u =>
    rw [inside?] at hi
    split at hi
    · obtain rfl := Option.some.inj hi
      obtain rfl := Option.some.inj hc
      rfl
    · cases hi
  | generate | generated | triples | refuse | nested | called => simp [inside?] at hi
  | _ => cases hi

/-- What a task turns into is seated, as what it has started has nothing below. -/
theorem Turns.seated (h : Turns setting s t t' s') (ht : t.Seated) : t'.Seated := by
  intro v hv k inner once hi hc
  cases hv with
  | self => exact h.makesCalls ht hi hc
  | inside hj hw =>
    rcases h.inside hj with ⟨j, hold⟩ | hb
    · exact ht v (.inside hold hw) k inner once hi hc
    · cases hw with
      | self => rw [hb.inside?_eq_none] at hi; cases hi
      | inside hk => rw [hb.inside?_eq_none] at hk; cases hk

@[simp] theorem makesCalls_replaceInside (index : Nat) (inner t : Task) (once : Bool) :
    (replaceInside index inner t).makesCalls once = t.makesCalls once := by
  cases t with
  | iterating => rw [replaceInside]; split <;> rfl
  | _ => rfl

@[simp] theorem callsOnce?_replaceInside (index : Nat) (inner t : Task) :
    (replaceInside index inner t).callsOnce? = t.callsOnce? := by
  cases t with
  | iterating => rw [replaceInside]; split <;> rfl
  | _ => rfl

/-- A move keeps all calls where calls of their kind are made, and makes none of anything else. -/
theorem Seated.step : ∀ {move : Move} {t t' : Task} {s s' : RunState}, t.Seated → t.AreIn s →
    t.step setting move s = some (t', s') →
    t'.Seated ∧ ∀ once, t'.callsOnce? = some once → t.callsOnce? = some once
  | .here, t, t', s, s', ht, hin, h =>
    have hact : t.actOn? setting none s = some (t', s') := h
    have hturns : Turns setting s t t' s' := turns_actOn? hact (hin t .self)
    ⟨hturns.seated ht, fun _ => hturns.callsOnce?⟩
  | .item index, t, t', s, s', ht, hin, h =>
    have hact : t.actOn? setting (some index) s = some (t', s') := h
    have hturns : Turns setting s t t' s' := turns_actOn? hact (hin t .self)
    ⟨hturns.seated ht, fun _ => hturns.callsOnce?⟩
  | .inside index move, t, t', s, s', ht, hin, h => by
    simp only [Task.step, Option.bind_eq_bind, Option.bind_eq_some_iff] at h
    obtain ⟨inner, hi, ⟨inner', s₁⟩, hstep, heq⟩ := h
    obtain ⟨rfl, rfl⟩ := Prod.mk.inj (Option.some.inj heq)
    obtain ⟨hseated, hkind⟩ := (ht.inside hi).step (hin.inside hi) hstep
    have hkeeps : ∀ once, (replaceInside index inner' t).callsOnce? = some once →
        t.callsOnce? = some once := fun once => by
      rw [callsOnce?_replaceInside]
      exact id
    refine ⟨fun v hv k below once hb hc => ?_, hkeeps⟩
    cases hv with
    | self =>
      rw [makesCalls_replaceInside]
      rcases inside?_replaceInside hb with rfl | ⟨j, hj⟩
      · exact ht t .self index inner once hi (hkind once hc)
      · exact ht t .self j below once hj hc
    | inside hk hw =>
      rcases inside?_replaceInside hk with rfl | ⟨j, hj⟩
      · exact hseated v hw k below once hb hc
      · exact ht v (.inside hj hw) k below once hb hc

theorem above?_eq_none (h : ∀ index, t.inside? index = none) (move : Move) :
    t.above? move = none := by
  cases move with
  | inside index => rw [above?, h]; rfl
  | _ => rfl

/-- A task that finds the plan for a call stands right below one that makes calls of its kind, if it
is not the whole tree. -/
theorem Seated.above : ∀ {move : Move} {t : Task}, t.Seated → t.at? move = some u →
    u.callsOnce? = some once →
    t.callsOnce? = some once ∨ ∃ v, t.above? move = some v ∧ v.makesCalls once = true
  | .here, t, _, hat, hc | .item _, t, _, hat, hc => .inl (Option.some.inj hat ▸ hc)
  | .inside index move, t, ht, hat, hc => by
    rw [at?, Option.bind_eq_some_iff] at hat
    obtain ⟨inner, hi, hat⟩ := hat
    rw [above?, hi, Option.bind_some]
    rcases (ht.inside hi).above hat hc with hinner | ⟨v, hv, hmakes⟩
    · have hnone : ∀ k, inner.inside? k = none := by
        cases inner with
        | entering | asking => exact fun _ => rfl
        | _ => cases hinner
      exact .inr ⟨t, by rw [above?_eq_none hnone]; rfl, ht t .self index inner once hi hinner⟩
    · exact .inr ⟨v, by rw [hv]; rfl, hmakes⟩

end Task

/-! ### Calls that are made -/

/-- The call that a purpose makes once the plan of the name is known, whether it is made once or
not: one whose arguments fit the plan's signature. -/
def Purpose.call? (setting : Setting) (name : Iri) (plan : Plan) (s : RunState) :
    Purpose → Option CallKey
  | .resolve => none
  | .call c arguments caller _ =>
    match (c.parameters setting.functions name plan arguments caller s).1 with
    | .ok u => some (.ofSolution name plan.signature u)
    | .error _ => none

namespace Task

/-- The call that a task is about to make. -/
def call? (setting : Setting) (s : RunState) (t : Task) : Option CallKey :=
  (t.found? setting s).bind fun (name, purpose, plan, s) => purpose.call? setting name plan s

variable {setting : Setting} {s : RunState} {t : Task} {call : CallKey}

theorem purpose?_of_found {name : Iri} {purpose : Purpose} {plan : Plan} {s₁ : RunState}
    (h : t.found? setting s = some (name, purpose, plan, s₁)) : t.purpose? = some purpose := by
  cases t with
  | entering n p =>
    obtain ⟨_, -, heq⟩ := Option.map_eq_some_iff.mp h
    simp only [Prod.mk.injEq] at heq
    obtain ⟨-, rfl, -, -⟩ := heq
    rfl
  | asking n accept p =>
    simp only [found?] at h
    split at h
    · split at h
      · simp only [Option.some.injEq, Prod.mk.injEq] at h
        obtain ⟨-, rfl, -, -⟩ := h
        rfl
      · cases h
    · cases h
    · cases h
  | _ => cases h

/-- A task that is about to make a call is to make it once or each time.  In the former case it
requests the call; in the latter it starts the plan of the call's name, whatever is recorded. -/
theorem act_of_call (h : t.call? setting s = some call) :
    t.callsOnce? = some true ∧ t.request? setting s = some call ∨
      t.callsOnce? = some false ∧ ∃ plan₀ plan c u,
        plan = (s.registry.register call.name plan₀).1 ∧
        call = .ofSolution call.name plan.signature u ∧
        (t.act setting s).1 = .ofPlan c plan (.ofLists plan.parameters [u]) := by
  rw [call?, Option.bind_eq_some_iff] at h
  obtain ⟨⟨name, purpose, plan, s₁⟩, hf, hc⟩ := h
  obtain ⟨plan₀, _, hplan, -, -⟩ := found_state hf
  rw [callsOnce?, purpose?_of_found hf, Option.bind_some, request?, hf, Option.bind_some,
    act_of_found hf]
  cases purpose with
  | resolve => cases hc
  | call c arguments caller once =>
    cases once with
    | true => exact .inl ⟨rfl, hc⟩
    | false =>
      simp only [Purpose.call?] at hc
      cases hr : (c.parameters setting.functions name plan arguments caller s₁).1 with
      | error e => simp [hr] at hc
      | ok u =>
        simp only [hr, Option.some.injEq] at hc
        obtain rfl : call.name = name := by rw [← hc]; rfl
        obtain ⟨c', scopes, hs⟩ := c.startCall_apply (.ofSolution call.name plan.signature u) plan u
          false (c.parameters setting.functions call.name plan arguments caller s₁).2
        refine .inr ⟨rfl, plan₀, plan, c', u, hplan, hc.symm, ?_⟩
        simp only [Purpose.serve, bind_apply, hr, Bool.not_false, if_true, hs]

end Task

/-! ### Along a run -/

namespace Run

variable {setting : Setting} {r r' : Run} {move : RunMove} {moves : List RunMove}

/-- Along a run all calls stand where calls of their kind are made, and none is the whole tree. -/
structure Seats (r : Run) : Prop where
  areIn : r.task.AreIn r.state
  seated : r.task.Seated
  root : r.task.callsOnce? = none

theorem seats_start (state : RunState) (plan : Plan) (input : Sequence) :
    (start state plan input).Seats := by
  refine ⟨(start_evolves state plan input).2, fun v hv k inner once hi _ => ?_, rfl⟩
  cases hv with
  | self => cases hi
  | inside hk => cases hk

theorem Seats.step (h : r.Seats) (hs : r.step setting move = some r') : r'.Seats := by
  cases move with
  | close =>
    obtain rfl : r.close = r' := Option.some.inj hs
    have hin : r.task.AreIn r.close.state := fun v hv c hc =>
      ⟨(h.areIn v hv c hc).scope, (h.areIn v hv c hc).fork⟩
    exact ⟨hin, h.seated, h.root⟩
  | work m =>
    simp only [Run.step, Option.bind_eq_bind, Option.bind_eq_some_iff] at hs
    obtain ⟨⟨t', s'⟩, hstep, hr⟩ := hs
    obtain rfl : { r with task := t', state := s' } = r' := Option.some.inj hr
    obtain ⟨u, u', hturning⟩ := Task.exists_turning h.areIn hstep
    obtain ⟨hseated, hkind⟩ := h.seated.step h.areIn hstep
    refine ⟨hturning.areIn h.areIn, hseated, ?_⟩
    show t'.callsOnce? = none
    cases hc : t'.callsOnce? with
    | none => rfl
    | some once => exact absurd (hkind once hc) (by simp [h.root])

theorem Seats.replay (h : r.Seats) (hs : r.replay setting moves = some r') : r'.Seats := by
  induction moves generalizing r with
  | nil =>
    obtain rfl : r = r' := Option.some.inj hs
    exact h
  | cons move moves ih =>
    simp only [Run.replay, Option.bind_eq_bind, Option.bind_eq_some_iff] at hs
    obtain ⟨r₁, hone, hrest⟩ := hs
    exact ih (h.step hone) hrest

/-- **A run's own plan and its own input.**  In a run of a plan that is the one registered under its
name, let a task make a call with the name of the plan and the parameters of a solution of the
input.  If the call stands in a `GENERATE` form it comes to nothing; if it stands in a text, the plan
is run for these parameters again. -/
theorem reenters_in_texts {state : RunState} {limit : Nat} {plan : Plan} {name : Iri}
    {input : Sequence} (hname : plan.name = some name)
    (hregistered : (state.registry.register name plan).1 = plan)
    (h : (start (state.renew limit) plan input).replay setting moves = some r)
    {move : Move} {t : Task} {call : CallKey} (hstep : r.step setting (.work move) = some r')
    (ht : r.task.at? move = some t) (hcall : t.call? setting r.state = some call)
    (hown : call ∈ ownCalls state.registry plan input) :
    (∃ g nodes stage running error,
        r.task.above? move = some (.generating g nodes stage running error)) ∧
        (t.act setting r.state).1 = .finished none ∧ r.state.Quiet r'.state ∨
      (∃ w sink inner, r.task.above? move = some (.nesting w sink inner)) ∧
        ∃ c u, (t.act setting r.state).1 = .ofPlan c plan (.ofLists plan.parameters [u]) ∧
          call = .ofSolution name plan.signature u := by
  obtain ⟨-, hseated, hroot⟩ := (seats_start (state.renew limit) plan input).replay h
  have habove : ∀ once, t.callsOnce? = some once →
      ∃ v, r.task.above? move = some v ∧ v.makesCalls once = true := fun once ho =>
    (hseated.above ht ho).resolve_left (by simp [hroot])
  rcases Task.act_of_call hcall with ⟨ho, hrequest⟩ | ⟨ho, plan₀, p, c, u, hp, hu, hact⟩
  · obtain ⟨v, hv, hmakes⟩ := habove true ho
    have htallies := (tallies_start state limit plan input).replay h
    have hrecorded : call ∈ r.state.calls := (htallies.calls call).mpr (.inl hown)
    rw [state_of_request hstep ht hrequest]
    refine .inl ⟨?_, htallies.act_of_mem hrequest hrecorded⟩
    cases v with
    | generating g nodes stage running error => exact ⟨g, nodes, stage, running, error, hv⟩
    | _ => cases hmakes
  · obtain ⟨v, hv, hmakes⟩ := habove false ho
    -- the plan that is found is the one that was registered at the start
    have hcn : call.name = name :=
      Option.some.inj ((name_of_mem_ownCalls hown).symm.trans hname)
    have hfound : r.state.registry.get? call.name = some plan := by
      refine get?_of_replay h ?_
      rw [registry_start state limit hname, hcn, QueryRegistry.get?_register, hregistered]
    rw [QueryRegistry.register_of_get? _ _ _ hfound] at hp
    subst hp
    refine .inr ⟨?_, c, u, hact, hcn ▸ hu⟩
    cases v with
    | nesting w sink inner => exact ⟨w, sink, inner, hv⟩
    | _ => cases hmakes

/-! ### A query that calls itself -/

/-- The name of a query. -/
def echo : Iri := ⟨"urn:echo"⟩

/-- The call by which a query of that name calls itself with its own parameter. -/
def echoCall : CallPlan := ⟨.iri echo, some [.var ⟨"n"⟩]⟩

/-- The query, with a `GENERATE` form or a text. -/
def echoPlan (output : OutputPlan) : Plan :=
  ⟨some echo, some [⟨"n"⟩], none, [], [], none, [], output⟩

/-- A single solution for its parameter. -/
def echoInput : Sequence := .ofLists [⟨"n"⟩] [.ofBindings [(⟨"n"⟩, .ofText "7")]]

/-- The call of the query that a run for that solution records. -/
def echoKey : CallKey := ⟨echo, [some (.ofText "7")]⟩

/-- The query with a `GENERATE` form. -/
def echoForm : Plan := echoPlan (.generate [.call echoCall])

/-- The moves of a run of the form, up to the call. -/
def echoMoves : List RunMove := [.here, .here, .here, .inside 0 .here, .here].map .work

/-- In the form the query's call of itself comes to nothing. -/
theorem echo_comes_to_nothing :
    ∃ r r' t, (start ((RunState.start 1).renew 1) echoForm echoInput).replay bareSetting echoMoves =
        some r ∧
      r.step bareSetting (.work (.inside 0 .here)) = some r' ∧
      r.task.at? (.inside 0 .here) = some t ∧ t.call? bareSetting r.state = some echoKey ∧
      echoKey ∈ ownCalls (RunState.start 1).registry echoForm echoInput ∧
      ((∃ g nodes stage running error,
          r.task.above? (.inside 0 .here) = some (.generating g nodes stage running error)) ∧
          (t.act bareSetting r.state).1 = .finished none ∧ r.state.Quiet r'.state ∨
        (∃ w sink inner, r.task.above? (.inside 0 .here) = some (.nesting w sink inner)) ∧
          ∃ c u, (t.act bareSetting r.state).1 =
              .ofPlan c echoForm (.ofLists echoForm.parameters [u]) ∧
            echoKey = .ofSolution echo echoForm.signature u) := by
  have hrun : ((start ((RunState.start 1).renew 1) echoForm echoInput).replay bareSetting
      echoMoves).any (fun r => (r.step bareSetting (.work (.inside 0 .here))).isSome &&
        (r.task.at? (.inside 0 .here)).any fun t => t.call? bareSetting r.state == some echoKey) =
      true := by
    decide +kernel
  obtain ⟨r, hr, htests⟩ := (Option.any_eq_true _ _).mp hrun
  rw [Bool.and_eq_true] at htests
  obtain ⟨r', hstep⟩ := Option.isSome_iff_exists.mp htests.1
  obtain ⟨t, ht, hcall⟩ := (Option.any_eq_true _ _).mp htests.2
  have hown : echoKey ∈ ownCalls (RunState.start 1).registry echoForm echoInput := by decide +kernel
  exact ⟨r, r', t, hr, hstep, ht, eq_of_beq hcall, hown,
    reenters_in_texts rfl rfl hr hstep ht (eq_of_beq hcall) hown⟩

/-- The query with a text. -/
def echoText : Plan := echoPlan (.template (.template ⟨none, [.call echoCall], none, none⟩))

/-- In a text the query's call of itself runs the query again for the same parameter, although the
query is registered under its name and the call is recorded. -/
theorem echo_runs_again :
    ∃ r, (start ((RunState.start 1).renew 1) echoText echoInput).replay bareSetting
        ([.here, .here, .here, .here, .inside 0 .here].map .work) = some r ∧
      r.state.registry.get? echo = some echoText ∧ echoKey ∈ r.state.calls ∧
      r.state.record.countP (fun e => match e with
        | .started call _ _ => call == echoKey
        | _ => false) = 2 := by
  have hrun : ((start ((RunState.start 1).renew 1) echoText echoInput).replay bareSetting
      ([.here, .here, .here, .here, .inside 0 .here].map .work)).any (fun r =>
        r.state.calls.contains echoKey && r.state.record.countP (fun e => match e with
          | .started call _ _ => call == echoKey
          | _ => false) == 2) = true := by
    decide +kernel
  obtain ⟨r, hr, htests⟩ := (Option.any_eq_true _ _).mp hrun
  rw [Bool.and_eq_true, List.contains_iff_mem, beq_iff_eq] at htests
  refine ⟨r, hr, get?_of_replay hr ?_, htests⟩
  rw [registry_start (.start 1) 1 (show echoText.name = some echo from rfl)]
  rfl

end Run

end TripleLoom
