import TripleLoom.Proofs.Generation.Carrying

/-!
# TripleLoom.Proofs.Generation.Sheltering — what goes on in the scopes of a form's solutions

A form runs the queries inside it in the scopes of its solutions, one element after the other, and
waits for each of them to end.  So whatever is in one of these scopes stands below the form while it
waits, and carries out a part of the query that it waits for (`Task.Housed`); and while the form writes
an element of its own, nothing else is there.
-/

namespace TripleLoom

open RunM

/-! ### Forms in a tree -/

namespace Task

/-- The tasks right below a task. -/
def insides : Task → List Task
  | .iterating _ _ _ branches _ => branches
  | .generating _ _ _ running _ => running
  | .nesting _ _ inner => [inner]
  | .finished _ | .clauses .. | .fetching .. | .selecting .. | .evaluating .. | .assembling ..
  | .writing _ | .entering .. | .asking .. => []

variable {setting : Setting} {t t' u v inner : Task} {s s' : RunState} {index : Nat}
  {g : Generation} {p : Footprint}

theorem inside?_eq (t : Task) (index : Nat) : t.inside? index = t.insides[index]? := by
  cases t with
  | nesting w sink inner => rw [inside?, insides, List.getElem?_singleton]
  | _ => rfl

theorem mem_insides (h : t.inside? index = some inner) : inner ∈ t.insides :=
  List.mem_of_getElem? (inside?_eq t index ▸ h)

theorem exists_inside? (h : inner ∈ t.insides) : ∃ index, t.inside? index = some inner := by
  obtain ⟨index, hi⟩ := List.getElem?_of_mem h
  exact ⟨index, by rw [inside?_eq, hi]⟩

theorem sizeOf_lt_of_mem_insides (h : inner ∈ t.insides) : sizeOf inner < sizeOf t := by
  cases t with
  | iterating | generating =>
    have := List.sizeOf_lt_of_mem h
    simp only [iterating.sizeOf_spec, generating.sizeOf_spec]
    simp only [insides] at this
    omega
  | nesting =>
    obtain rfl := List.mem_singleton.mp h
    simp only [nesting.sizeOf_spec]
    omega
  | _ => cases h

theorem forms_eq (t : Task) : t.forms = t.ownForms ++ formsAll t.insides := by
  cases t with
  | nesting w sink inner => exact (List.append_nil _).symm
  | _ => rfl

theorem formsAll_eq (ts : List Task) : formsAll ts = ts.flatMap forms := by
  induction ts with
  | nil => rfl
  | cons t ts ih => rw [formsAll, ih, List.flatMap_cons]

/-- The form that a task is stands among those of the tree it is in. -/
theorem ownForms_subset (h : u.Within t) : u.ownForms ⊆ t.forms := by
  induction h with
  | self =>
    rw [forms_eq]
    exact List.subset_append_left _ _
  | inside hi _ ih =>
    rw [forms_eq, formsAll_eq]
    exact fun f hf => List.mem_append_right _ (List.mem_flatMap.mpr ⟨_, mem_insides hi, ih hf⟩)

theorem fork_mem_ownForms (h : u.generation? = some g) : g.fork.fork ∈ u.ownForms.map (·.1) := by
  cases u with
  | generating =>
    obtain rfl := Option.some.inj h
    exact List.mem_singleton_self _
  | _ => cases h

/-- The forms of a tree are told apart by their forks. -/
theorem eq_of_within (hnodup : (t.forms.map (·.1)).Nodup) (hu : u.Within t) (hv : v.Within t)
    (hgu : u.generation? = some g) (hgv : v.generation? = some g) : u = v := by
  have hfork : ∀ {w x : Task}, w.Within x → w.generation? = some g →
      g.fork.fork ∈ x.forms.map (·.1) := fun hw hg =>
    List.map_subset _ (ownForms_subset hw) (fork_mem_ownForms hg)
  have hapart : ∀ {x y : Task}, (x.forms.map (·.1)).Nodup → y ∈ x.insides →
      x.generation? = some g → g.fork.fork ∉ y.forms.map (·.1) := by
    intro x y hx hy hg hmem
    rw [forms_eq, formsAll_eq, List.map_append, List.nodup_append'] at hx
    refine hx.2.2 (fork_mem_ownForms hg) ?_
    rw [List.map_flatMap]
    exact List.mem_flatMap.mpr ⟨y, hy, hmem⟩
  induction hu with
  | self =>
    cases hv with
    | self => rfl
    | inside hj hw => exact absurd (hfork hw hgv) (hapart hnodup (mem_insides hj) hgu)
  | @inside t inner index hi hw ih =>
    cases hv with
    | self => exact absurd (hfork hw hgu) (hapart hnodup (mem_insides hi) hgv)
    | @inside _ other j hj hw' =>
      rw [inside?_eq] at hi hj
      rw [forms_eq, formsAll_eq, List.map_append, List.nodup_append', List.map_flatMap] at hnodup
      obtain ⟨heach, hpairwise⟩ := List.nodup_flatMap.mp hnodup.2.1
      obtain ⟨hlt, rfl⟩ := List.getElem?_eq_some_iff.mp hi
      obtain ⟨hlt', rfl⟩ := List.getElem?_eq_some_iff.mp hj
      rcases Nat.lt_trichotomy index j with hij | rfl | hij
      · exact absurd (hfork hw' hgv)
          (List.pairwise_iff_getElem.mp hpairwise _ _ hlt hlt' hij (hfork hw hgu))
      · exact ih (heach _ (List.getElem_mem hlt)) hw'
      · exact absurd (hfork hw hgu)
          (List.pairwise_iff_getElem.mp hpairwise _ _ hlt' hlt hij (hfork hw' hgv))

/-! ### Scopes of a tree -/

/-- The contexts of what a task turns into are in its own scopes, are those of a form that begins, or
are in new scopes without ancestors. -/
theorem Turns.scopes (h : Turns setting s t t' s') : ∀ c ∈ t'.contexts,
    (∃ d ∈ t.contexts, d.scope = c.scope) ∨
      (∃ e, (Act.mk t s t' s').execution? setting = some e ∧
        c ∈ e.generation.fork :: e.generation.contexts) ∨
      s.scopes.count ≤ c.scope ∧ s'.scopes.path c.scope = [c.scope] := by
  intro c hc
  cases h with
  | generate f input hb =>
    refine .inr (.inl ⟨_, rfl, ?_⟩)
    rw [Execution.generation, hb]
    exact hc
  | finish | generated => cases hc
  | resume hw | collect hw | embed hw | embedCall hw =>
    obtain rfl := List.mem_singleton.mp hc
    exact .inl ⟨_, List.mem_cons_self, by rw [hw.context]⟩
  | ask name accept accept' purpose ht => rcases ht with rfl | rfl <;> exact .inl ⟨c, hc, rfl⟩
  | call _ d plan hu hnew hpath =>
    obtain rfl := List.mem_singleton.mp hc
    exact .inr (.inr ⟨hnew, hpath⟩)
  | _ => exact .inl ⟨c, hc, rfl⟩

/-- What holds of the scopes of all contexts in a tree goes on to do so, if it holds of those of a form
that begins and of new scopes without ancestors. -/
theorem Turning.forall_scopes {m : Move} {Q : ScopeId → Prop}
    (h : Turning setting m t s t' s' u u')
    (hstay : ∀ v : Task, v.Within t → ∀ c ∈ v.contexts, Q c.scope)
    (hbegin : ∀ e, (Act.mk u s u' s').execution? setting = some e →
      ∀ c ∈ e.generation.fork :: e.generation.contexts, Q c.scope)
    (hcall : ∀ scope, s.scopes.count ≤ scope → s'.scopes.path scope = [scope] → Q scope) :
    ∀ v : Task, v.Within t' → ∀ c ∈ v.contexts, Q c.scope := by
  refine h.forall_within hstay (fun v index inner hv c hc => ?_) (fun c hc => ?_) fun v hb c hc => ?_
  · rw [contexts_replaceInside] at hc
    exact hv c hc
  · rcases h.turns.scopes c hc with ⟨d, hd, hscope⟩ | ⟨e, he, hc⟩ | ⟨hnew, hpath⟩
    · exact hscope ▸ hstay u h.within d hd
    · exact hbegin e he c hc
    · exact hcall _ hnew hpath
  · obtain ⟨d, hd, hscope, -⟩ := hb.contexts c hc
    exact hscope ▸ hstay u h.within d hd

end Task

/-! ### In the scopes of solutions -/

/-- A scope of an execution is not a new one without ancestors. -/
theorem Execution.not_surrounds_root {e : Execution} {s : RunState} {scope count : ScopeId}
    (he : ∀ c ∈ e.generation.contexts, c.scope < count) (hnew : count ≤ scope)
    (hpath : s.scopes.path scope = [scope]) : ¬e.Surrounds s scope := by
  rintro ⟨c, hc, hmem⟩
  rw [hpath] at hmem
  exact Nat.ne_of_lt (Nat.lt_of_lt_of_le (he c hc) hnew) (List.mem_singleton.mp hmem)

/-- Of the scopes that were there before, those above a scope of an execution are those above its
context. -/
theorem Execution.mem_path_context {e : Execution} {a : ScopeId} {c : Context}
    (hc : c ∈ e.generation.fork :: e.generation.contexts)
    (ha : a ∈ e.began.scopes.path c.scope) (hlt : a < e.state.scopes.count) :
    a ∈ e.state.scopes.path e.frame.context.scope := by
  rcases List.mem_cons.mp hc with rfl | hc
  · rw [show e.began.scopes.path e.generation.fork.scope = _ from e.generates.fork] at ha
    exact (List.mem_cons.mp ha).resolve_left (Nat.ne_of_lt hlt)
  · exact e.mem_path_of_lt hc ha hlt

namespace Task

/-- A task in the scope of a solution of an execution. -/
def LiesIn (e : Execution) (s : RunState) (t : Task) : Prop :=
  ∃ c ∈ t.contexts, e.Surrounds s c.scope

/-- What stands below a form is in the scopes of the form's solutions only while the form waits for a
query inside it, and then carries out a part of that query. -/
def Attends (e : Execution) (s : RunState) (done : List PlanNode) (stage : Stage) (t : Task) : Prop :=
  ∀ v : Task, v.Within t → v.LiesIn e s →
    stage = .nested ∧ ∃ front q, done = front ++ [.plan q] ∧ v.IsOf q

/-- A tree in which everything that is in the scopes of an execution stands below its form, which has
some elements behind it and some before it. -/
inductive Housed (e : Execution) (s : RunState) : Task → Prop where
  | form {done nodes : List PlanNode} {stage : Stage} {running : List Task} {error : Outcome}
    (hplan : done ++ nodes = e.frame.plan.elements)
    (hbelow : ∀ inner ∈ running, inner.Attends e s done stage) :
    Housed e s (.generating e.generation nodes stage running error)
  | apart {t : Task} (hown : ¬t.LiesIn e s) (hbelow : ∀ inner ∈ t.insides, Housed e s inner) :
    Housed e s t

section Steps

variable {setting : Setting} {e : Execution} {t t' u v inner : Task} {s s' : RunState}
  {move : Move} {p : Footprint} {done : List PlanNode} {stage : Stage}

theorem liesIn_replaceInside (index : Nat) :
    (replaceInside index inner t).LiesIn e s ↔ t.LiesIn e s := by
  rw [LiesIn, LiesIn, contexts_replaceInside]

theorem LiesIn.of_evolves (h : t.LiesIn e s') (hs : s.Evolves p s')
    (hin : ∀ c ∈ t.contexts, c.IsIn s) : t.LiesIn e s := by
  obtain ⟨c, hc, hsurrounds⟩ := h
  exact ⟨c, hc, hsurrounds.of_evolves hs (hin c hc).scope⟩

theorem Attends.of_evolves (h : t.Attends e s done stage) (hs : s.Evolves p s') (hin : t.AreIn s) :
    t.Attends e s' done stage := fun v hv hlies => h v hv (hlies.of_evolves hs (hin v hv))

theorem Housed.of_evolves (h : t.Housed e s) (hs : s.Evolves p s') (hin : t.AreIn s) :
    t.Housed e s' := by
  induction h with
  | form hplan hbelow =>
    refine .form hplan fun inner hi => (hbelow inner hi).of_evolves hs ?_
    obtain ⟨index, hi⟩ := List.getElem?_of_mem hi
    exact hin.inside (t := .generating ..) hi
  | apart hown _ ih =>
    refine .apart (fun hlies => hown (hlies.of_evolves hs (hin _ .self))) fun inner hi => ?_
    obtain ⟨index, hindex⟩ := exists_inside? hi
    exact ih inner hi (hin.inside hindex)

theorem Begets.liesIn (h : t.Begets t') (hs : s.Evolves p s') (hin : ∀ c ∈ t.contexts, c.IsIn s)
    (ht' : t'.LiesIn e s') : t.LiesIn e s := by
  obtain ⟨c, hc, hsurrounds⟩ := ht'
  obtain ⟨d, hd, hscope, -⟩ := h.contexts c hc
  exact ⟨d, hd, (hscope ▸ hsurrounds).of_evolves hs (hin d hd).scope⟩

variable (he : ∀ c ∈ e.generation.contexts, c.scope < s.scopes.count)

include he

/-- A task that turns goes on in the scopes it was in. -/
theorem Turns.liesIn (h : Turns setting s t t' s') (hs : s.Evolves p s')
    (hin : ∀ c ∈ t.contexts, c.IsIn s) (ht' : t'.LiesIn e s') : t.LiesIn e s := by
  obtain ⟨c, hc, hsurrounds⟩ := ht'
  rcases h.scopes c hc with ⟨d, hd, hscope⟩ | ⟨e', he', hc⟩ | ⟨hnew, hpath⟩
  · exact ⟨d, hd, (hscope ▸ hsurrounds).of_evolves hs (hin d hd).scope⟩
  · obtain ⟨hcontext, hbound, rfl, -⟩ := Act.execution?_eq_some he' h
    have hframe : e'.frame.context ∈ t.contexts := by
      rw [hcontext]
      exact List.mem_cons_self
    obtain ⟨d, hd, hmem⟩ := hsurrounds
    refine ⟨_, hframe, Execution.Surrounds.of_evolves ⟨d, hd, ?_⟩ hbound (hin _ hframe).scope⟩
    exact e'.mem_path_context hc hmem (Nat.lt_of_lt_of_le (he d hd) hbound.grows.scopes)
  · exact absurd hsurrounds (Execution.not_surrounds_root he hnew hpath)

/-- What is in the scopes of the form's solutions goes on with the query that the form waits for. -/
theorem Attends.step (h : t.Attends e s done stage) (hin : t.AreIn s)
    (hs : t.step setting move s = some (t', s')) : t'.Attends e s' done stage := by
  obtain ⟨u, u', hturning⟩ := exists_turning hin hs
  have hu := hin u hturning.within
  refine hturning.forall_within (fun v hv hlies => ?_) (fun v index inner hv hlies => ?_)
    (fun hlies => ?_) fun v hb hlies => ?_
  · exact h v hv (hlies.of_evolves hturning.evolves (hin v hv))
  · obtain ⟨hstage, front, q, hdone, hq⟩ := hv ((liesIn_replaceInside index).mp hlies)
    exact ⟨hstage, front, q, hdone, (isOf_replaceInside index inner v).mpr hq⟩
  · obtain ⟨hstage, front, q, hdone, hq⟩ :=
      h u hturning.within (hturning.turns.liesIn he hturning.evolves hu hlies)
    refine ⟨hstage, front, q, hdone, (hturning.turns.isOf hq).resolve_right fun hroot => ?_⟩
    obtain ⟨c, hc, hsurrounds⟩ := hlies
    obtain ⟨hnew, hpath⟩ := hroot c hc
    exact Execution.not_surrounds_root he hnew hpath hsurrounds
  · obtain ⟨hstage, front, q, hdone, hq⟩ :=
      h u hturning.within (hb.liesIn hturning.evolves hu hlies)
    exact ⟨hstage, front, q, hdone, hb.isOf hq⟩

omit he in
/-- A form that acts goes on to its next element, or starts what it is to wait for; whatever else it
starts, for a call, is not in the scopes of its solutions. -/
theorem Housed.act_form {nodes : List PlanNode} {running : List Task} {error : Outcome}
    (hplan : done ++ nodes = e.frame.plan.elements)
    (h : Turns setting s (.generating e.generation nodes stage running error) t' s')
    (hfork : ¬e.Surrounds s' e.generation.fork.scope) : t'.Housed e s' := by
  have hidle : ∀ {done nodes : List PlanNode} {stage : Stage} {error : Outcome},
      done ++ nodes = e.frame.plan.elements →
        (generating e.generation nodes stage [] error).Housed e s' := fun hplan =>
    .form hplan fun _ hi => nomatch hi
  have hnext : ∀ {node : PlanNode} {rest : List PlanNode},
      done ++ node :: rest = e.frame.plan.elements →
        (done ++ [node]) ++ rest = e.frame.plan.elements := fun hplan => by
    rw [List.append_assoc]
    exact hplan
  cases h with
  | stay _ hnone | finish _ _ hnone | call hnone => cases hnone
  | ask name accept accept' purpose ht => rcases ht with ht | ht <;> cases ht
  | generated => exact .apart (fun hlies => nomatch hlies) fun _ hi => nomatch hi
  | triples | refuse => exact hidle (hnext hplan)
  | nested | called => exact hidle hplan
  | nest g plan nodes =>
    refine .form (hnext hplan) fun inner hi v hv hlies => ⟨rfl, done, plan, rfl, ?_⟩
    obtain ⟨site, -, rfl⟩ := List.mem_map.mp hi
    cases hv with
    | self => exact isOf_ofPlan .self _ _
    | inside hi => cases hi
  | resolve g call nodes =>
    refine .form (hnext hplan) fun inner hi v hv hlies => ?_
    obtain ⟨name, -, rfl⟩ := List.mem_map.mp hi
    cases hv with
    | self =>
      obtain ⟨c, hc, -⟩ := hlies
      cases hc
    | inside hi => cases hi
  | resolved g nodes call calls =>
    refine .form hplan fun inner hi v hv hlies => ?_
    obtain ⟨call, -, rfl⟩ := List.mem_map.mp hi
    cases hv with
    | self =>
      obtain ⟨c, hc, hsurrounds⟩ := hlies
      rw [List.mem_singleton.mp hc] at hsurrounds
      exact absurd hsurrounds hfork
    | inside hi => cases hi

/-- A task that acts keeps its tree so. -/
theorem Housed.actOn? (hfork : e.generation.fork.scope < s.scopes.count ∧
    ∀ c ∈ e.generation.contexts, e.generation.fork.scope < c.scope) (hsound : s.IsSound)
    (h : t.Housed e s) (hin : t.AreIn s) {item? : Option Nat}
    (hs : t.actOn? setting item? s = some (t', s')) : t'.Housed e s' := by
  have hself := hin t .self
  have hturns := turns_actOn? hs hself
  have hevolves := evolves_actOn? setting hs hself
  cases h with
  | form hplan hbelow =>
    refine act_form hplan hturns fun hsurrounds => ?_
    obtain ⟨c, hc, hmem⟩ := hsurrounds.of_evolves hevolves hfork.1
    exact hsound.not_mem_path hfork.1 (hfork.2 c hc) hmem
  | apart hown hbelow =>
    refine .apart (fun hlies => hown (hturns.liesIn he hevolves hself hlies)) fun v hv => ?_
    obtain ⟨k, hk⟩ := exists_inside? hv
    rcases hturns.inside hk with ⟨j, hj⟩ | hb
    · exact (hbelow v (mem_insides hj)).of_evolves hevolves (hin.inside hj)
    · refine .apart (fun hlies => hown (hb.liesIn hevolves hself hlies)) fun w hw => ?_
      obtain ⟨j, hj⟩ := exists_inside? hw
      rw [hb.inside?_eq_none] at hj
      cases hj

/-- Every move keeps the tree so. -/
theorem Housed.step (hfork : e.generation.fork.scope < s.scopes.count ∧
    ∀ c ∈ e.generation.contexts, e.generation.fork.scope < c.scope) (hsound : s.IsSound)
    (h : t.Housed e s) (hin : t.AreIn s) (hs : t.step setting move s = some (t', s')) :
    t'.Housed e s' := by
  induction move generalizing t t' with
  | here => exact h.actOn? he hfork hsound hin (show t.actOn? setting none s = _ from hs)
  | item index => exact h.actOn? he hfork hsound hin (show t.actOn? setting (some index) s = _ from hs)
  | inside index move ih =>
    obtain ⟨_, _, hturning⟩ := exists_turning hin hs
    have hevolves := hturning.evolves
    simp only [Task.step, Option.bind_eq_bind, Option.bind_eq_some_iff] at hs
    obtain ⟨inner, hi, ⟨inner', s₁⟩, hstep, heq⟩ := hs
    obtain ⟨rfl, rfl⟩ := Prod.mk.inj (Option.some.inj heq)
    cases h with
    | @form done nodes stage running error hplan hbelow =>
      refine .form hplan fun v hv => ?_
      have hinner := List.mem_of_getElem? (show running[index]? = some inner from hi)
      rcases List.mem_or_eq_of_mem_set hv with hold | rfl
      · obtain ⟨j, hj⟩ := List.getElem?_of_mem hold
        exact (hbelow v hold).of_evolves hevolves (hin.inside (t := .generating ..) hj)
      · exact (hbelow inner hinner).step he (hin.inside hi) hstep
    | apart hown hbelow =>
      refine .apart (fun hlies => hown ?_) fun v hv => ?_
      · exact ((liesIn_replaceInside index).mp hlies).of_evolves hevolves (hin t .self)
      · obtain ⟨k, hk⟩ := exists_inside? hv
        rcases inside?_replaceInside hk with rfl | ⟨j, hj⟩
        · exact ih (hbelow inner (mem_insides hi)) (hin.inside hi) hstep
        · exact (hbelow v (mem_insides hj)).of_evolves hevolves (hin.inside hj)

end Steps

/-- A tree with nothing in the scopes of an execution but its form, which has all its elements before
it. -/
theorem Housed.of_forall {e : Execution} {s : RunState} (t : Task)
    (h : ∀ v : Task, v.Within t → v.LiesIn e s →
      v = .generating e.generation e.frame.plan.elements .idle [] none) : t.Housed e s := by
  by_cases hlies : t.LiesIn e s
  · rw [h t .self hlies]
    exact .form (List.nil_append _) fun _ hi => nomatch hi
  · refine .apart hlies fun inner hi => ?_
    have := sizeOf_lt_of_mem_insides hi
    obtain ⟨index, hindex⟩ := exists_inside? hi
    exact of_forall inner fun v hv => h v (.inside hindex hv)
termination_by sizeOf t

/-- What is in the scopes of an execution is its form, or stands below the form and carries out a part
of the query that the form waits for. -/
theorem Housed.of_within {e : Execution} {s : RunState} {t v : Task} (h : t.Housed e s)
    (hv : v.Within t) (hlies : v.LiesIn e s) : ∃ done nodes stage running error,
      (generating e.generation nodes stage running error).Within t ∧
        done ++ nodes = e.frame.plan.elements ∧
        (v = .generating e.generation nodes stage running error ∨
          stage = .nested ∧ ∃ front q, done = front ++ [.plan q] ∧ v.IsOf q) := by
  induction h with
  | @form done nodes stage running error hplan hbelow =>
    refine ⟨done, nodes, stage, running, error, .self, hplan, ?_⟩
    cases hv with
    | self => exact .inl rfl
    | inside hi hw => exact .inr (hbelow _ (List.mem_of_getElem? hi) v hw hlies)
  | apart hown _ ih =>
    cases hv with
    | self => exact absurd hlies hown
    | inside hi hw =>
      obtain ⟨done, nodes, stage, running, error, hform, hrest⟩ := ih _ (mem_insides hi) hw
      exact ⟨done, nodes, stage, running, error, .inside hi hform, hrest⟩

end Task

/-! ### Along a run -/

namespace Run

variable {setting : Setting} {acts : List Act} {r r' : Run} {move : RunMove} {e : Execution}

/-- What is in the scopes of an execution stands below its form. -/
def IsHoused (setting : Setting) (acts : List Act) (r : Run) : Prop :=
  ∀ e ∈ executions setting acts, r.task.Housed e r.state

/-- The scopes of an execution that has begun are there. -/
theorem History.scope_lt (h : History setting acts r) (he : e ∈ executions setting acts)
    {c : Context} (hc : c ∈ e.generation.fork :: e.generation.contexts) :
    c.scope < r.state.scopes.count :=
  ((e.contexts_isIn hc).grows (h.begun e he).2.2.grows).scope

theorem IsHoused.step (h : IsHoused setting acts r) (hr : History setting acts r)
    (hs : r.step setting move = some r') :
    IsHoused setting (acts ++ (r.act? setting move).toList) r' := by
  obtain ⟨-, ⟨hact, htask, hevolves⟩ | ⟨m, u, u', hact, hturning⟩⟩ := step_cases hr.areIn hs
  · rw [hact, Option.toList_none, List.append_nil]
    intro e he
    rw [htask]
    exact (h e he).of_evolves hevolves hr.areIn
  · rw [hact, Option.toList_some]
    intro e he
    rcases mem_executions_concat.mp he with he | he
    · refine (h e he).step (fun c hc => hr.scope_lt he (List.mem_cons_of_mem _ hc))
        ⟨hr.scope_lt he List.mem_cons_self, fun c hc => (e.generates.sites c hc).1⟩ hr.sound hr.areIn
        hturning.step
    · -- what was there before is not in the scopes of an execution that begins
      obtain ⟨-, hbound, -, ⟨input, hu⟩, hu'⟩ := Act.execution?_eq_some he hturning.turns
      refine .of_forall _ (hturning.forall_within (fun v hv hlies => ?_)
        (fun v index inner hv hlies => ?_) (fun _ => hu') fun v hb hlies => ?_)
      · obtain ⟨c, hc, d, hd, hmem⟩ := hlies.of_evolves hturning.evolves (hr.areIn v hv)
        have hlt := (hr.areIn v hv c hc).scope
        refine absurd hmem (hr.sound.not_mem_path hlt (Nat.lt_trans hlt ?_))
        exact Nat.lt_of_le_of_lt hbound.grows.scopes (e.generates.sites d hd).1
      · rw [hv ((Task.liesIn_replaceInside index).mp hlies)]
        rfl
      · rw [hu] at hb
        cases hb
        obtain ⟨c, hc, -⟩ := hlies
        cases hc

/-- While the form of an execution is between two elements, nothing else is in its scopes. -/
theorem IsHoused.eq_of_idle (h : IsHoused setting acts r) (ht : Tracks setting acts r)
    (he : e ∈ executions setting acts) {nodes : List PlanNode} {running : List Task}
    {error : Outcome} (hform : (Task.generating e.generation nodes .idle running error).Within r.task)
    {v : Task} (hv : v.Within r.task) (hlies : v.LiesIn e r.state) :
    v = .generating e.generation nodes .idle running error := by
  obtain ⟨done, nodes', stage, running', error', hform', -, hcase⟩ := (h e he).of_within hv hlies
  have hsame := Task.eq_of_within ht.nodup hform' hform rfl rfl
  rcases hcase with rfl | ⟨rfl, -⟩
  · exact hsame
  · cases hsame

theorem pending_of_mem {forms : List (Nat × List TriplesPlan)} {fork : Nat}
    {plans : List TriplesPlan} (hnodup : (forms.map (·.1)).Nodup) (h : (fork, plans) ∈ forms) :
    pending fork forms = plans := by
  obtain ⟨before, after, rfl⟩ := List.append_of_mem h
  have hothers : ∀ f ∈ before ++ after, f.1 ≠ fork := by
    intro f hf heq
    have hmem : f.1 ∈ (before ++ after).map (·.1) := List.mem_map_of_mem hf
    exact (List.nodup_cons.mp ((List.perm_middle.map _).nodup_iff.mp hnodup)).1 (heq ▸ hmem)
  rw [← List.singleton_append, pending_append, pending_append, pending_singleton,
    pending_eq_nil fun f hf => hothers f (List.mem_append_left _ hf),
    pending_eq_nil fun f hf => hothers f (List.mem_append_right _ hf), List.nil_append,
    List.append_nil]

/-- What is in the scopes of an execution, but is not its form, carries out a part of a query inside
its plan, and the elements before that one are written. -/
theorem IsHoused.exists_query (h : IsHoused setting acts r) (ht : Tracks setting acts r)
    (he : e ∈ executions setting acts) {v : Task} (hv : v.Within r.task)
    (hlies : v.LiesIn e r.state) (hg : v.generation? ≠ some e.generation) :
    ∃ done q todo, e.frame.plan.elements = done ++ .plan q :: todo ∧ v.IsOf q ∧
      (e.writeouts acts).map (·.plan) = PlanNode.triplesOf done := by
  obtain ⟨_, nodes, stage, running, error, hform, hplan, hcase⟩ := (h e he).of_within hv hlies
  rcases hcase with rfl | ⟨-, done, q, rfl, hq⟩
  · exact absurd rfl hg
  · rw [List.append_assoc, List.singleton_append] at hplan
    refine ⟨done, q, nodes, hplan.symm, hq, ?_⟩
    have hwritten := ht.elements e he
    have hpending : pending e.state.nextFork r.task.forms = PlanNode.triplesOf nodes :=
      pending_of_mem ht.nodup (Task.ownForms_subset hform List.mem_cons_self)
    rw [hpending, ← hplan, PlanNode.triplesOf, PlanNode.triplesOf, List.filterMap_append,
      List.filterMap_cons_none rfl] at hwritten
    exact List.append_cancel_right hwritten

end Run

end TripleLoom
