import TripleLoom.Proofs.Pipeline.Parts
import TripleLoom.Proofs.Text.Recital

/-!
# TripleLoom.Proofs.Text.Parts — a part of a run on its way to its text

The run of a plan with a `TEMPLATE` form and no select part is a tree of parts that go on side by
side (`Task.parts`).  A part runs clauses until it begins with the form (`TextFrame.IsEarly`), or it is
a form at work, at its own solutions or with a query inside (`TextFrame.Stands`).  A move makes one
part go on (`TextFrame.Becomes`): it adds a word to the recital that it is at, or none, and only the
act that begins a form begins a recital.  The other parts stand as they stood, because each gathers
what its queries write in a sink of its own (`Task.IsApartFrom`).
-/

namespace TripleLoom

open RunM

/-! ### Sinks that belong to a part -/

namespace Task

/-- The sink in which a task gathers the text of a query. -/
def gathers? : Task → Option SinkId
  | .nesting _ sink _ => some sink
  | _ => none

/-- What one task gathers is left alone by the other. -/
def IsApartFrom (t u : Task) : Prop :=
  ∀ sink, (t.gathers? = some sink → u.Avoids sink) ∧ (u.gathers? = some sink → t.Avoids sink)

theorem IsApartFrom.symm {t u : Task} (h : t.IsApartFrom u) : u.IsApartFrom t :=
  fun sink => (h sink).symm

/-- A task with nothing below it acts itself. -/
theorem eq_of_at? {setting : Setting} {move : Move} {t t' u u' : Task} {s s' : RunState}
    (hnone : ∀ index, t.inside? index = none) (h : t.step setting move s = some (t', s'))
    (hat : t.at? move = some u) (hact : u.actOn? setting move.item? s = some (u', s')) :
    u = t ∧ u' = t' := by
  cases move with
  | here =>
    obtain rfl := Option.some.inj hat
    exact ⟨rfl, (Prod.mk.inj (Option.some.inj (hact.symm.trans h))).1⟩
  | item index =>
    obtain rfl := Option.some.inj hat
    exact ⟨rfl, (Prod.mk.inj (Option.some.inj (hact.symm.trans h))).1⟩
  | inside index move =>
    rw [at?, hnone] at hat
    cases hat

mutual

/-- What holds of all contexts in a tree holds of those in its parts. -/
theorem forall_contexts_parts {R : Context → Prop} : ∀ t : Task,
    (∀ u : Task, u.Within t → ∀ c ∈ u.contexts, R c) →
    ∀ p ∈ t.parts, ∀ u : Task, u.Within p → ∀ c ∈ u.contexts, R c
  | .iterating f nodes i branches error, h, p, hp, u, hu => by
    rcases List.mem_append.mp hp with hp | hp
    · refine forall_contexts_partsAll branches (fun b hb v hv => ?_) p hp u hu
      obtain ⟨index, hindex⟩ := List.getElem?_of_mem hb
      exact h v (.inside hindex hv)
    · obtain rfl := List.mem_singleton.mp hp
      cases hu with
      | self => exact h (.iterating f nodes i branches error) .self
      | inside hi => cases hi
  | .finished none, _, _, hp, _, _ => by cases hp
  | .finished (some e), h, p, hp, u, hu => h u (List.mem_singleton.mp hp ▸ hu)
  | .clauses .., h, p, hp, u, hu | .fetching .., h, p, hp, u, hu | .selecting .., h, p, hp, u, hu
  | .evaluating .., h, p, hp, u, hu | .assembling .., h, p, hp, u, hu
  | .generating .., h, p, hp, u, hu | .writing .., h, p, hp, u, hu | .nesting .., h, p, hp, u, hu
  | .entering .., h, p, hp, u, hu | .asking .., h, p, hp, u, hu =>
    h u (List.mem_singleton.mp hp ▸ hu)

theorem forall_contexts_partsAll {R : Context → Prop} : ∀ ts : List Task,
    (∀ t ∈ ts, ∀ u : Task, u.Within t → ∀ c ∈ u.contexts, R c) →
    ∀ p ∈ partsAll ts, ∀ u : Task, u.Within p → ∀ c ∈ u.contexts, R c
  | [], _, _, hp, _, _ => by cases hp
  | t :: ts, h, p, hp, u, hu => by
    rcases List.mem_append.mp hp with hp | hp
    · exact forall_contexts_parts t (h t List.mem_cons_self) p hp u hu
    · exact forall_contexts_partsAll ts (fun b hb => h b (List.mem_cons_of_mem t hb)) p hp u hu

end

end Task

/-! ### The acts that begin a form -/

/-- The sequence that a form is begun for, if that is what happens and it writes into the sink. -/
def Act.begun? (sink : SinkId) (a : Act) : Option Sequence :=
  match a.task, a.result with
  | .assembling f _, .writing w => if f.context.sink = sink then some w.input else none
  | _, _ => none

/-- The sequences that a `TEMPLATE` form with some sink is begun for, in their order. -/
def Run.begunFor (sink : SinkId) (acts : List Act) : List Sequence :=
  acts.filterMap (Act.begun? sink)

theorem Run.begunFor_concat (sink : SinkId) (acts : List Act) (a : Act) :
    begunFor sink (acts ++ [a]) = begunFor sink acts ++ (a.begun? sink).toList := by
  rw [begunFor, List.filterMap_append, begunFor]
  cases h : a.begun? sink <;> simp [h]

/-! ### A text on its way -/

/-- What becomes of some recitals: nothing new, one that begins, or one more word. -/
inductive Recital.Goes : List Recital → List Recital → List Sequence → List String → Prop where
  | stay (rs : List Recital) : Goes rs rs [] []
  | begin (q : Sequence) : Goes [] [⟨q, []⟩] [q] []
  | speak (r : Recital) (word : String) : Goes [r] [r.concat word] [] [word]

namespace Recital.Goes

variable {before after rest : List Recital} {begun : List Sequence} {words : List String}

theorem perm_begun (h : Goes before after begun words) {qs : List Sequence}
    (hperm : ((before ++ rest).map (·.input)).Perm qs) :
    ((after ++ rest).map (·.input)).Perm (qs ++ begun) := by
  cases h with
  | stay => rwa [List.append_nil]
  | begin q => exact (hperm.cons q).trans (List.perm_append_singleton q qs).symm
  | speak r word => rwa [List.append_nil]

end Recital.Goes

/-- A plan that makes a text of its final solutions, and the context it runs in. -/
structure TextFrame where
  setting : Setting
  frame : Frame
  template : TemplatePlan
  select : frame.plan.select = none
  output : frame.plan.output = .template (.template template)

namespace TextFrame

variable (P : TextFrame)

/-- The sink that the text goes into. -/
abbrev sink : SinkId := P.frame.context.sink

/-- A part of the run that has not begun with the form. -/
inductive IsEarly : Task → Prop where
  | clauses (nodes : List PlanNode) (q : Sequence) : IsEarly (.clauses P.frame nodes q)
  | fetching (nodes : List PlanNode) (v : Variable) (q : Sequence) (fetches : List Fetch) :
    IsEarly (.fetching P.frame nodes v q fetches)
  | iterating (nodes : List PlanNode) (i : Iteration) :
    IsEarly (.iterating P.frame nodes i [] none)
  | assembling (q : Sequence) : IsEarly (.assembling P.frame q)

/-- How a part of the run stands, and what recital it is at, if it has begun with one. -/
inductive Stands (s : RunState) : Task → Option Recital → Prop where
  | early {t : Task} (h : P.IsEarly t) : Stands s t none
  | writing {r : Recital} {current : Option (String × List TemplatePart)}
    (h : r.Follows P.setting P.frame.context P.template)
    (hcurrent : r.Pauses P.setting P.frame.context P.template current) :
    Stands s (.writing (r.writing P.frame.context P.template current)) (some r)
  | nesting {r : Recital} {u : Solution} {done rest : List TemplatePart} {part : TemplatePart}
    {text : String} {sink : SinkId} {begun inner : Task}
    (h : r.Follows P.setting P.frame.context P.template)
    (hspeaks : r.Speaks P.setting P.frame.context P.template u done text)
    (hparts : P.template.parts = done ++ part :: rest)
    (ht : part.task? P.frame.context r.input u sink = some begun)
    (hw : begun.Writes P.setting sink (s.output sink) inner s)
    (hinner : inner.Avoids P.sink) :
    Stands s (.nesting (r.writing P.frame.context P.template (some (text, rest))) sink inner)
      (some r)

variable {P} {p p' : Task} {s s' : RunState} {o : Option Recital} {move : Move}

/-- What the others do leaves a part alone that gathers in a sink of its own. -/
theorem Stands.others (h : P.Stands s p o)
    (hspares : s.Spares (fun sink => p.gathers? = some sink) s')
    (hclosed : s.isClosed = true → s'.isClosed = true) : P.Stands s' p o := by
  cases h with
  | early h => exact .early h
  | writing h hcurrent => exact .writing h hcurrent
  | nesting h hspeaks hparts ht hw hinner =>
    refine .nesting h hspeaks hparts ht ?_ hinner
    rw [hspares.output _ rfl]
    exact hw.others hclosed hspares.sinks

theorem IsEarly.single {t : Task} (h : P.IsEarly t) (hparts : t.parts = [t]) :
    ∀ q ∈ t.parts, P.IsEarly q := fun _ hq =>
  List.mem_singleton.mp (hparts ▸ hq) ▸ h

theorem isEarly_runClauses (nodes : List PlanNode) (q : Sequence) (s : RunState)
    (hwell : (P.frame.runClauses P.setting q nodes s).1.IsFaultless) :
    ∀ t ∈ (P.frame.runClauses P.setting q nodes s).1.parts, P.IsEarly t := by
  -- a clause that fails leaves a part with an error
  have hfailed {e : RunError} (h : Task.IsFaultless (.failed e)) : False := by
    cases h _ (List.mem_singleton.mpr rfl)
  cases nodes with
  | nil =>
    rw [Frame.runClauses, P.select]
    exact IsEarly.single (.assembling q) rfl
  | cons node rest =>
    cases node with
    | clause clause =>
      cases clause with
      | bind e v => exact IsEarly.single (.clauses rest _) rfl
      | source document accept v => exact IsEarly.single (.fetching rest v _ _) rfl
      | iterator name arguments vars =>
        simp only [Frame.runClauses] at hwell ⊢
        cases hf : P.setting.functions.iterator? name with
        | none =>
          rw [hf] at hwell
          exact (hfailed hwell).elim
        | some function =>
          by_cases hc : s.isClosed = true
          · simp only [bind_apply, get_apply, hc, if_true]
            exact List.forall_mem_nil _
          · simp only [bind_apply, get_apply, hc]
            exact IsEarly.single (.iterating rest _) rfl
    | select | triples | call | template | plan => exact (hfailed hwell).elim

theorem Stands.gathers_lt (h : P.Stands s p o) {sink : SinkId} (hsink : p.gathers? = some sink) :
    sink < s.nextSink := by
  cases h with
  | early h => cases h <;> cases hsink
  | writing => cases hsink
  | nesting _ _ _ _ hw =>
    obtain rfl := Option.some.inj hsink
    exact hw.sink_lt

theorem isEarly_clauses {nodes : List PlanNode} {q : Sequence}
    (hm : (Task.clauses P.frame nodes q).step P.setting move s = some (p', s'))
    (hwell : p'.IsFaultless) :
    s.Spares (fun _ => True) s' ∧ ∀ t ∈ p'.parts, P.IsEarly t := by
  cases move with
  | here =>
    have hact : P.frame.runClauses P.setting q nodes s = (p', s') := Option.some.inj hm
    have hspares : s.Spares (fun _ => True) (P.frame.runClauses P.setting q nodes s).2 :=
      P.frame.spares_runClauses P.setting q nodes s
    rw [hact] at hspares
    obtain rfl : (P.frame.runClauses P.setting q nodes s).1 = p' := congrArg Prod.fst hact
    exact ⟨hspares, isEarly_runClauses nodes q s hwell⟩
  | item | inside => cases hm

theorem isEarly_fetching {nodes : List PlanNode} {v : Variable} {q : Sequence}
    {fetches : List Fetch}
    (hm : (Task.fetching P.frame nodes v q fetches).step P.setting move s = some (p', s')) :
    s.Spares (fun _ => True) s' ∧ ∀ t ∈ p'.parts, P.IsEarly t := by
  cases move with
  | here =>
    rw [Task.step, Option.ite_none_right_eq_some, Option.some.injEq] at hm
    obtain ⟨rfl, rfl⟩ := Prod.mk.inj hm.2
    exact ⟨.of_record_eq rfl rfl, IsEarly.single (.clauses _ _) rfl⟩
  | item index =>
    rw [Task.step, Option.ite_none_right_eq_some, Option.some.injEq] at hm
    have hspares : s.Spares (fun _ => True)
        ((Task.fetching P.frame nodes v q fetches).actItem P.setting index s).2 :=
      Task.spares_actItem P.setting index _ s
    rw [hm.2] at hspares
    refine ⟨hspares, ?_⟩
    obtain rfl : ((Task.fetching P.frame nodes v q fetches).actItem P.setting index s).1 = p' :=
      congrArg Prod.fst hm.2
    rw [Task.actItem]
    cases fetches[index]? with
    | none => exact IsEarly.single (.fetching nodes v q _) rfl
    | some fetch => exact IsEarly.single (.fetching nodes v q _) rfl
  | inside => cases hm

/-- An iterator goes on beside the clauses that it runs for its batches. -/
theorem isEarly_iterating {nodes : List PlanNode} {i : Iteration}
    (hm : (Task.iterating P.frame nodes i [] none).step P.setting move s = some (p', s')) :
    s.Spares (fun _ => True) s' ∧ ∀ t ∈ p'.parts, P.IsEarly t := by
  cases move with
  | here =>
    rw [Task.step, Option.ite_none_right_eq_some, Option.some.injEq] at hm
    obtain ⟨-, hact⟩ := hm
    by_cases haudible : i.isAudible s.isClosed = true
    · rw [Task.act_iterating_of_audible P.setting P.frame nodes none haudible] at hact
      obtain ⟨rfl, rfl⟩ := Prod.mk.inj hact
      refine ⟨.of_record_eq rfl rfl, fun t ht => ?_⟩
      rw [Task.parts, List.nil_append, Task.partsAll_clauses] at ht
      rcases List.mem_append.mp ht with ht | ht
      · obtain ⟨q, -, rfl⟩ := List.mem_map.mp ht
        exact .clauses nodes q
      · exact List.mem_singleton.mp ht ▸ .iterating nodes _
    · rw [Task.act_iterating_of_mute P.setting P.frame nodes none (by simpa using haudible)] at hact
      obtain ⟨rfl, rfl⟩ := Prod.mk.inj hact
      exact ⟨.of_record_eq rfl rfl, List.forall_mem_nil _⟩
  | item index =>
    rw [Task.step, Option.ite_none_right_eq_some, Option.some.injEq] at hm
    obtain ⟨rfl, rfl⟩ := Prod.mk.inj hm.2
    exact ⟨.of_record_eq rfl rfl, IsEarly.single (.iterating nodes _) rfl⟩
  | inside => cases hm

/-- What follows the last clause is the form. -/
theorem begins_assembling {q : Sequence}
    (hm : (Task.assembling P.frame q).step P.setting move s = some (p', s'))
    (hwell : p'.IsFaultless) : s.Spares (fun _ => True) s' ∧ ∃ bound, p' =
      .writing ((⟨bound, []⟩ : Recital).writing P.frame.context P.template none) := by
  cases move with
  | here =>
    have hact : P.frame.assemble P.setting q P.frame.plan.postSelect s = (p', s') :=
      Option.some.inj hm
    obtain ⟨scopes, hs⟩ := P.frame.isScoped_bindAfter P.setting P.frame.plan.postSelect q s
    rw [Frame.assemble_eq, bind_apply] at hact
    rcases hbound : P.frame.bindAfter P.setting P.frame.plan.postSelect q s with ⟨_ | bound, s₁⟩
    · rw [hbound] at hact
      obtain ⟨rfl, rfl⟩ := Prod.mk.inj hact
      cases hwell _ (List.mem_singleton.mpr rfl)
    · rw [hbound] at hact hs
      dsimp only at hact hs
      rw [Frame.output, P.output] at hact
      obtain ⟨rfl, rfl⟩ := Prod.mk.inj hact
      rw [hs]
      exact ⟨.of_record_eq rfl rfl, bound, rfl⟩
  | item | inside => cases hm

/-- A part that has not begun with the form goes on towards it, or begins with it. -/
theorem IsEarly.step (h : P.IsEarly p) (hm : p.step P.setting move s = some (p', s'))
    (hwell : p'.IsFaultless) : s.Spares (fun _ => True) s' ∧ ((∀ q ∈ p'.parts, P.IsEarly q) ∨
      ∃ q bound, p = .assembling P.frame q ∧ p' =
        .writing ((⟨bound, []⟩ : Recital).writing P.frame.context P.template none)) := by
  cases h with
  | clauses => exact (isEarly_clauses hm hwell).imp_right .inl
  | fetching => exact (isEarly_fetching hm).imp_right .inl
  | iterating => exact (isEarly_iterating hm).imp_right .inl
  | assembling q =>
    obtain ⟨hspares, bound, rfl⟩ := begins_assembling hm hwell
    exact ⟨hspares, .inr ⟨q, bound, rfl, rfl⟩⟩

theorem IsEarly.inside?_eq_none (h : P.IsEarly p) (index : Nat) : p.inside? index = none := by
  cases h <;> rfl

/-- What a part of the run becomes in a move, which recitals end or go on with that, and which
sequence the form begins with. -/
structure Becomes (P : TextFrame) (s : RunState) (p : Task) (o : Option Recital) (move : Move)
    (s' : RunState) (p' : Task) (ended : List Recital) (current : List (Option Recital))
    (begun : List Sequence) (words : List String) : Prop where
  stands : List.Forall₂ (P.Stands s') p'.parts current
  whole : ∀ r ∈ ended, r.IsWhole P.setting P.frame.context P.template
  goes : Recital.Goes o.toList (ended ++ current.filterMap id) begun words
  output : s'.output P.sink = s.output P.sink ++ words.map .text
  gathers : ∀ q ∈ p'.parts, ∀ sink, q.gathers? = some sink →
    p'.parts = [q] ∧ (p.gathers? = some sink ∨ s.nextSink ≤ sink)
  begun? : ∀ u u', p.at? move = some u → u.actOn? P.setting move.item? s = some (u', s') →
    (Act.begun? P.sink ⟨u, s, u', s'⟩).toList = begun

/-- A part that gathers nothing has no sink that it might share. -/
theorem alone_of_gathers?_eq_none {t : Task} (h : t.gathers? = none) :
    ∀ q ∈ [t], ∀ sink, q.gathers? = some sink →
      [t] = [q] ∧ (p.gathers? = some sink ∨ s.nextSink ≤ sink) := by
  intro q hq sink hsink
  obtain rfl := List.mem_singleton.mp hq
  rw [h] at hsink
  cases hsink

theorem IsEarly.becomes (h : P.IsEarly p) (hm : p.step P.setting move s = some (p', s'))
    (hwell : p'.IsFaultless) :
    ∃ ended current begun words, P.Becomes s p none move s' p' ended current begun words := by
  obtain ⟨hspares, hearly | ⟨q, bound, rfl, rfl⟩⟩ := h.step hm hwell
  · have hnot (w : Writing) : p' ≠ .writing w := by
      rintro rfl
      cases hearly _ (List.mem_singleton.mpr rfl)
    refine ⟨[], p'.parts.map fun _ => none, [], [], ?_, List.forall_mem_nil _, ?_, ?_, ?_, ?_⟩
    · rw [List.forall₂_map_right_iff, List.forall₂_same]
      exact fun q hq => .early (hearly q hq)
    · rw [List.filterMap_map, List.nil_append]
      simp only [Function.comp_def, id, List.filterMap_none]
      exact .stay []
    · rw [hspares.output _ trivial, List.map_nil, List.append_nil]
    · intro q hq sink hsink
      cases hearly q hq <;> cases hsink
    · intro u u' hat hact
      obtain ⟨rfl, rfl⟩ := Task.eq_of_at? h.inside?_eq_none hm hat hact
      cases h with
      | assembling q =>
        cases u' with
        | writing w => exact absurd rfl (hnot w)
        | _ => rfl
      | _ => rfl
  · refine ⟨[], [some ⟨bound, []⟩], [bound], [], .cons (.writing (Recital.follows_nil bound)
      .between) .nil, List.forall_mem_nil _, .begin bound, ?_, alone_of_gathers?_eq_none rfl, ?_⟩
    · rw [hspares.output _ trivial, List.map_nil, List.append_nil]
    · intro u u' hat hact
      obtain ⟨rfl, rfl⟩ := Task.eq_of_at? h.inside?_eq_none hm hat hact
      rw [Act.begun?]
      simp [Recital.writing]

/-- The task of a part writes into the sink that it was given. -/
theorem avoids_of_task? {part : TemplatePart} {c : Context} {input : Sequence} {u : Solution}
    {sink other : SinkId} {t : Task} (ht : part.task? c input u sink = some t) (h : sink ≠ other) :
    t.Avoids other := by
  cases part with
  | expression e => cases ht
  | plan q =>
    obtain rfl := Option.some.inj ht
    refine .of_contexts (fun d hd => ?_) fun _ => rfl
    obtain rfl := List.mem_singleton.mp hd
    exact h
  | call q =>
    rw [TemplatePart.task?, Option.map_eq_some_iff] at ht
    obtain ⟨name, -, rfl⟩ := ht
    refine .of_contexts (fun d hd => ?_) fun _ => rfl
    obtain rfl := List.mem_singleton.mp hd
    exact h

theorem becomes_writing {r : Recital} {current : Option (String × List TemplatePart)}
    (h : r.Follows P.setting P.frame.context P.template)
    (hcurrent : r.Pauses P.setting P.frame.context P.template current)
    (hsink : P.sink < s.nextSink) (hfresh : s.output s.nextSink = [])
    (hm : (Task.writing (r.writing P.frame.context P.template current)).step P.setting move s =
      some (p', s')) :
    ∃ ended current' words, P.Becomes s (.writing (r.writing P.frame.context P.template current))
      (some r) move s' p' ended current' [] words := by
  have hbegun : ∀ u u', (Task.writing (r.writing P.frame.context P.template current)).at? move =
      some u → u.actOn? P.setting move.item? s = some (u', s') →
      (Act.begun? P.sink ⟨u, s, u', s'⟩).toList = [] := by
    intro u u' hat hact
    obtain ⟨rfl, rfl⟩ := Task.eq_of_at? (fun _ => rfl) hm hat hact
    rfl
  cases move with
  | here =>
    have hadvances := Recital.advances h hcurrent s
    rw [show Writing.advance _ _ s = (p', s') from Option.some.inj hm] at hadvances
    cases hadvances with
    | ended hlength =>
      exact ⟨[r], [], [], .nil, List.forall_mem_singleton.mpr ⟨h, hlength⟩, .stay [r],
        (List.append_nil _).symm, List.forall_mem_nil _, hbegun⟩
    | pause scopes hpause =>
      exact ⟨[], [some r], [], .cons (.writing h hpause) .nil, List.forall_mem_nil _, .stay [r],
        (List.append_nil _).symm, alone_of_gathers?_eq_none rfl, hbegun⟩
    | @word word _ hfollows hw =>
      exact ⟨[], [some (r.concat word)], [word], .cons (.writing hfollows .between) .nil,
        List.forall_mem_nil _, .speak r word, hw, alone_of_gathers?_eq_none rfl, hbegun⟩
    | @gather u done rest part text t hspeaks hparts ht =>
      have hstarts : t.Writes P.setting s.nextSink (s.output s.nextSink) t
          { s with nextSink := s.nextSink + 1 } := by
        rw [hfresh]
        exact .start (Nat.lt_succ_self _)
      refine ⟨[], [some r], [], .cons (.nesting h hspeaks hparts ht hstarts
        (avoids_of_task? ht (Nat.ne_of_gt hsink))) .nil, List.forall_mem_nil _, .stay [r],
        (List.append_nil _).symm, fun q hq sink hgathers => ?_, hbegun⟩
      obtain rfl := List.mem_singleton.mp hq
      obtain rfl := Option.some.inj hgathers
      exact ⟨rfl, .inr (Nat.le_refl _)⟩
  | item | inside => cases hm

theorem becomes_nesting {r : Recital} {u : Solution} {done rest : List TemplatePart}
    {part : TemplatePart} {text : String} {sink : SinkId} {begun inner : Task}
    (h : r.Follows P.setting P.frame.context P.template)
    (hspeaks : r.Speaks P.setting P.frame.context P.template u done text)
    (hparts : P.template.parts = done ++ part :: rest)
    (ht : part.task? P.frame.context r.input u sink = some begun)
    (hw : begun.Writes P.setting sink (s.output sink) inner s) (hinner : inner.Avoids P.sink)
    (hin : inner.AreIn s) (hsink : P.sink < s.nextSink)
    (hm : (Task.nesting (r.writing P.frame.context P.template (some (text, rest))) sink inner).step
      P.setting move s = some (p', s')) (hwell : p'.IsFaultless) :
    ∃ current, P.Becomes s
      (.nesting (r.writing P.frame.context P.template (some (text, rest))) sink inner) (some r) move
      s' p' [] current [] [] := by
  cases move with
  | here =>
    rw [Task.step, Option.ite_none_right_eq_some, Option.some.injEq] at hm
    obtain ⟨hready, hact⟩ := hm
    cases inner with
    | finished o =>
      cases o with
      | some e =>
        obtain ⟨rfl, rfl⟩ := Prod.mk.inj hact
        cases hwell _ (List.mem_singleton.mpr rfl)
      | none =>
        obtain ⟨rfl, rfl⟩ := Prod.mk.inj hact
        have hpause := Recital.Pauses.within (hspeaks.concat (.gathered ht hw))
          (hparts.trans (List.append_cons done part rest))
        refine ⟨[some r], .cons (.writing h hpause) .nil, List.forall_mem_nil _, .stay [r],
          (List.append_nil _).symm, alone_of_gathers?_eq_none rfl, fun u u' hat _ => ?_⟩
        obtain rfl := Option.some.inj hat
        rfl
    | _ => cases hready
  | item => cases hm
  | inside index move =>
    simp only [Task.step, Option.bind_eq_bind, Option.bind_eq_some_iff] at hm
    obtain ⟨v, hi, ⟨inner', s₁⟩, hstep, heq⟩ := hm
    obtain ⟨rfl, rfl⟩ := Prod.mk.inj (Option.some.inj heq)
    obtain ⟨rfl, rfl⟩ : index = 0 ∧ inner = v := by simpa [Task.inside?] using hi
    obtain ⟨more, -, hmore⟩ := (Task.inner_step hstep).record.exists_body sink
    have hw' := hw.own hstep hmore
    rw [← hmore] at hw'
    have hspares : s.Spares (· = P.sink) s₁ :=
      Task.spares_step hstep fun _ heq => heq ▸ hinner
    refine ⟨[some r], .cons (.nesting h hspeaks hparts ht hw' (hinner.step hin hstep (.inl hsink)))
      .nil, List.forall_mem_nil _, .stay [r], ?_, fun q hq σ hgathers => ?_, fun u u' hat _ => ?_⟩
    · rw [hspares.output _ rfl, List.map_nil, List.append_nil]
    · obtain rfl := List.mem_singleton.mp hq
      exact ⟨rfl, .inl hgathers⟩
    · -- whatever acts below writes into another sink
      have hwithin : u.Within inner := Task.within_at? (by rwa [Task.at?, hi] at hat)
      have hnone : Act.begun? P.sink ⟨u, s, u', s₁⟩ = none := by
        cases u with
        | assembling f q =>
          cases u' with
          | writing w => exact if_neg (hinner _ hwithin f.context List.mem_cons_self)
          | _ => rfl
        | _ => rfl
      rw [hnone]
      rfl

/-- One part of the run goes on. -/
theorem Stands.step (h : P.Stands s p o) (hin : p.AreIn s) (hsink : P.sink < s.nextSink)
    (hfresh : s.output s.nextSink = []) (hm : p.step P.setting move s = some (p', s'))
    (hwell : p'.IsFaultless) :
    ∃ ended current begun words, P.Becomes s p o move s' p' ended current begun words := by
  cases h with
  | early h => exact h.becomes hm hwell
  | writing h hcurrent =>
    obtain ⟨ended, current, words, hbecomes⟩ := becomes_writing h hcurrent hsink hfresh hm
    exact ⟨ended, current, [], words, hbecomes⟩
  | nesting h hspeaks hparts ht hw hinner =>
    obtain ⟨current, hbecomes⟩ := becomes_nesting h hspeaks hparts ht hw hinner
      (hin.inside (if_pos rfl)) hsink hm hwell
    exact ⟨[], current, [], [], hbecomes⟩

section Becomes

variable {ended : List Recital} {current : List (Option Recital)} {begun : List Sequence}
  {words : List String}

/-- At most one of the parts that one becomes gathers anything. -/
theorem Becomes.pairwise (h : P.Becomes s p o move s' p' ended current begun words) :
    p'.parts.Pairwise Task.IsApartFrom := by
  by_cases hnone : ∀ q ∈ p'.parts, q.gathers? = none
  · refine List.pairwise_of_forall_mem_list fun q hq x hx sink => ⟨fun hsink => ?_, fun hsink => ?_⟩
    · rw [hnone q hq] at hsink
      cases hsink
    · rw [hnone x hx] at hsink
      cases hsink
  · push Not at hnone
    obtain ⟨q, hq, hgathers⟩ := hnone
    obtain ⟨sink, hsink⟩ := Option.ne_none_iff_exists'.mp hgathers
    rw [(h.gathers q hq sink hsink).1]
    exact List.pairwise_singleton _ _

/-- What a part becomes is apart from what the part was apart from. -/
theorem Becomes.isApartFrom (h : P.Becomes s p o move s' p' ended current begun words)
    (hin : p.AreIn s) (hm : p.step P.setting move s = some (p', s')) {q : Task}
    {other : Option Recital} (hq : P.Stands s q other)
    (hfresh : ∀ sink, s.nextSink ≤ sink → q.Avoids sink) (hapart : p.IsApartFrom q) :
    ∀ x ∈ p'.parts, x.IsApartFrom q := by
  refine fun x hx sink => ⟨fun hsink => ?_, fun hsink => ?_⟩
  · rcases (h.gathers x hx sink hsink).2 with hold | hnew
    · exact (hapart sink).1 hold
    · exact hfresh sink hnew
  · have havoids := ((hapart sink).2 hsink).step hin hm (.inl (hq.gathers_lt hsink))
    exact Task.forall_contexts_parts p' havoids x hx

/-- A part that is apart from the one that goes on stands as it stood. -/
theorem Stands.beside {q : Task} {other : Option Recital} (hq : P.Stands s q other)
    (hm : p.step P.setting move s = some (p', s')) (hapart : p.IsApartFrom q) :
    P.Stands s' q other :=
  hq.others (Task.spares_step hm fun sink hsink => (hapart sink).2 hsink) fun hclosed =>
    (Task.inner_step hm).isClosed.trans hclosed

/-- The form begins in a tree exactly if it begins in the part that goes on. -/
theorem Becomes.begun?_eq (h : P.Becomes s p o move s' p' ended current begun words)
    {t t' u u' : Task} {whole : Move} {before after : List Task}
    (hpart : Task.PartStep P.setting t whole s t' s' before p after move p')
    (hat : t.at? whole = some u) (hact : u.actOn? P.setting whole.item? s = some (u', s')) :
    (Act.begun? P.sink ⟨u, s, u', s'⟩).toList = begun := by
  rcases hpart.at? with ⟨hsame, hitem⟩ | ⟨f, nodes, i, branches, error, hiterating, rfl⟩
  · exact h.begun? u u' (hsame ▸ hat) (hitem ▸ hact)
  · obtain rfl := Option.some.inj (hat.symm.trans hiterating)
    -- the iterator itself goes on, which begins nothing
    obtain ⟨v, v', hv, hv'⟩ := Task.actOn?_of_step hpart.step
    have hbegun := h.begun? v v' hv hv'
    obtain ⟨rfl, -⟩ := Task.eq_of_at? (fun _ => rfl) hpart.step hv hv'
    exact hbegun

end Becomes

end TextFrame

end TripleLoom
