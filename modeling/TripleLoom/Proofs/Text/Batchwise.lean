import TripleLoom.Proofs.Generation.Placeholders
import TripleLoom.Proofs.Run.Protocol
import TripleLoom.Proofs.Text.Parts

/-!
# TripleLoom.Proofs.Text.Batchwise — a text, batch by batch

What the run of a plan with a `TEMPLATE` form and no select part writes is made up of recitals, one
for each sequence that the form is begun for (`Run.recites_per_batch`): each one says what comes
before its first solution, what separates its solutions and what comes after its last one, and the
texts of different recitals may mix, since the parts of a run go on side by side (`Interleaves`).  An
iterator hands its solutions on batch by batch, so the text is in one piece only if the form is begun
once: two letters that come in two batches get brackets of their own and no comma between them
(`Run.letters_recited_apart`).
-/

namespace TripleLoom

open RunM

/-! ### Interleavings -/

/-- Some lists that are written side by side, each in its own order. -/
inductive Interleaves {α : Type} : List (List α) → List α → Prop where
  | nil : Interleaves [] []
  | empty {ls : List (List α)} {l : List α} (h : Interleaves ls l) : Interleaves ([] :: ls) l
  | concat {w : List α} {ls : List (List α)} {l : List α} (h : Interleaves (w :: ls) l) (a : α) :
    Interleaves ((w ++ [a]) :: ls) (l ++ [a])
  | perm {ls ls' : List (List α)} {l : List α} (h : Interleaves ls l) (hp : ls.Perm ls') :
    Interleaves ls' l

namespace Interleaves

variable {α : Type} {ls : List (List α)} {l : List α}

theorem flatten_perm (h : Interleaves ls l) : ls.flatten.Perm l := by
  induction h with
  | nil => exact .nil
  | empty h ih => exact ih
  | @concat w ls l h a ih =>
    rw [List.flatten_cons] at ih ⊢
    rw [List.append_assoc]
    exact (List.perm_middle.trans (ih.cons a)).trans (List.perm_append_singleton a l).symm
  | perm h hp ih => exact hp.flatten.symm.trans ih

theorem sublist (h : Interleaves ls l) : ∀ w ∈ ls, w.Sublist l := by
  induction h with
  | nil => exact List.forall_mem_nil _
  | empty h ih => exact List.forall_mem_cons.mpr ⟨List.nil_sublist _, ih⟩
  | concat h a ih =>
    obtain ⟨hw, hls⟩ := List.forall_mem_cons.mp ih
    exact List.forall_mem_cons.mpr ⟨hw.append (.refl _),
      fun v hv => (hls v hv).trans (List.sublist_append_left _ _)⟩
  | perm h hp ih => exact fun w hw => ih w (hp.mem_iff.mpr hw)

/-- One list alone is written as it is. -/
theorem eq_of_singleton {w : List α} (h : Interleaves [w] l) : l = w := by
  have hperm := h.flatten_perm
  rw [List.flatten_cons, List.flatten_nil, List.append_nil] at hperm
  exact ((h.sublist w (List.mem_singleton.mpr rfl)).eq_of_length hperm.length_eq).symm

end Interleaves

/-! ### One element in a list -/

/-- A relation that goes both ways holds between the elements of a list still, after one of them was
replaced by some that are as far from the others. -/
theorem pairwise_replace {α : Type} {R : α → α → Prop} (hsymm : ∀ {x y}, R x y → R y x)
    {before after : List α} {a : α} (h : (before ++ a :: after).Pairwise R) {as : List α}
    (has : as.Pairwise R)
    (hothers : ∀ x ∈ before ++ after, R a x → ∀ y ∈ as, R y x) :
    (before ++ as ++ after).Pairwise R := by
  obtain ⟨hrest, hpairwise⟩ := List.pairwise_cons.mp ((List.pairwise_middle hsymm).mp h)
  rw [List.append_assoc, (List.perm_append_comm_assoc before as after).pairwise_iff hsymm]
  exact List.pairwise_append.mpr ⟨has, hpairwise, fun y hy x hx => hothers x hx (hrest x hx) y hy⟩

/-! ### The recitals of a run -/

theorem Recital.Goes.interleaves {before after rest : List Recital} {begun : List Sequence}
    {words : List String} (h : Goes before after begun words) {texts : List String}
    (hi : Interleaves ((before ++ rest).map (·.words)) texts) :
    Interleaves ((after ++ rest).map (·.words)) (texts ++ words) := by
  cases h with
  | stay => rwa [List.append_nil]
  | begin q =>
    rw [List.append_nil]
    exact hi.empty
  | speak r word => exact hi.concat word

/-- The recitals that a part is at may come before all others. -/
theorem perm_recitals (ended : List Recital) (earlier current later : List (Option Recital)) :
    (ended ++ (earlier ++ current ++ later).filterMap id).Perm
      (current.filterMap id ++ (ended ++ (earlier ++ later).filterMap id)) := by
  rw [List.filterMap_append, List.filterMap_append, List.filterMap_append, List.append_assoc]
  exact ((List.perm_append_comm_assoc _ _ _).append_left ended).trans
    (List.perm_append_comm_assoc ended _ _)

namespace TextFrame

variable {P : TextFrame} {s' : RunState} {move : Move}

/-- How a run has come along with its text: what it has written by now is made up of the words of
recitals, one for each sequence that the form has begun with. -/
structure Recites (P : TextFrame) (announced : List SinkCall) (acts : List Act) (r : Run)
    (ended : List Recital) (current : List (Option Recital)) (texts : List String) : Prop where
  areIn : r.task.AreIn r.state
  sink : P.sink < r.state.nextSink
  fresh : ∀ sink, r.state.nextSink ≤ sink → r.state.output sink = []
  avoids : ∀ sink, r.state.nextSink ≤ sink → r.task.Avoids sink
  apart : r.task.parts.Pairwise Task.IsApartFrom
  stands : List.Forall₂ (P.Stands r.state) r.task.parts current
  whole : ∀ q ∈ ended, q.IsWhole P.setting P.frame.context P.template
  begun : ((ended ++ current.filterMap id).map (·.input)).Perm (Run.begunFor P.sink acts)
  interleaves : Interleaves ((ended ++ current.filterMap id).map (·.words)) texts
  output : r.state.output P.sink = announced ++ texts.map .text

variable {announced : List SinkCall} {acts : List Act} {r r' : Run} {ended : List Recital}
  {current : List (Option Recital)} {texts : List String}

/-- A close leaves everything as it is. -/
theorem Recites.close (h : P.Recites announced acts r ended current texts) :
    P.Recites announced acts r.close ended current texts := by
  have hspares {p : SinkId → Prop} : r.state.Spares p r.close.state := .of_record_eq rfl rfl
  have hstep : r.step P.setting .close = some r.close := rfl
  exact { h with
    areIn := fun u hu c hc => ⟨(h.areIn u hu c hc).scope, (h.areIn u hu c hc).fork⟩
    stands := h.stands.imp fun _ _ hstands => hstands.others hspares (Run.isClosed_step hstep) }

/-- A part and what stands across from it. -/
theorem Recites.exists_stands (h : P.Recites announced acts r ended current texts) {q : Task}
    (hq : q ∈ r.task.parts) : ∃ o, P.Stands r.state q o := by
  obtain ⟨before, after, hparts⟩ := List.append_of_mem hq
  have hstands := h.stands
  rw [hparts] at hstands
  obtain ⟨-, o, -, -, -, ho, -⟩ := exists_forall₂_append_cons hstands
  exact ⟨o, ho⟩

/-- One part goes on, and the others stay as they are. -/
theorem Recites.work (h : P.Recites announced acts r ended current texts) {t' u u' : Task}
    (hm : r.task.step P.setting move r.state = some (t', s')) (hwell : t'.IsFaultless)
    (hat : r.task.at? move = some u)
    (hact : u.actOn? P.setting move.item? r.state = some (u', s')) :
    ∃ ended' current' texts', P.Recites announced (acts ++ [⟨u, r.state, u', s'⟩])
      { r with task := t', state := s' } ended' current' texts' := by
  obtain ⟨before, p, after, own, p', hpart⟩ := Task.exists_partStep hwell hm
  have hparts := hpart.parts
  have hmem : p ∈ r.task.parts := by
    rw [hparts]
    exact List.mem_append_right _ List.mem_cons_self
  have hrest : before ++ after ⊆ r.task.parts := by
    rw [hparts]
    exact fun q hq => List.perm_middle.mem_iff.mpr (List.mem_cons_of_mem p hq)
  have hstands := h.stands
  have hapart := h.apart
  rw [hparts] at hstands hapart
  obtain ⟨earlier, o, later, rfl, hearlier, hp, hlater⟩ := exists_forall₂_append_cons hstands
  have hothers := (List.pairwise_cons.mp ((List.pairwise_middle Task.IsApartFrom.symm).mp hapart)).1
  have hin : p.AreIn r.state := Task.forall_contexts_parts r.task h.areIn p hmem
  obtain ⟨more, os, begun, words, hbecomes⟩ :=
    hp.step hin h.sink (h.fresh _ (Nat.le_refl _)) hpart.step (hpart.isFaultless hwell).1
  have hmono : r.state.nextSink ≤ s'.nextSink := Task.nextSink_le_of_step hm
  obtain ⟨v, v', hturning⟩ := Task.exists_turning h.areIn hm
  have hbeside {l : List Task} {os : List (Option Recital)} (hl : l ⊆ before ++ after)
      (hstands : List.Forall₂ (P.Stands r.state) l os) : List.Forall₂ (P.Stands s') l os :=
    ((List.forall₂_and_left _ _).mpr ⟨fun q hq => hothers q (hl hq), hstands⟩).imp fun _ _ hq =>
      hq.2.beside hpart.step hq.1
  -- the recitals before and after the move, those of the part that goes on in front
  have hbefore : (ended ++ (earlier ++ o :: later).filterMap id).Perm
      (o.toList ++ (ended ++ (earlier ++ later).filterMap id)) := by
    have hperm := perm_recitals ended earlier [o] later
    rw [List.append_assoc] at hperm
    cases o <;> exact hperm
  have hafter : ((more ++ ended) ++ (earlier ++ os ++ later).filterMap id).Perm
      ((more ++ os.filterMap id) ++ (ended ++ (earlier ++ later).filterMap id)) := by
    rw [List.append_assoc more ended, List.append_assoc more]
    exact (perm_recitals ended earlier os later).append_left more
  refine ⟨more ++ ended, earlier ++ os ++ later, texts ++ words, ?_, ?_, ?_, ?_, ?_, ?_, ?_, ?_, ?_,
    ?_⟩
  · exact hturning.areIn h.areIn
  · exact Nat.lt_of_lt_of_le h.sink hmono
  · intro sink hsink
    have havoided := h.avoids sink (Nat.le_trans hmono hsink)
    have hspares : r.state.Spares (· = sink) s' := Task.spares_step hm fun _ heq => heq ▸ havoided
    rw [hspares.output sink rfl, h.fresh sink (Nat.le_trans hmono hsink)]
  · exact fun sink hsink =>
      (h.avoids sink (Nat.le_trans hmono hsink)).step h.areIn hm (.inr hsink)
  · show t'.parts.Pairwise _
    rw [hpart.parts']
    refine pairwise_replace Task.IsApartFrom.symm hapart hbecomes.pairwise fun q hq hpq x hx => ?_
    obtain ⟨other, hother⟩ := h.exists_stands (hrest hq)
    have havoids (sink : SinkId) (hsink : r.state.nextSink ≤ sink) : q.Avoids sink :=
      Task.forall_contexts_parts r.task (h.avoids sink hsink) q (hrest hq)
    exact hbecomes.isApartFrom hin hpart.step hother havoids hpq x hx
  · show List.Forall₂ _ t'.parts _
    rw [hpart.parts']
    exact List.rel_append (List.rel_append (hbeside (List.subset_append_left _ _) hearlier)
      hbecomes.stands) (hbeside (List.subset_append_right _ _) hlater)
  · exact List.forall_mem_append.mpr ⟨hbecomes.whole, h.whole⟩
  · rw [Run.begunFor_concat, hbecomes.begun?_eq hpart hat hact]
    exact (hafter.map _).trans (hbecomes.goes.perm_begun ((hbefore.symm.map _).trans h.begun))
  · exact (hbecomes.goes.interleaves (h.interleaves.perm (hbefore.map _))).perm (hafter.symm.map _)
  · rw [List.map_append, ← List.append_assoc, ← h.output]
    exact hbecomes.output

theorem Recites.step {move : RunMove} (h : r.task.IsFaultless → ∃ ended current texts,
      P.Recites announced acts r ended current texts)
    (hs : r.step P.setting move = some r') (hwell : r'.task.IsFaultless) :
    ∃ ended current texts, P.Recites announced (acts ++ (r.act? P.setting move).toList) r'
      ended current texts := by
  cases move with
  | close =>
    obtain rfl : r.close = r' := Option.some.inj hs
    obtain ⟨ended, current, texts, h⟩ := h hwell
    rw [Run.act?, Option.toList_none, List.append_nil]
    exact ⟨ended, current, texts, h.close⟩
  | work m =>
    simp only [Run.step, Option.bind_eq_bind, Option.bind_eq_some_iff] at hs
    obtain ⟨⟨t, s⟩, hm, hr⟩ := hs
    obtain rfl : { r with task := t, state := s } = r' := Option.some.inj hr
    obtain ⟨_, _, _, _, _, hpart⟩ := Task.exists_partStep hwell hm
    obtain ⟨ended, current, texts, h⟩ := h (hpart.isFaultless hwell).2
    obtain ⟨u, u', hat, hact⟩ := Task.actOn?_of_step hm
    have hacts : r.act? P.setting (.work m) = some ⟨u, r.state, u', s⟩ := by
      rw [Run.act?, hat, Option.bind_eq_bind, Option.bind_some, hact]
      rfl
    rw [hacts]
    exact h.work hm hwell hat hact

end TextFrame

/-! ### The whole text -/

namespace Run

variable {setting : Setting} {r : Run} {moves : List RunMove}

theorem recites_start (P : TextFrame) {state : RunState} (plan : Plan) (input : Sequence)
    (hframe : P.frame = ⟨plan, (start state plan input).context.withBase plan.base⟩)
    (hfresh : ∀ sink, state.nextSink ≤ sink → state.output sink = []) :
    P.Recites plan.announcement [] (start state plan input) [] [none] [] := by
  obtain ⟨hsink, hothers⟩ := start_sinks state plan input
  have hown : P.sink = state.nextSink := by rw [TextFrame.sink, hframe]; rfl
  have htask : (start state plan input).task = .clauses P.frame plan.bindings input := by
    rw [hframe]
    rfl
  have hnew (sink : SinkId) (h : (start state plan input).state.nextSink ≤ sink) :
      state.nextSink < sink := Nat.lt_of_lt_of_le hsink h
  have hparts : (start state plan input).task.parts = [.clauses P.frame plan.bindings input] := by
    rw [htask]
    rfl
  refine ⟨(start_evolves state plan input).2, hown ▸ hsink, fun sink h => ?_, fun sink h => ?_, ?_,
    ?_, List.forall_mem_nil _, .nil, .nil, ?_⟩
  · rw [hothers sink (Nat.ne_of_gt (hnew sink h)), hfresh sink (Nat.le_of_lt (hnew sink h))]
  · rw [htask]
    refine .of_contexts (fun c hc => ?_) fun _ => rfl
    obtain rfl := List.mem_singleton.mp hc
    exact Nat.ne_of_lt (Nat.lt_of_le_of_lt (Nat.le_of_eq hown) (hnew sink h))
  · rw [hparts]
    exact List.pairwise_singleton _ _
  · rw [hparts]
    exact .cons (.early (.clauses _ _)) .nil
  · obtain ⟨t, hstart, -, -, houtput⟩ := start_spec state plan input
    rw [hown, hstart]
    show t.output _ = _
    rw [houtput, hfresh _ (Nat.le_refl _), List.nil_append, List.map_nil, List.append_nil]

/-- **A text runs through a batch.**  Let a plan make a text of its solutions and have no select
part, and let its run end without an error.  What the run writes into its sink is the announcement,
some texts and the finish.  The texts are those of whole recitals, one for each sequence that the form
was begun for: what comes before stands in front of its first solution, what separates between two of
them, what comes after behind its last one, and the parts of the template at each.  Recitals may mix,
but each keeps its order.  So the text is one recital for all solutions if the form is begun once. -/
theorem recites_per_batch {state : RunState}
    (hfresh : ∀ sink, state.nextSink ≤ sink → state.output sink = []) (limit : Nat) {plan : Plan}
    {template : TemplatePlan} (hselect : plan.select = none)
    (houtput : plan.output = .template (.template template)) (input : Sequence)
    (hreplay : (start (state.renew limit) plan input).replay setting moves = some r)
    (hend : r.task = .finished none) :
    let begun := begunFor r.context.sink
      ((start (state.renew limit) plan input).acts setting moves)
    ∃ (recitals : List Recital) (texts : List String),
      r.finish.output r.context.sink =
        plan.announcement ++ texts.map .text ++ [.finish] ∧
      recitals.map (·.input) = begun ∧
      (∀ q ∈ recitals, q.IsWhole setting (r.context.withBase plan.base) template) ∧
      Interleaves (recitals.map (·.words)) texts ∧
      ∀ q, begun = [q] →
        (⟨q, texts⟩ : Recital).IsWhole setting (r.context.withBase plan.base) template := by
  intro begun
  let c := (start (state.renew limit) plan input).context
  let P : TextFrame := ⟨setting, ⟨plan, c.withBase plan.base⟩, template, hselect, houtput⟩
  obtain ⟨hcontext, hrecites⟩ : r.context = c ∧ (r.task.IsFaultless →
      ∃ ended current texts, P.Recites plan.announcement
        ((start (state.renew limit) plan input).acts setting moves) r ended current texts) := by
    refine acts_induction (P := fun acts r => r.context = c ∧ (r.task.IsFaultless →
      ∃ ended current texts, P.Recites plan.announcement acts r ended current texts))
      (fun acts r move r' h hs => ?_) [] _ ⟨rfl, fun _ => ?_⟩ hreplay
    · exact ⟨(growsInside_step hs).2.trans h.1, TextFrame.Recites.step h.2 hs⟩
    · exact ⟨_, _, _, recites_start P plan input rfl hfresh⟩
  have hparts : r.task.parts = [] := by
    rw [hend]
    rfl
  obtain ⟨ended, current, texts, h⟩ := hrecites fun p hp => by
    rw [hparts] at hp
    cases hp
  -- no part is left, so every recital has ended
  obtain rfl : current = [] := by
    have hstands := h.stands
    rw [hparts] at hstands
    exact List.forall₂_nil_left_iff.mp hstands
  have hbegun := h.begun
  have hinterleaves := h.interleaves
  rw [List.filterMap_nil, List.append_nil] at hbegun hinterleaves
  have hsink : P.sink = r.context.sink := by rw [hcontext]; rfl
  have hwritten := h.output
  rw [hsink] at hbegun hwritten
  obtain ⟨recitals, heq, hperm⟩ :
      Relation.Comp (· = List.map (·.input) ·) List.Perm begun ended := by
    rw [List.eq_map_comp_perm]
    exact hbegun.symm
  have hwhole (q : Recital) (hq : q ∈ recitals) :
      q.IsWhole setting (r.context.withBase plan.base) template := by
    rw [hcontext]
    exact h.whole q (hperm.mem_iff.mp hq)
  refine ⟨recitals, texts, ?_, heq.symm, hwhole, hinterleaves.perm (hperm.symm.map _),
    fun q hq => ?_⟩
  · rw [← hwritten]
    exact r.context.output_write .finish r.state
  · obtain ⟨recital, rfl, rfl⟩ := List.map_eq_singleton_iff.mp (heq.symm.trans hq)
    have halone := (hinterleaves.perm (hperm.symm.map _)).eq_of_singleton
    rw [halone]
    exact hwhole recital List.mem_cons_self

/-- A query for the letters, in brackets and with commas between them. -/
def recitation : Query :=
  { (default : Query) with
    bindings := [.iterator ⟨"urn:letters"⟩ [] [⟨"x"⟩]]
    form := .template (some (.literal (.simple "("))) [.expression (.var ⟨"x"⟩)]
      (some (.literal (.simple ", "))) (some (.literal (.simple ")"))) }

/-- The template of its plan. -/
def bracketed : TemplatePlan :=
  ⟨some (.literal (.simple "(")), [.expression (.var ⟨"x"⟩)], some (.literal (.simple ", ")),
    some (.literal (.simple ")"))⟩

/-- Its plan. -/
def recitingPlan : Plan :=
  { iteratorPlan "urn:letters" "x" [] [] with output := .template (.template bracketed) }

/-- The moves of its run: each of the two letters comes in a batch of its own. -/
def recitingMoves : List RunMove :=
  movesAt [] [.here, .item 0, .here] ++ movesAt [0] (List.replicate 6 .here) ++
  movesAt [] [.item 0, .here] ++ movesAt [0] (List.replicate 6 .here) ++
  movesAt [] [.item 0, .here, .here, .here]

theorem letters_recited_per_batch :
    ∃ r, (start ((RunState.start 1).renew 1) recitingPlan .unit).replay lettersSetting
        recitingMoves = some r ∧ r.task = .finished none ∧
      ∃ (recitals : List Recital) (texts : List String),
        r.finish.output r.context.sink =
          recitingPlan.announcement ++ texts.map .text ++ [.finish] ∧
        recitals.map (·.input.solutions.map (·.get? ⟨"x"⟩)) =
          [[some (.ofText "a")], [some (.ofText "b")]] ∧
        (∀ q ∈ recitals,
          q.IsWhole lettersSetting (r.context.withBase recitingPlan.base) bracketed) ∧
        Interleaves (recitals.map (·.words)) texts := by
  have hrun : ((start ((RunState.start 1).renew 1) recitingPlan .unit).replay lettersSetting
      recitingMoves).any (fun r => r.task.isFinished && r.task.outcome.isNone &&
        (begunFor r.context.sink ((start ((RunState.start 1).renew 1) recitingPlan .unit).acts
          lettersSetting recitingMoves)).map (·.solutions.map (·.get? ⟨"x"⟩)) ==
            [[some (.ofText "a")], [some (.ofText "b")]]) = true := by
    decide +kernel
  obtain ⟨r, hr, hfound⟩ := (Option.any_eq_true _ _).mp hrun
  rw [Bool.and_eq_true, beq_iff_eq] at hfound
  obtain ⟨hover, hbegun⟩ := hfound
  have hend := Task.eq_finished_of_outcome hover
  have houtput : recitingPlan.output = .template (.template bracketed) := rfl
  obtain ⟨recitals, texts, hwritten, hinputs, hwhole, hinterleaves, -⟩ :=
    recites_per_batch (fun _ _ => rfl) 1 rfl houtput .unit hr hend
  refine ⟨r, hr, hend, recitals, texts, hwritten, ?_, hwhole, hinterleaves⟩
  rw [← hbegun, ← hinputs, List.map_map]
  rfl

/-- The two letters come in two batches, and each gets brackets of its own, but no comma: what is
written is not the text for both. -/
theorem letters_recited_apart :
    (Plan.build recitation .start).1 = .ok recitingPlan ∧
    ∃ function stream, lettersSetting.functions.iterator? ⟨"urn:letters"⟩ = some function ∧
      function 0 [] = .ok stream ∧ stream.Gives [[some (.ofText "a")], [some (.ofText "b")]] ∧
      ∃ r, (start ((RunState.start 1).renew 1) recitingPlan .unit).replay lettersSetting
          recitingMoves = some r ∧ r.task = .finished none ∧ r.state.isClosed = false ∧
        let final := (begunFor r.context.sink ((start ((RunState.start 1).renew 1) recitingPlan
          .unit).acts lettersSetting recitingMoves)).flatMap (·.solutions)
        let written := r.finish.output r.context.sink
        final.map (·.get? ⟨"x"⟩) = [some (.ofText "a"), some (.ofText "b")] ∧
          SinkCall.serialize written = "(a)(b)" ∧
          ¬∃ texts, written = recitingPlan.announcement ++ texts.map .text ++ [.finish] ∧
            (⟨.ofLists [⟨"x"⟩] final, texts⟩ : Recital).IsWhole lettersSetting
              (r.context.withBase recitingPlan.base) bracketed := by
  have hrun : ((start ((RunState.start 1).renew 1) recitingPlan .unit).replay lettersSetting
      recitingMoves).any (fun r =>
        r.task.isFinished && r.task.outcome.isNone && !r.state.isClosed &&
        ((begunFor r.context.sink ((start ((RunState.start 1).renew 1) recitingPlan .unit).acts
          lettersSetting recitingMoves)).flatMap (·.solutions)).map (·.get? ⟨"x"⟩) ==
            [some (.ofText "a"), some (.ofText "b")] &&
        (r.finish.output r.context.sink).flatMap SinkCall.pieces == ["(a)", "(b)"]) = true := by
    decide +kernel
  obtain ⟨r, hr, hfound⟩ := (Option.any_eq_true _ _).mp hrun
  rw [Bool.and_eq_true, Bool.and_eq_true, Bool.and_eq_true, beq_iff_eq, beq_iff_eq,
    Bool.not_eq_true'] at hfound
  obtain ⟨⟨⟨hover, hopen⟩, hfinal⟩, hpieces⟩ := hfound
  have hgives : (TupleStream.given [[[some (.ofText "a")]], [[some (.ofText "b")]]] .finished).Gives
      ([[some (.ofText "a")]] ++ ([[some (.ofText "b")]] ++ [])) :=
    .batch rfl (.batch rfl (.finished rfl))
  refine ⟨rfl, _, _, rfl, rfl, hgives, r, hr, Task.eq_finished_of_outcome hover, hopen, hfinal, ?_, ?_⟩
  · rw [SinkCall.serialize, hpieces]
    rfl
  · rintro ⟨texts, hwritten, hwhole⟩
    have htexts : texts = ["(a)", "(b)"] := by
      rw [← hpieces, hwritten, List.flatMap_append, List.flatMap_append, List.flatMap_map]
      exact (List.flatMap_singleton' texts).symm.trans (List.append_nil _).symm
    subst htexts
    -- the word for the second letter would have to begin with the comma
    obtain ⟨u, rest, hlist, -, hrest⟩ := List.map_eq_cons_iff.mp hfinal
    obtain ⟨v, _, rfl, -, -⟩ := List.map_eq_cons_iff.mp hrest
    rw [hlist] at hwhole
    obtain ⟨_, _, _, ⟨s, rfl⟩, -, -, heq⟩ := hwhole.word 1 v "(b)" rfl rfl
    have hcomma : "(b)" = ", " ++ _ ++ _ := heq
    have hfirst := congrArg (fun text : String => text.toList.head?) hcomma
    simp at hfirst

end Run

end TripleLoom
