import TripleLoom.Proofs.Generation.Placeholders
import TripleLoom.Proofs.Run.Following
import TripleLoom.Proofs.Sink.Collecting

/-!
# TripleLoom.Proofs.Text.Execution — the text of one template

A `TEMPLATE` form that begins in a run is followed to its end (`TemplateRun`).  It writes one text for
each solution and nothing else.  The text of a solution is what the parts of its line come to
(`TemplatePlan.lines`): what comes before the first solution or separates it from the one before, then
the parts of the template, and behind the last one what comes after.  An expression comes to the
lexical form of its value, a query to what it writes into the sink that the form has made for it
(`TemplateRun.Comes`).  The form ends early only if one of these queries fails.
-/

namespace TripleLoom

open RunM

/-! ### Texts -/

/-- The lexical form of a value, if it is a literal. -/
def lexicalForm : Option Term → String
  | some (.literal l) => l.value
  | _ => ""

theorem Context.textOf_some (c : Context) (functions : FunctionRegistry) (e : Expression)
    (u : Solution) (s : RunState) : (c.textOf functions (some e) u s).1 =
      lexicalForm (c.eval? functions e u s).1 := by
  rw [textOf, bind_apply]
  rcases (c.eval? functions e u s).1 with _ | t
  · rfl
  · cases t <;> rfl

namespace TemplatePlan

/-- An expression around the parts, if there is one. -/
def affix (e : Option Expression) : List TemplatePart := (e.map .expression).toList

/-- What makes up the texts of some solutions, each with the solutions from its own on: what comes
before the first one or separates it from the one before, the parts, and what comes after the last. -/
def lines (p : TemplatePlan) (isFirst : Bool) :
    List Solution → List (List Solution × List TemplatePart)
  | [] => []
  | u :: rest =>
    (u :: rest, affix (p.opening isFirst) ++ p.parts ++ affix (p.closing rest.isEmpty)) ::
      p.lines false rest

theorem length_lines (p : TemplatePlan) : ∀ (isFirst : Bool) (us : List Solution),
    (p.lines isFirst us).length = us.length
  | _, [] => rfl
  | _, _ :: rest => congrArg (· + 1) (p.length_lines false rest)

/-- The parts of a piece of a line, each with what is behind it on the line. -/
def spots (us : List Solution) :
    List TemplatePart → List TemplatePart → List (List Solution × List TemplatePart)
  | [], _ => []
  | part :: parts, left => (us, part :: (parts ++ left)) :: spots us parts left

theorem spots_append (us : List Solution) (more left : List TemplatePart) :
    ∀ parts, spots us (parts ++ more) left = spots us parts (more ++ left) ++ spots us more left
  | [] => rfl
  | part :: parts => by
    rw [List.cons_append, spots, spots, spots_append us more left parts, List.append_assoc]
    rfl

/-- Where a query stands in a line there is a part of the template, and its solution is one of those
that the lines are for. -/
theorem mem_of_mem_lines {p : TemplatePlan} {part : TemplatePart} (hpart : ∀ e, part ≠ .expression e)
    {u : Solution} {rest : List Solution} {line : List TemplatePart} (hmem : part ∈ line) :
    ∀ {isFirst : Bool} {us : List Solution}, (u :: rest, line) ∈ p.lines isFirst us →
      u ∈ us ∧ part ∈ p.parts
  | _, v :: us, hline => by
    have haffix (e : Option Expression) : part ∉ affix e := by
      cases e with
      | none => exact List.not_mem_nil
      | some e => exact fun h => hpart e (List.mem_singleton.mp h)
    rcases List.mem_cons.mp hline with heq | hline
    · obtain ⟨hus, rfl⟩ := Prod.mk.inj heq
      obtain ⟨rfl, -⟩ := List.cons.inj hus
      have hparts := (List.mem_append.mp hmem).resolve_right (haffix _)
      exact ⟨List.mem_cons_self, (List.mem_append.mp hparts).resolve_left (haffix _)⟩
    · exact (mem_of_mem_lines hpart hmem hline).imp_left (List.mem_cons_of_mem v)

end TemplatePlan

/-- Where a form is: the solutions from the one at hand on, and what is left of its line. -/
def Writing.spot (w : Writing) : List Solution × List TemplatePart :=
  (w.solutions,
    (match w.current with
      | none => TemplatePlan.affix (w.plan.opening w.isFirst) ++ w.plan.parts
      | some (_, parts) => parts) ++
    TemplatePlan.affix (w.plan.closing w.solutions.tail.isEmpty))

/-! ### Forms in a run -/

/-- A `TEMPLATE` form as it begins in a run. -/
structure TemplateRun where
  setting : Setting
  run : Run
  context : Context
  template : TemplatePlan
  input : Sequence

namespace TemplateRun

variable (E : TemplateRun)

/-- The form at work. -/
abbrev writing (isFirst : Bool) (solutions : List Solution)
    (current : Option (String × List TemplatePart)) : Writing :=
  ⟨E.context, E.template, E.input, isFirst, solutions, current⟩

/-- The form as it begins. -/
def form : Task := .writing (E.writing true E.input.solutions none)

/-- What becomes of the form in some moves of the run, and what it tells its sink meanwhile. -/
abbrev Reaches (moves : List RunMove) (calls : List SinkCall) (r : Run) (t : Task) : Prop :=
  E.run.Carries E.setting E.context.sink E.form moves calls r t

/-- A query that the form runs for a part of a solution's line, from its beginning to its end: it
writes into a sink of its own, in which there is nothing before. -/
def Runs (moves : List RunMove) (u : Solution) (rest : List Solution) (part : TemplatePart)
    (left : List TemplatePart) (told : List SinkCall) (o : Outcome) : Prop :=
  ∃ before below after calls w sink begun r₁ r₂, moves = before ++ below ++ after ∧
    part.task? E.context E.input u sink = some begun ∧ w.spot = (u :: rest, left) ∧
    E.Reaches before calls r₁ (.nesting w sink begun) ∧ r₁.state.output sink = [] ∧
    r₁.Carries E.setting sink begun below told r₂ (.finished o)

/-- What a part of a solution's line comes to: an expression in the act of the form that is there, a
query by what it writes, and a call without a name to nothing. -/
inductive Comes (moves : List RunMove) : List Solution × List TemplatePart → String → Prop where
  | expression {u : Solution} {rest : List Solution} {e : Expression} {left : List TemplatePart}
    {before after : List RunMove} {calls : List SinkCall} {r : Run} {w : Writing} {m : Move}
    {t t' : Task} {s : RunState} (hmoves : moves = before ++ [.work m] ++ after)
    (hw : w.spot = (u :: rest, .expression e :: left)) (h : E.Reaches before calls r (.writing w))
    (hact : Task.Carries E.setting r.state s m r.task t (.writing w) (some .here) t') :
    Comes moves (u :: rest, .expression e :: left)
      (lexicalForm (E.context.eval? E.setting.functions e u r.state).1)
  | query {u : Solution} {rest : List Solution} {part : TemplatePart} {left : List TemplatePart}
    {told : List SinkCall} (h : E.Runs moves u rest part left told none) :
    Comes moves (u :: rest, part :: left) (String.join (told.filterMap SinkCall.text?))
  | nameless {u : Solution} {rest : List Solution} {call : CallPlan} {left : List TemplatePart}
    (h : call.name? u = none) : Comes moves (u :: rest, .call call :: left) ""

/-- What a line comes to: its parts come to texts of their own, one behind the other. -/
def Tells (moves : List RunMove) (line : List Solution × List TemplatePart) (text : String) : Prop :=
  ∃ texts, List.Forall₂ (E.Comes moves) (TemplatePlan.spots line.1 line.2 []) texts ∧
    text = String.join texts

/-- What is left behind the parts of a solution's line that are still to come. -/
abbrev behind (parts : List TemplatePart) (rest : List Solution) : List TemplatePart :=
  parts ++ TemplatePlan.affix (E.template.closing rest.isEmpty)

/-! ### The form on its way -/

/-- The lines of all solutions but some have come to words. -/
def HasTold (moves : List RunMove) (words : List String) (isFirst : Bool) (rest : List Solution) :
    Prop :=
  ∃ done, E.template.lines true E.input.solutions = done ++ E.template.lines isFirst rest ∧
    List.Forall₂ (E.Tells moves) done words

/-- The lines of the solutions before one have come to words, and the parts of its own line in front of
some to a text. -/
def HasSpelt (moves : List RunMove) (words : List String) (u : Solution) (rest : List Solution)
    (text : String) (parts : List TemplatePart) : Prop :=
  ∃ done said texts, E.template.lines true E.input.solutions =
      done ++ (u :: rest, said ++ E.behind parts rest) :: E.template.lines false rest ∧
    List.Forall₂ (E.Tells moves) done words ∧
    List.Forall₂ (E.Comes moves) (TemplatePlan.spots (u :: rest) said (E.behind parts rest)) texts ∧
    text = String.join texts

/-- How a form stands after some moves, and what it has told its sink. -/
inductive Stands (moves : List RunMove) : List SinkCall → Run → Task → Prop where
  | between {isFirst : Bool} {rest : List Solution} {words : List String} {r : Run}
    (h : E.HasTold moves words isFirst rest) :
    Stands moves (words.map .text) r (.writing (E.writing isFirst rest none))
  | within {isFirst : Bool} {u : Solution} {rest : List Solution} {words : List String}
    {text : String} {parts : List TemplatePart} {r : Run}
    (h : E.HasSpelt moves words u rest text parts) :
    Stands moves (words.map .text) r (.writing (E.writing isFirst (u :: rest) (some (text, parts))))
  | nesting {isFirst : Bool} {u : Solution} {rest : List Solution} {words : List String}
    {text : String} {parts : List TemplatePart} {part : TemplatePart} {before below : List RunMove}
    {calls told : List SinkCall} {w : Writing} {sink : SinkId} {begun inner : Task} {r₁ r : Run}
    (h : E.HasSpelt moves words u rest text (part :: parts))
    (hmoves : moves = before ++ below)
    (htask : part.task? E.context E.input u sink = some begun)
    (hspot : w.spot = (u :: rest, E.behind parts rest))
    (hbegun : E.Reaches before calls r₁ (.nesting w sink begun))
    (hnone : r₁.state.output sink = [])
    (hbelow : r₁.Carries E.setting sink begun below told r inner)
    (htold : r.state.output sink = told) :
    Stands moves (words.map .text) r
      (.nesting (E.writing isFirst (u :: rest) (some (text, parts))) sink inner)
  | ended {words : List String} {r : Run} (h : E.HasTold moves words false []) :
    Stands moves (words.map .text) r (.finished none)
  | failed {u : Solution} {rest : List Solution} {part : TemplatePart} {left : List TemplatePart}
    {told : List SinkCall} {e : RunError} {words : List String} {r : Run}
    (hu : u ∈ E.input.solutions) (hpart : part ∈ E.template.parts)
    (h : E.Runs moves u rest part left told (some e)) :
    Stands moves (words.map .text) r (.finished (some e))

variable {E} {moves more : List RunMove} {calls told : List SinkCall} {r : Run} {t t' : Task}
  {u : Solution} {rest : List Solution} {part : TemplatePart} {parts left : List TemplatePart}
  {o : Outcome} {text : String} {words : List String} {line : List Solution × List TemplatePart}
  {isFirst : Bool} {s : RunState}

/-! What has come about in some moves has come about in more. -/

theorem Runs.append (h : E.Runs moves u rest part left told o) (more : List RunMove) :
    E.Runs (moves ++ more) u rest part left told o := by
  obtain ⟨before, below, after, calls, w, sink, begun, r₁, r₂, rfl, h⟩ := h
  exact ⟨before, below, after ++ more, calls, w, sink, begun, r₁, r₂, List.append_assoc .., h⟩

theorem Comes.append (h : E.Comes moves line text) (more : List RunMove) :
    E.Comes (moves ++ more) line text := by
  cases h with
  | expression hmoves hw h hact =>
    subst hmoves
    exact .expression (List.append_assoc ..) hw h hact
  | query h => exact .query (h.append more)
  | nameless h => exact .nameless h

theorem Tells.append (h : E.Tells moves line text) (more : List RunMove) :
    E.Tells (moves ++ more) line text := by
  obtain ⟨texts, htexts, rfl⟩ := h
  exact ⟨texts, htexts.imp fun _ _ h => h.append more, rfl⟩

theorem HasTold.append (h : E.HasTold moves words isFirst rest) (more : List RunMove) :
    E.HasTold (moves ++ more) words isFirst rest := by
  obtain ⟨done, hlines, hdone⟩ := h
  exact ⟨done, hlines, hdone.imp fun _ _ h => h.append more⟩

theorem HasSpelt.append (h : E.HasSpelt moves words u rest text parts) (more : List RunMove) :
    E.HasSpelt (moves ++ more) words u rest text parts := by
  obtain ⟨done, said, texts, hlines, hdone, hsaid, htext⟩ := h
  exact ⟨done, said, texts, hlines, hdone.imp fun _ _ h => h.append more,
    hsaid.imp fun _ _ h => h.append more, htext⟩

/-- What others do leaves a form as it stands, if it leaves alone the query that the form waits for. -/
theorem Stands.others {r' : Run} (h : E.Stands moves calls r t)
    (hbelow : ∀ w sink inner, t = .nesting w sink inner →
      r'.state.output sink = r.state.output sink ∧ ∀ (r₁ : Run) begun below told,
        r₁.Carries E.setting sink begun below told r inner →
        r₁.Carries E.setting sink begun (below ++ more) told r' inner) :
    E.Stands (moves ++ more) calls r' t := by
  cases h with
  | between h => exact .between (h.append more)
  | within h => exact .within (h.append more)
  | nesting h hmoves htask hspot hbegun hnone hcarries htold =>
    obtain ⟨hsame, hgoes⟩ := hbelow _ _ _ rfl
    exact .nesting (h.append more) (hmoves ▸ List.append_assoc ..) htask hspot hbegun hnone
      (hgoes _ _ _ _ hcarries) (hsame.trans htold)
  | ended h => exact .ended (h.append more)
  | failed hu hpart h => exact .failed hu hpart (h.append more)

/-! ### Lines -/

/-- No line has come to a word yet. -/
theorem hasTold_nil : E.HasTold moves [] true E.input.solutions :=
  ⟨[], (List.nil_append _).symm, .nil⟩

/-- A line begins with what stands before its parts. -/
theorem HasTold.spell (h : E.HasTold moves words isFirst (u :: rest)) {texts : List String}
    (htexts : List.Forall₂ (E.Comes moves)
      (TemplatePlan.spots (u :: rest) (TemplatePlan.affix (E.template.opening isFirst))
        (E.behind E.template.parts rest)) texts) :
    E.HasSpelt moves words u rest (String.join texts) E.template.parts := by
  obtain ⟨done, hlines, hdone⟩ := h
  rw [TemplatePlan.lines, List.append_assoc] at hlines
  exact ⟨done, _, texts, hlines, hdone, htexts, rfl⟩

/-- A line goes on with its next part. -/
theorem HasSpelt.spell (h : E.HasSpelt moves words u rest text (part :: parts)) {more : String}
    (hpart : E.Comes moves (u :: rest, part :: E.behind parts rest) more) :
    E.HasSpelt moves words u rest (text ++ more) parts := by
  obtain ⟨done, said, texts, hlines, hdone, hsaid, rfl⟩ := h
  have hspelt : said ++ E.behind (part :: parts) rest = said ++ [part] ++ E.behind parts rest :=
    List.append_cons ..
  rw [hspelt] at hlines
  refine ⟨done, said ++ [part], texts ++ [more], hlines, hdone, ?_, ?_⟩
  · rw [TemplatePlan.spots_append]
    exact List.rel_append hsaid (.cons hpart .nil)
  · rw [String.join_append, String.join_cons, String.join_nil, String.append_empty]

/-- A line ends with what stands behind its parts. -/
theorem HasSpelt.tell (h : E.HasSpelt moves words u rest text []) {texts : List String}
    (htexts : List.Forall₂ (E.Comes moves) (TemplatePlan.spots (u :: rest)
      (TemplatePlan.affix (E.template.closing rest.isEmpty)) []) texts) :
    E.HasTold moves (words ++ [text ++ String.join texts]) false rest := by
  obtain ⟨done, said, before, hlines, hdone, hsaid, rfl⟩ := h
  refine ⟨done ++ [_], hlines.trans (List.append_cons ..), List.rel_append hdone (.cons ?_ .nil)⟩
  refine ⟨before ++ texts, ?_, (String.join_append ..).symm⟩
  rw [TemplatePlan.spots_append, List.append_nil]
  exact List.rel_append hsaid htexts

/-- Where a line waits for a query there is a part of the template. -/
theorem HasSpelt.mem (h : E.HasSpelt moves words u rest text (part :: parts))
    (hpart : ∀ e, part ≠ .expression e) : u ∈ E.input.solutions ∧ part ∈ E.template.parts := by
  obtain ⟨done, said, texts, hlines, -⟩ := h
  exact TemplatePlan.mem_of_mem_lines hpart (List.mem_append_right said List.mem_cons_self)
    (hlines ▸ List.mem_append_right done List.mem_cons_self)

/-! ### Acts -/

section Acts

variable {tree : Task} {m : Move} {spoken : List SinkCall}

/-- An expression around the parts that the form evaluates in one of its acts. -/
theorem comes_affix (left : List TemplatePart) {w : Writing}
    (hreach : E.Reaches moves calls r (.writing w))
    (hact : Task.Carries E.setting r.state s m r.task tree (.writing w) (some .here) t')
    (e : Option Expression) (hspot : w.spot = (u :: rest, TemplatePlan.affix e ++ left)) :
    ∃ texts, List.Forall₂ (E.Comes (moves ++ [.work m]))
        (TemplatePlan.spots (u :: rest) (TemplatePlan.affix e) left) texts ∧
      (E.context.textOf E.setting.functions e u r.state).1 = String.join texts := by
  cases e with
  | none => exact ⟨[], .nil, rfl⟩
  | some e =>
    refine ⟨_, .cons (.expression (List.append_nil _).symm hspot hreach hact) .nil, ?_⟩
    rw [Context.textOf_some, String.join_cons, String.join_nil, String.append_empty]

theorem act_writing {setting : Setting} {w : Writing} {k : Move} {s₀ : RunState}
    (h : (Task.writing w).step setting k s₀ = some (t', s)) :
    k = .here ∧ w.advance setting s₀ = (t', s) := by
  cases k with
  | here => exact ⟨rfl, Option.some.inj h⟩
  | item | inside => cases h

/-- What a form has told its sink does not change in an act that leaves the sink alone. -/
theorem spoken_eq_nil {sink : SinkId} {s₀ : RunState}
    (hw : s.output sink = s₀.output sink ++ spoken) (h : s.output sink = s₀.output sink) :
    spoken = [] := List.append_right_eq_self.mp (hw.symm.trans h)

theorem advance_opening (E : TemplateRun) (isFirst : Bool) (u : Solution) (rest : List Solution)
    (s : RunState) : ∃ scopes, (E.writing isFirst (u :: rest) none).advance E.setting s =
      (.writing (E.writing isFirst (u :: rest)
        (some ((E.context.textOf E.setting.functions (E.template.opening isFirst) u s).1,
          E.template.parts))), { s with scopes }) := by
  obtain ⟨scopes, hs⟩ :=
    E.context.isScoped_textOf E.setting.functions u (E.template.opening isFirst) s
  exact ⟨scopes, Prod.ext rfl hs⟩

theorem advance_expression (E : TemplateRun) (isFirst : Bool) (u : Solution) (rest : List Solution)
    (text : String) (e : Expression) (parts : List TemplatePart) (s : RunState) :
    ∃ scopes, (E.writing isFirst (u :: rest) (some (text, .expression e :: parts))).advance
      E.setting s = (.writing (E.writing isFirst (u :: rest)
        (some (text ++ (E.context.textOf E.setting.functions (some e) u s).1, parts))),
        { s with scopes }) := by
  obtain ⟨scopes, hs⟩ := E.context.isScoped_textOf E.setting.functions u (some e) s
  exact ⟨scopes, Prod.ext rfl hs⟩

theorem advance_nameless (E : TemplateRun) (isFirst : Bool) {u : Solution} (rest : List Solution)
    (text : String) {call : CallPlan} (h : call.name? u = none) (parts : List TemplatePart)
    (s : RunState) : (E.writing isFirst (u :: rest) (some (text, .call call :: parts))).advance
      E.setting s = (.writing (E.writing isFirst (u :: rest) (some (text, parts))), s) := by
  simp only [Writing.advance, h]
  rfl

theorem advance_query (E : TemplateRun) (isFirst : Bool) {u : Solution} (rest : List Solution)
    (text : String) {part : TemplatePart} (parts : List TemplatePart) {s : RunState} {begun : Task}
    (h : part.task? E.context E.input u s.nextSink = some begun) :
    (E.writing isFirst (u :: rest) (some (text, part :: parts))).advance E.setting s =
      (.nesting (E.writing isFirst (u :: rest) (some (text, parts))) s.nextSink begun,
        { s with nextSink := s.nextSink + 1 }) := by
  cases part with
  | expression e => cases h
  | plan q =>
    obtain rfl := Option.some.inj h
    rfl
  | call call =>
    obtain ⟨name, hname, rfl⟩ := Option.map_eq_some_iff.mp h
    simp only [Writing.advance, hname]
    rfl

theorem advance_word (E : TemplateRun) (isFirst : Bool) (u : Solution) (rest : List Solution)
    (text : String) (s : RunState) :
    ∃ s', (E.writing isFirst (u :: rest) (some (text, []))).advance E.setting s =
        (.writing (E.writing false rest none), s') ∧
      s'.output E.context.sink = s.output E.context.sink ++ [.text (text ++
        (E.context.textOf E.setting.functions (E.template.closing rest.isEmpty) u s).1)] := by
  obtain ⟨scopes, hs⟩ :=
    E.context.isScoped_textOf E.setting.functions u (E.template.closing rest.isEmpty) s
  have hwritten : (E.context.write (.text (text ++ (E.context.textOf E.setting.functions
      (E.template.closing rest.isEmpty) u s).1)) { s with scopes }).2.output E.context.sink =
        s.output E.context.sink ++ [.text (text ++ (E.context.textOf E.setting.functions
          (E.template.closing rest.isEmpty) u s).1)] := E.context.output_write _ _
  rw [← hs] at hwritten
  cases rest with
  | nil => exact ⟨_, rfl, hwritten⟩
  | cons => exact ⟨_, rfl, hwritten⟩

/-- A part is an expression, or a call without a name, or there is a query to run for it. -/
theorem part_cases (E : TemplateRun) (u : Solution) (part : TemplatePart) (sink : SinkId) :
    (∃ e, part = .expression e) ∨ (∃ call, part = .call call ∧ call.name? u = none) ∨
      ∃ begun, part.task? E.context E.input u sink = some begun := by
  cases part with
  | expression e => exact .inl ⟨e, rfl⟩
  | plan q => exact .inr (.inr ⟨_, rfl⟩)
  | call call =>
    cases hname : call.name? u with
    | none => exact .inr (.inl ⟨call, rfl, hname⟩)
    | some name => exact .inr (.inr ⟨_, congrArg (Option.map _) hname⟩)

/-- **A form that is at work goes on with its lines.** -/
theorem Stands.write {w : Writing} (h : E.Stands moves calls r (.writing w))
    (hr : r.IsSealed) (hreach : E.Reaches moves calls r (.writing w))
    (hact : Task.Carries E.setting r.state s m r.task tree (.writing w) (some .here) t')
    (hw : s.output E.context.sink = r.state.output E.context.sink ++ spoken) :
    E.Stands (moves ++ [.work m]) (calls ++ spoken) { r with task := tree, state := s } t' := by
  have hadvance := (act_writing hact.step_own).2
  have hsame (scopes : Scopes) (hs : s = { r.state with scopes }) : spoken = [] :=
    spoken_eq_nil hw (by rw [hs]; rfl)
  cases h with
  | @between isFirst rest words _ h =>
    replace h := h.append [.work m]
    cases rest with
    | nil =>
      obtain ⟨rfl, rfl⟩ := Prod.mk.inj hadvance
      rw [hsame r.state.scopes rfl, List.append_nil]
      exact .ended h
    | cons u rest =>
      obtain ⟨scopes, hopening⟩ := advance_opening E isFirst u rest r.state
      rw [hopening] at hadvance
      obtain ⟨rfl, rfl⟩ := Prod.mk.inj hadvance
      obtain ⟨texts, htexts, htext⟩ := comes_affix (E.behind E.template.parts rest) hreach hact
        (E.template.opening isFirst) (congrArg (u :: rest, ·) (List.append_assoc ..))
      rw [hsame scopes rfl, List.append_nil, htext]
      exact .within (h.spell htexts)
  | @within isFirst u rest words text parts _ h =>
    replace h := h.append [.work m]
    cases parts with
    | nil =>
      obtain ⟨s', hword, houtput⟩ := advance_word E isFirst u rest text r.state
      rw [hword] at hadvance
      obtain ⟨rfl, rfl⟩ := Prod.mk.inj hadvance
      obtain ⟨more, hmore, htext⟩ := comes_affix [] hreach hact
        (E.template.closing rest.isEmpty) (congrArg (u :: rest, ·) (List.append_nil _).symm)
      rw [List.append_cancel_left (hw.symm.trans houtput), htext]
      have hstands := Stands.between (r := { r with task := tree, state := s' }) (h.tell hmore)
      rwa [List.map_append] at hstands
    | cons part parts =>
      rcases part_cases E u part r.state.nextSink with ⟨e, rfl⟩ | ⟨call, rfl, hname⟩ | ⟨begun, hbegun⟩
      · obtain ⟨scopes, hexpression⟩ := advance_expression E isFirst u rest text e parts r.state
        rw [hexpression] at hadvance
        obtain ⟨rfl, rfl⟩ := Prod.mk.inj hadvance
        rw [hsame scopes rfl, List.append_nil, Context.textOf_some]
        exact .within (h.spell (.expression (List.append_nil _).symm rfl hreach hact))
      · rw [advance_nameless E isFirst rest text hname parts r.state] at hadvance
        obtain ⟨rfl, rfl⟩ := Prod.mk.inj hadvance
        rw [hsame r.state.scopes rfl, List.append_nil, ← String.append_empty (s := text)]
        exact .within (h.spell (.nameless hname))
      · -- the sink that the query gets is new, so there is nothing in it
        rw [advance_query E isFirst rest text parts hbegun] at hadvance
        obtain ⟨rfl, rfl⟩ := Prod.mk.inj hadvance
        rw [spoken_eq_nil hw rfl, List.append_nil]
        have hnone := hr.fresh r.state.nextSink (Nat.le_refl _)
        have hwithin := hact.isFinished_or_within.resolve_left nofun
        exact .nesting h (List.append_nil _).symm hbegun rfl (hreach.own hact hw) hnone
          (.start ((Task.within_nesting _ _ begun).trans hwithin)) hnone

/-- A query inside the text leaves the sink of the form alone. -/
theorem avoids_of_reaches {w : Writing} {sink : SinkId} {inner : Task} (hr : r.IsSealed)
    (hreach : E.Reaches moves calls r (.nesting w sink inner)) (hcontext : w.context = E.context) :
    inner.Avoids E.context.sink := by
  have hwithin := hreach.isFinished_or_within.resolve_left nofun
  obtain ⟨own, hsealed⟩ := hr.task.within hwithin
  obtain rfl : E.context.sink = own :=
    hcontext ▸ hsealed.writesTo.own w.context (List.mem_singleton.mpr rfl)
  have hinner : inner.WritesTo sink := hsealed.writesTo.inside (if_pos rfl)
  exact hinner.avoids (List.nodup_cons.mp hsealed.nodup).1

/-- **A form that waits for a query goes on with it, or with its text.** -/
theorem Stands.gather {w : Writing} {sink : SinkId} {inner : Task} {k : Move}
    (h : E.Stands moves calls r (.nesting w sink inner)) (hr : r.IsSealed)
    (hreach : E.Reaches moves calls r (.nesting w sink inner))
    (hact : Task.Carries E.setting r.state s m r.task tree (.nesting w sink inner) (some k) t')
    (hw : s.output E.context.sink = r.state.output E.context.sink ++ spoken) :
    E.Stands (moves ++ [.work m]) (calls ++ spoken) { r with task := tree, state := s } t' := by
  have hstep := hact.step_own
  cases h with
  | @nesting isFirst u rest words text parts part before below _ told w₁ _ begun _ r₁ _ h hmoves
      htask hspot hbegun hnone hbelow htold =>
    replace h := h.append [.work m]
    cases k with
    | here =>
      rw [Task.step, Option.ite_none_right_eq_some, Option.some.injEq] at hstep
      obtain ⟨hover, hcollect⟩ := hstep
      cases inner with
      | finished o =>
        have hruns : E.Runs (moves ++ [.work m]) u rest part (E.behind parts rest) told o :=
          ⟨before, below, [.work m], _, w₁, sink, begun, r₁, r, hmoves ▸ rfl, htask, hspot, hbegun,
            hnone, hbelow⟩
        cases o with
        | some e =>
          obtain ⟨rfl, rfl⟩ := Prod.mk.inj hcollect
          rw [spoken_eq_nil hw rfl, List.append_nil]
          obtain ⟨hu, hpart⟩ := h.mem fun e heq => by
            subst heq
            cases htask
          exact .failed hu hpart hruns
        | none =>
          obtain ⟨rfl, rfl⟩ := Prod.mk.inj hcollect
          rw [spoken_eq_nil hw rfl, List.append_nil]
          have hspelt := h.spell (.query hruns)
          rw [← Collected.text_ofCalls_eq_join, ← htold] at hspelt
          exact .within hspelt
      | _ => cases hover
    | item => cases hstep
    | inside index m' =>
      have hindex : index = 0 := by
        obtain ⟨_, _, hi, -⟩ := Task.step_inside_iff.mp hstep
        exact (Option.ite_none_right_eq_some.mp hi).1
      subst hindex
      obtain ⟨inner', hinner, rfl⟩ := hact.lower rfl
      have hmove := hinner.step_own
      obtain ⟨more, -, hmore⟩ := (Task.inner_step hmove).record.exists_body sink
      have hspares : r.state.Spares (· = E.context.sink) s :=
        Task.spares_step hmove fun _ heq => heq ▸ avoids_of_reaches hr hreach rfl
      rw [spoken_eq_nil hw (hspares.output _ rfl), List.append_nil]
      refine .nesting h ?_ htask hspot hbegun hnone (hbelow.own hinner hmore) ?_
      · rw [hmoves, List.append_assoc]
      · rw [← htold]
        exact hmore

end Acts

/-- **However far a form has come, it stands at some point of its lines.** -/
theorem stands (hrun : E.run.IsSealed) (h : E.Reaches moves calls r t) : E.Stands moves calls r t := by
  induction h with
  | start => exact .between hasTold_nil
  | close _ ih =>
    exact ih.others fun w sink inner _ => ⟨rfl, fun r₁ begun below told h => h.close⟩
  | others h hm ih =>
    refine ih.others fun w sink inner heq => ?_
    subst heq
    have hspares := hm.spares (h.isSealed hrun).task
    refine ⟨hspares.output sink List.mem_cons_self, fun r₁ begun below told h => h.others ?_⟩
    exact hm.lower_none (Task.within_nesting w sink inner)
  | @own _ _ _ _ t _ _ k _ _ h hm hw ih =>
    have hr := h.isSealed hrun
    cases t with
    | writing w =>
      obtain ⟨rfl, -⟩ := act_writing hm.step_own
      exact ih.write hr h hm hw
    | nesting w sink inner => exact ih.gather hr h hm hw
    | finished o =>
      have hstep := hm.step_own
      cases k <;> cases hstep
    | _ => cases ih

/-! ### The end of a form -/

variable (E) in
/-- The form can be brought to its end from wherever it has come to the task. -/
def CanEnd (t : Task) : Prop :=
  ∀ moves calls r, E.Reaches moves calls r t →
    ∃ more spoken r', E.Reaches (moves ++ more) (calls ++ spoken) r' (.finished none)

variable (E) in
/-- Every query that the form waits for can be brought to an end without an error. -/
def QueriesEnd : Prop :=
  ∀ moves calls r w sink inner, E.Reaches moves calls r (.nesting w sink inner) →
    ∃ more spoken r', r.Carries E.setting E.context.sink (.nesting w sink inner) more spoken r'
      (.nesting w sink (.finished none))

theorem CanEnd.of_carries
    (h : ∀ moves calls r, E.Reaches moves calls r t → ∃ more spoken r' t',
      r.Carries E.setting E.context.sink t more spoken r' t' ∧ E.CanEnd t') : E.CanEnd t := by
  intro moves calls r hreach
  obtain ⟨more, spoken, r', t', hcarries, hend⟩ := h moves calls r hreach
  obtain ⟨more', spoken', r'', hover⟩ := hend _ _ _ (hreach.trans hcarries)
  rw [List.append_assoc, List.append_assoc] at hover
  exact ⟨_, _, _, hover⟩

theorem canEnd_finished : E.CanEnd (.finished none) := fun moves calls r h =>
  ⟨[], [], r, by rwa [List.append_nil, List.append_nil]⟩

/-- A form that is at work can always go on. -/
theorem CanEnd.of_advance {w : Writing} (h : ∀ s, E.CanEnd (w.advance E.setting s).1) :
    E.CanEnd (.writing w) := .of_carries fun moves calls r hreach => by
  have hwithin := hreach.isFinished_or_within.resolve_left nofun
  have hstep : (Task.writing w).step E.setting .here r.state =
      some ((w.advance E.setting r.state).1, (w.advance E.setting r.state).2) := rfl
  obtain ⟨more, spoken, r', hcarries⟩ := Run.exists_carries (σ := E.context.sink) hwithin hstep
  exact ⟨more, spoken, r', _, hcarries, h r.state⟩

/-- A form that waits for a query can go on when the query is over. -/
theorem CanEnd.of_collect (hqueries : E.QueriesEnd) {isFirst : Bool} {solutions : List Solution}
    {text : String} {parts : List TemplatePart}
    (h : ∀ text, E.CanEnd (.writing (E.writing isFirst solutions (some (text, parts)))))
    (sink : SinkId) (inner : Task) :
    E.CanEnd (.nesting (E.writing isFirst solutions (some (text, parts))) sink inner) :=
  .of_carries fun moves calls r hreach => by
    obtain ⟨more, spoken, r', hover⟩ := hqueries _ _ _ _ _ _ hreach
    have hwithin := hover.isFinished_or_within.resolve_left nofun
    have hstep : (Task.nesting (E.writing isFirst solutions (some (text, parts))) sink
        (.finished none)).step E.setting .here r'.state = some (.writing (E.writing isFirst solutions
          (some (text ++ (Collected.ofCalls (r'.state.output sink)).text, parts))), r'.state) := rfl
    obtain ⟨more', spoken', r'', hcarries⟩ := Run.exists_carries (σ := E.context.sink) hwithin hstep
    exact ⟨_, _, r'', _, hover.trans hcarries, h _⟩

/-- Whatever solutions a form still has before it, it can be brought to its end. -/
theorem canEnd_writing (hqueries : E.QueriesEnd) : ∀ (solutions : List Solution) (isFirst : Bool)
    (current : Option (String × List TemplatePart)),
    E.CanEnd (.writing (E.writing isFirst solutions current))
  | [], _, _ => .of_advance fun _ => canEnd_finished
  | u :: rest, isFirst, current => by
    have ih := canEnd_writing hqueries rest false none
    have hparts : ∀ (parts : List TemplatePart) (text : String),
        E.CanEnd (.writing (E.writing isFirst (u :: rest) (some (text, parts)))) := by
      intro parts
      induction parts with
      | nil =>
        refine fun text => .of_advance fun s => ?_
        obtain ⟨s', hword, -⟩ := advance_word E isFirst u rest text s
        rw [hword]
        exact ih
      | cons part parts ihparts =>
        refine fun text => .of_advance fun s => ?_
        rcases part_cases E u part s.nextSink with ⟨e, rfl⟩ | ⟨call, rfl, hname⟩ | ⟨begun, hbegun⟩
        · obtain ⟨scopes, hexpression⟩ := advance_expression E isFirst u rest text e parts s
          rw [hexpression]
          exact ihparts _
        · rw [advance_nameless E isFirst rest text hname parts s]
          exact ihparts _
        · rw [advance_query E isFirst rest text parts hbegun]
          exact .of_collect hqueries ihparts _ _
    cases current with
    | none =>
      refine .of_advance fun s => ?_
      obtain ⟨scopes, hopening⟩ := advance_opening E isFirst u rest s
      rw [hopening]
      exact hparts _ _
    | some current => exact hparts _ _

theorem Stands.canEnd (hqueries : E.QueriesEnd) (h : E.Stands moves calls r t)
    (ht : ∀ e, t ≠ .finished (some e)) : E.CanEnd t := by
  cases h with
  | between | within => exact canEnd_writing hqueries _ _ _
  | nesting => exact .of_collect hqueries (fun _ => canEnd_writing hqueries _ _ _) _ _
  | ended => exact canEnd_finished
  | failed => exact absurd rfl (ht _)

/-- **The text of one template.**  Follow a `TEMPLATE` form in any run from its beginning: whatever the
run does, the form is on its way, or it has come to its end.  If no query inside has failed then, it
has told its sink one text for each solution and nothing else, and these are what the lines of the
template come to; otherwise it ends with the error of such a query.  And however far it has come, it
can be brought to its end if the queries that it waits for can be. -/
theorem tells_line_by_line {state : RunState}
    (hfresh : ∀ sink, state.nextSink ≤ sink → state.output sink = []) (limit : Nat) (plan : Plan)
    (input : Sequence) {earlier : List RunMove}
    (hreplay : (Run.start (state.renew limit) plan input).replay E.setting earlier = some E.run)
    (hform : E.form.Within E.run.task) :
    (∀ moves r, E.run.replay E.setting moves = some r → (∃ calls t, E.Reaches moves calls r t) ∨
      ∃ before after calls r₁ o, moves = before ++ after ∧
        E.Reaches before calls r₁ (.finished o)) ∧
    (∀ moves calls r o, E.Reaches moves calls r (.finished o) →
      (∃ words, o = none ∧ calls = words.map .text ∧ words.length = E.input.size ∧
        List.Forall₂ (E.Tells moves) (E.template.lines true E.input.solutions) words) ∨
      ∃ u ∈ E.input.solutions, ∃ part ∈ E.template.parts, ∃ rest left told e,
        o = some e ∧ E.Runs moves u rest part left told (some e)) ∧
    (E.QueriesEnd → ∀ moves calls r t, E.Reaches moves calls r t →
      (∀ e, t ≠ .finished (some e)) →
      ∃ more spoken r', E.Reaches (moves ++ more) (calls ++ spoken) r' (.finished none)) := by
  obtain ⟨_, hcarries, -⟩ := Run.carries_replay (σ := E.context.sink) hreplay
  have hrun : E.run.IsSealed := hcarries.isSealed (Run.isSealed_start plan input hfresh)
  refine ⟨fun moves r hmoves => Run.exists_carries_of_replay hform hmoves,
    fun moves calls r o hreach => ?_, fun hqueries moves calls r t hreach ht => ?_⟩
  · have hstands := stands hrun hreach
    cases hstands with
    | @ended words _ h =>
      obtain ⟨done, hlines, hdone⟩ := h
      rw [TemplatePlan.lines, List.append_nil] at hlines
      rw [← hlines] at hdone
      refine .inl ⟨words, rfl, rfl, ?_, hdone⟩
      rw [← hdone.length_eq, TemplatePlan.length_lines]
      rfl
    | @failed u rest part left told e _ _ hu hpart hruns =>
      exact .inr ⟨u, hu, part, hpart, rest, left, told, e, rfl, hruns⟩
  · exact (stands hrun hreach).canEnd hqueries ht _ _ _ hreach

/-! ### A list of letters -/

/-- A query without clauses that is a template. -/
def templatePlan (name : Option Iri) (template : TemplatePlan) : Plan :=
  ⟨name, none, none, [], [], none, [], .template (.template template)⟩

/-- The name of a query that says one thing only. -/
def shout : Iri := ⟨"urn:shout"⟩

/-- A list of letters, each with itself in brackets and with a call behind it; what is called by a
letter has no name. -/
def lettersTemplate : TemplatePlan :=
  ⟨some (.literal (.simple "[")), [.expression (.var ⟨"x"⟩),
    .plan (templatePlan none ⟨some (.literal (.simple "(")), [.expression (.var ⟨"x"⟩)], none,
      some (.literal (.simple ")"))⟩),
    .call ⟨.iri shout, none⟩, .call ⟨.var ⟨"x"⟩, none⟩],
    some (.literal (.simple ", ")), some (.literal (.simple "]"))⟩

/-- A state in which the query with the name is registered. -/
def shoutingState : RunState :=
  { RunState.start 1 with
    registry := (QueryRegistry.empty.register shout (templatePlan (some shout)
      ⟨none, [.expression (.literal (.simple "!"))], none, none⟩)).2 }

/-- Two letters. -/
def twoLetters : Sequence :=
  .ofLists [⟨"x"⟩] [.ofBindings [(⟨"x"⟩, .ofText "a")], .ofBindings [(⟨"x"⟩, .ofText "b")]]

/-- The form in its run for the two letters. -/
def letters : TemplateRun :=
  let r := Run.start (shoutingState.renew 1) (templatePlan none lettersTemplate) twoLetters
  ⟨Run.bareSetting, { r with task := .writing ⟨r.context, lettersTemplate, twoLetters, true,
    twoLetters.solutions, none⟩ }, r.context, lettersTemplate, twoLetters⟩

/-- The moves of the form for one letter: what comes before, the letter, the query and its text, the
call and its text, the call without a name, and the word. -/
def letterMoves : List RunMove :=
  Run.movesAt [] [.here, .here, .here] ++ Run.movesAt [0] (List.replicate 6 .here) ++
  Run.movesAt [] [.here, .here] ++ Run.movesAt [0] (List.replicate 7 .here) ++
  Run.movesAt [] [.here, .here, .here]

theorem two_letters_told : ∃ moves calls r, letters.Reaches moves calls r (.finished none) ∧
    calls = [.text "[a(a)!", .text ", b(b)!]"] ∧
    List.Forall₂ (letters.Tells moves) (lettersTemplate.lines true twoLetters.solutions)
      ["[a(a)!", ", b(b)!]"] := by
  have hreplay : (Run.start (shoutingState.renew 1) (templatePlan none lettersTemplate)
      twoLetters).replay letters.setting (Run.movesAt [] [.here, .here]) = some letters.run := rfl
  obtain ⟨-, htells, -⟩ := tells_line_by_line (fun _ _ => rfl) 1 _ _ hreplay .self
  have hrun : (letters.run.replay letters.setting
      (letterMoves ++ letterMoves ++ Run.movesAt [] [.here])).any (fun r =>
        r.task.isFinished && r.task.outcome.isNone &&
        ((r.state.output letters.context.sink).drop 1).flatMap SinkCall.pieces ==
          ["[a(a)!", ", b(b)!]"]) = true := by
    decide +kernel
  obtain ⟨r, hr, hfound⟩ := (Option.any_eq_true _ _).mp hrun
  rw [Bool.and_eq_true, beq_iff_eq] at hfound
  obtain ⟨hover, hpieces⟩ := hfound
  obtain ⟨calls, hreach, hcalls⟩ := Run.carries_replay (σ := letters.context.sink) hr
  rw [Task.eq_finished_of_outcome hover] at hreach
  have hcalls' : (r.state.output letters.context.sink).drop 1 = calls := by
    rw [hcalls]
    rfl
  rcases htells _ _ _ _ hreach with ⟨words, -, rfl, -, hwords⟩ | ⟨_, -, _, -, _, _, _, _, heq, -⟩
  · have hsaid : words = ["[a(a)!", ", b(b)!]"] := by
      rw [← hpieces, hcalls', List.flatMap_map]
      exact (List.flatMap_singleton' words).symm
    subst hsaid
    exact ⟨_, _, r, hreach, rfl, hwords⟩
  · cases heq

end TemplateRun

end TripleLoom
