import TripleLoom.Proofs.Expression.Closure
import TripleLoom.Proofs.Run.Footprint
import TripleLoom.Run.Task

/-!
# TripleLoom.Proofs.Run.Keeping — computations that keep to a footprint

A computation keeps to a footprint if whatever state it is run in evolves within that footprint
(`RunM.KeepsTo`).  This is closed under putting computations together, so each of them gets a short
derivation along its text.  Evaluating in a context mints in the context's scope at most, and nothing
at all if the expression does not call `BNODE`.
-/

namespace TripleLoom

open RunM

/-! ### Computations -/

/-- Leaves its mark within a footprint, from whatever state has grown out of a given one. -/
def RunM.KeepsTo {α : Type} (p : Footprint) (base : RunState) (m : RunM α) : Prop :=
  ∀ s, base.Grows s → s.Evolves p (m s).2

namespace RunM.KeepsTo

variable {α β : Type} {p q : Footprint} {base : RunState} {m : RunM α}

theorem pure (a : α) : KeepsTo p base (Pure.pure a) := fun s _ => .refl s

theorem bind {f : α → RunM β} (hm : KeepsTo p base m) (hf : ∀ a, KeepsTo p base (f a)) :
    KeepsTo p base (m >>= f) := fun s hs =>
  (hm s hs).trans (hf _ _ (hs.trans (hm s hs).grows))

theorem get : KeepsTo p base (MonadState.get : RunM RunState) := fun s _ => .refl s

theorem note {e : Event}
    (h : ∀ select inline, e = .evaluated select inline → p.evaluates select inline) :
    KeepsTo p base (RunM.note e) := fun s _ => .note s e h

theorem root : KeepsTo p base (RunM.scopes Scopes.root) := fun s _ => .root s

theorem newSink : KeepsTo p base RunM.newSink := fun s _ => .rest s _ _ _ _

theorem lifecycle (f : Lifecycle → α × Lifecycle) : KeepsTo p base (RunM.lifecycle f) :=
  fun s _ => .rest s _ _ _ _

theorem register (name : Iri) (plan : Plan) : KeepsTo p base (RunM.register name plan) :=
  fun s _ => .rest s _ _ _ _

theorem recordCall (call : CallKey) : KeepsTo p base (RunM.recordCall call) := by
  intro s _
  unfold RunM.recordCall
  split
  · exact .refl s
  · exact .rest s _ _ _ _

theorem mapM {f : α → RunM β} (hf : ∀ a, KeepsTo p base (f a)) :
    ∀ l : List α, KeepsTo p base (l.mapM f)
  | [] => .pure _
  | a :: l => by
    rw [List.mapM_cons]
    exact .bind (hf a) fun _ => .bind (mapM hf l) fun _ => .pure _

theorem forM {f : α → RunM Unit} : ∀ {l : List α}, (∀ a ∈ l, KeepsTo p base (f a)) →
    KeepsTo p base (l.forM f)
  | [], _ => .pure _
  | a :: _, hf => .bind (hf a List.mem_cons_self) fun _ =>
    forM fun b hb => hf b (List.mem_cons_of_mem a hb)

/-- Evaluation is put together from steps that keep to a footprint. -/
theorem isClosed : Eval.IsClosed fun m => KeepsTo p base (RunM.scopes m.run) where
  pure _ := fun s _ => .refl s
  ofOption _ := fun s _ => .refl s
  bind := by
    intro α β m f hm hf s hs
    show s.Evolves p { s with scopes := ((m >>= f).run s.scopes).2 }
    have hfirst : s.Evolves p { s with scopes := (m.run s.scopes).2 } := hm s hs
    have hrest : ∀ a, RunState.Evolves p { s with scopes := (m.run s.scopes).2 }
        { s with scopes := ((f a).run (m.run s.scopes).2).2 } := fun a =>
      hf a { s with scopes := (m.run s.scopes).2 } (hs.trans hfirst.grows)
    rw [Eval.run_bind]
    rcases hrun : m.run s.scopes with ⟨_ | a, scopes⟩ <;> rw [hrun] at hfirst hrest
    · exact hfirst
    · exact hfirst.trans (hrest a)
  attempt hm := fun s hs => hm s hs
  orElse := by
    intro α m n hm hn s hs
    show s.Evolves p { s with scopes := ((m <|> n).run s.scopes).2 }
    have hfirst : s.Evolves p { s with scopes := (m.run s.scopes).2 } := hm s hs
    have hsecond : RunState.Evolves p { s with scopes := (m.run s.scopes).2 }
        { s with scopes := (n.run (m.run s.scopes).2).2 } :=
      hn { s with scopes := (m.run s.scopes).2 } (hs.trans hfirst.grows)
    rw [Eval.run_orElse]
    rcases hrun : m.run s.scopes with ⟨_ | a, scopes⟩ <;> rw [hrun] at hfirst hsecond
    · exact hfirst.trans hsecond
    · exact hfirst

theorem mints {scope : ScopeId} (hp : p.mints scope) (hs : scope < base.scopes.count) :
    Eval.Mints (fun m => KeepsTo p base (RunM.scopes m.run)) scope where
  fresh := fun s _ => .fresh s
  mint label := fun s hg => .mint s label hp (Nat.lt_of_lt_of_le hs hg.scopes)

end RunM.KeepsTo

/-! ### Contexts -/

/-- A context whose scope and fork are there. -/
structure Context.IsIn (c : Context) (s : RunState) : Prop where
  scope : c.scope < s.scopes.count
  fork : c.fork < s.nextFork

theorem Context.IsIn.grows {c : Context} {s t : RunState} (h : c.IsIn s) (hg : s.Grows t) :
    c.IsIn t := ⟨Nat.lt_of_lt_of_le h.scope hg.scopes, Nat.lt_of_lt_of_le h.fork hg.forks⟩

section Contexts

variable {p : Footprint} {base : RunState} {c : Context} (functions : FunctionRegistry)
  (u : Solution)

namespace Context

theorem keepsTo_eval? (hc : c.IsIn base) {e : Expression}
    (h : e.callsBnode = true → p.mints c.scope) : KeepsTo p base (c.eval? functions e u) :=
  KeepsTo.isClosed.eval _ u fun he => KeepsTo.mints (h he) hc.scope

theorem keepsTo_evalAll? (hc : c.IsIn base) {es : List Expression}
    (h : Expression.callBnode es = true → p.mints c.scope) :
    KeepsTo p base (c.evalAll? functions es u) :=
  KeepsTo.isClosed.each (KeepsTo.isClosed.evalEach _ u fun he => KeepsTo.mints (h he) hc.scope)

theorem keepsTo_textOf (hc : c.IsIn base) {e : Option Expression}
    (h : e.any Expression.callsBnode = true → p.mints c.scope) :
    KeepsTo p base (c.textOf functions e u) := by
  unfold textOf
  split
  · exact .pure _
  · refine .bind (keepsTo_eval? functions u hc h) fun value => ?_
    split <;> exact .pure _

theorem keepsTo_bindAll (hc : c.IsIn base) {e : Expression}
    (h : e.callsBnode = true → p.mints c.scope) (v : Variable) (input : Sequence) :
    KeepsTo p base (c.bindAll functions e v input) := by
  refine .bind (.mapM (fun u => ?_) _) fun _ => .pure _
  refine .bind (keepsTo_eval? functions u hc h) fun value => ?_
  split <;> exact .pure _

theorem keepsTo_bindArguments (hc : c.IsIn base) : ∀ {pairs : List (Variable × Expression)},
    (∀ b ∈ pairs, b.2.callsBnode = true → p.mints c.scope) →
    KeepsTo p base (c.bindArguments functions u pairs)
  | [], _ => .pure _
  | (_, e) :: rest, h => by
    have hrest := keepsTo_bindArguments hc fun b hb => h b (List.mem_cons_of_mem _ hb)
    refine .bind (keepsTo_eval? functions u hc (h _ List.mem_cons_self)) fun value => ?_
    split
    · exact .bind hrest fun _ => .pure _
    · exact hrest

theorem keepsTo_parameters (hc : c.IsIn base) (name : Iri) (plan : Plan)
    {arguments : Option (List Expression)}
    (h : arguments.any Expression.callBnode = true → p.mints c.scope) :
    KeepsTo p base (c.parameters functions name plan arguments u) := by
  unfold parameters
  split
  · exact .pure _
  · exact .pure _
  · exact .pure _
  · split
    · exact .pure _
    · refine .bind (keepsTo_bindArguments functions u hc fun b hb he => h ?_) fun _ => .pure _
      exact Expression.callBnode_of_mem (List.of_mem_zip hb).2 he

theorem keepsTo_write (c : Context) (call : SinkCall) : KeepsTo p base (c.write call) :=
  .note fun _ _ he => nomatch he

theorem keepsTo_mint (hc : c.IsIn base) (h : p.mints c.scope) (label : String) :
    KeepsTo p base (c.mint label) :=
  .bind (fun s hs => .mint s label h (Nat.lt_of_lt_of_le hc.scope hs.scopes)) fun _ => .pure _

theorem keepsTo_listNodes (hc : c.IsIn base) (h : p.lists c.fork c.size) (list : Nat) :
    KeepsTo p base (c.listNodes list) := by
  intro s hs
  unfold listNodes
  cases hn : s.lists.lookup (c.fork, list) with
  | some nodes => exact .refl s
  | none => exact .allocate s list h (hc.grows hs).fork hn

end Context

end Contexts

end TripleLoom
