import TripleLoom.Proofs.Generation.Making
import TripleLoom.Proofs.Generation.Progress

/-!
# TripleLoom.Proofs.Generation.ListNodes — the nodes of lists along a run

The nodes of a list are made for the fork and the list's number when its first piece is written, as
many as the fork has solutions (`Run.HasLists`).  Every execution has a fork of its own, so lists of
different numbers or of different executions share no node, and none is the node of a label.
-/

namespace TripleLoom

open RunM

/-- The nodes of a list, once it was written. -/
def Writeout.nodesOf (w : Writeout) (t : ListTemplate) : List BlankNode :=
  (w.generation.fork.listIn w.after t.id).filterMap Term.blank?

theorem Writeout.isIn_of_mem_sites {w : Writeout} {s : RunState}
    (hin : ∀ c ∈ w.generation.fork :: w.generation.contexts, c.IsIn s) :
    ∀ site ∈ w.generation.sites, site.1.IsIn s ∧ Footprint.all.mints site.1.scope :=
  fun site hs => ⟨hin site.1 (List.mem_cons_of_mem _ (List.of_mem_zip hs).1), trivial⟩

namespace Run

variable {setting : Setting} {acts : List Act} {r r' : Run} {move : RunMove} {e e' : Execution}
  {w w' : Writeout} {t t' : ListTemplate}

/-- The lists of an execution have been made since it has begun, with as many nodes as it has
solutions. -/
def HasLists (setting : Setting) (acts : List Act) (r : Run) : Prop :=
  ∀ e ∈ executions setting acts, ∀ list nodes,
    r.state.lists.lookup (e.state.nextFork, list) = some nodes →
      ∃ first, e.began.scopes.nextFresh ≤ first ∧ nodes = Scopes.listFrom first e.input.size

theorem HasLists.step (h : HasLists setting acts r) (hr : History setting acts r)
    (hs : r.step setting move = some r') :
    HasLists setting (acts ++ (r.act? setting move).toList) r' := by
  obtain ⟨-, ⟨hact, -, hevolves⟩ | ⟨m, u, u', hact, hturning⟩⟩ := step_cases hr.areIn hs
  · rw [hact, Option.toList_none, List.append_nil]
    intro e he list nodes hnodes
    rcases hevolves.exists_allocated hnodes with hold | ⟨_, _, hnone, -⟩
    · exact h e he list nodes hold
    · exact hnone.elim
  · rw [hact, Option.toList_some]
    intro e he list nodes hnodes
    rcases mem_executions_concat.mp he with hold | hnew
    · rcases hturning.evolves.exists_allocated hnodes with
        hbefore | ⟨first, size, ⟨g, hg, hfork, hsize⟩, hfirst, rfl⟩
      · exact h e hold list nodes hbefore
      · -- only the form of the execution itself makes lists for its fork
        obtain ⟨e', he', rfl⟩ := hr.owned u hturning.within g hg
        obtain rfl : e' = e := hr.eq_of_fork he' hold hfork
        exact ⟨first, Nat.le_trans (hr.begun e' he').2.2.grows.fresh hfirst, by rw [← hsize]; rfl⟩
    · -- an execution that begins has a fork for which there are no lists
      obtain ⟨-, hbound, hbegan, -⟩ := Act.execution?_eq_some hnew hturning.turns
      rw [hbegan, e.generates.lists] at hnodes
      exact absurd ((hr.sound.evolves hbound).lists _ (mem_of_lookup hnodes)) (Nat.lt_irrefl _)

section Lists

variable (h : History setting acts r)

include h

/-- The nodes of a list that was written are those of a list for the fork and its number. -/
theorem History.exists_list_of_mem (he : e ∈ executions setting acts) (hw : w ∈ e.writeouts acts)
    {node : BlankNode} (hnode : node ∈ w.nodesOf t) :
    ∃ nodes, r.state.lists.lookup (e.state.nextFork, t.id) = some nodes ∧ .blank node ∈ nodes := by
  obtain ⟨-, heq, -, hafter⟩ := h.of_mem_writeouts he hw
  obtain ⟨term, hterm, hblank⟩ := List.mem_filterMap.mp hnode
  obtain rfl : term = .blank node := by
    cases term <;> cases hblank
    rfl
  rw [heq] at hterm
  cases hlookup : w.after.lists.lookup (e.state.nextFork, t.id) with
  | none =>
    rw [Context.listIn, show w.after.lists.lookup (e.generation.fork.fork, t.id) = none from hlookup]
      at hterm
    cases hterm
  | some nodes =>
    rw [Context.listIn, show w.after.lists.lookup (e.generation.fork.fork, t.id) = some nodes
      from hlookup] at hterm
    exact ⟨nodes, hafter.lists_lookup hlookup, hterm⟩

/-- Lists of different numbers or of different executions share no node. -/
theorem History.disjoint_nodesOf (he : e ∈ executions setting acts) (hw : w ∈ e.writeouts acts)
    (he' : e' ∈ executions setting acts) (hw' : w' ∈ e'.writeouts acts)
    (hne : e = e' → t.id ≠ t'.id) : List.Disjoint (w.nodesOf t) (w'.nodesOf t') := by
  intro node hnode hnode'
  obtain ⟨nodes, hlookup, hmem⟩ := h.exists_list_of_mem he hw hnode
  obtain ⟨nodes', hlookup', hmem'⟩ := h.exists_list_of_mem he' hw' hnode'
  obtain ⟨hfork, hid⟩ := Prod.mk.inj (h.sound.list_eq_of_mem hlookup hlookup' hmem hmem')
  exact hne (h.eq_of_fork he he' hfork) hid

/-- No label stands for a node of a list. -/
theorem History.label_not_mem_nodesOf (he : e ∈ executions setting acts)
    (hw : w ∈ e.writeouts acts) {c : Context} {label : String} {node : BlankNode}
    (hlabel : c.label? w.after label = some node) : node ∉ w.nodesOf t := by
  intro hnode
  obtain ⟨nodes, hlookup, hmem⟩ := h.exists_list_of_mem he hw hnode
  obtain ⟨a, -, hminted⟩ := List.exists_of_findSome?_eq_some hlabel
  obtain ⟨-, -, -, hafter⟩ := h.of_mem_writeouts he hw
  exact h.sound.not_mem_list_of_minted (hafter.extends_scopes _ _ hminted) hlookup hmem

/-- Once an element was written for some solutions its lists are there. -/
theorem HasLists.listIn_eq (hl : HasLists setting acts r) (he : e ∈ executions setting acts)
    (hw : w ∈ e.writeouts acts) (hne : w.generation.sites ≠ []) (ht : t ∈ w.plan.lists) :
    ∃ first, e.began.scopes.nextFresh ≤ first ∧
      w.generation.fork.listIn w.after t.id = Scopes.listFrom first e.input.size := by
  obtain ⟨hmem, heq, -, hafter⟩ := h.of_mem_writeouts he hw
  obtain ⟨hsound, hin⟩ := h.isSound_writeout hmem
  have hsites := Writeout.isIn_of_mem_sites hin
  have hforkIn := hin _ List.mem_cons_self
  obtain ⟨nodes, hlookup⟩ : ∃ nodes,
      w.after.lists.lookup (w.generation.fork.fork, t.id) = some nodes := by
    obtain ⟨site, rest, hcons⟩ := List.exists_cons_of_ne_nil hne
    obtain ⟨hc, hmints⟩ := hsites site (hcons ▸ List.mem_cons_self)
    refine w.plan.makes_writeAll (p := .all) hforkIn trivial hsites (site, 0) ?_
      (TriplesPlan.makes_writeOne_of_list hc hmints site.2 hforkIn trivial ht
        (t.makes_list hc hmints site.2 hforkIn trivial 0)) w.state (.refl _) hsound w.after (.refl _)
    rw [hcons]
    exact List.mem_cons_self
  have hfork : w.generation.fork.fork = e.state.nextFork := by
    rw [heq]
    rfl
  obtain ⟨first, hfirst, rfl⟩ := hl e he t.id nodes (hafter.lists_lookup (hfork ▸ hlookup))
  exact ⟨first, hfirst, by rw [Context.listIn, hlookup]; rfl⟩

/-- Once an element was written there are nodes for all labels that its solutions ask for. -/
theorem HasLists.exists_label (hl : HasLists setting acts r) (he : e ∈ executions setting acts)
    (hw : w ∈ e.writeouts acts) {i : Nat} {c : Context} {u : Solution}
    (hi : w.generation.sites[i]? = some (c, u)) {label : String}
    (hlabel : label ∈ w.plan.askedIn (c.label? w.after) u i) :
    ∃ node, c.label? w.after label = some node := by
  obtain ⟨hmem, heq, -⟩ := h.of_mem_writeouts he hw
  obtain ⟨hsound, hin⟩ := h.isSound_writeout hmem
  obtain ⟨hlt, hsite⟩ := List.getElem?_eq_some_iff.mp hi
  refine w.plan.exists_label (p := .all) (hin _ List.mem_cons_self) trivial
    (Writeout.isIn_of_mem_sites hin) (.refl _) hsound (.refl _)
    (List.mk_mem_zipIdx_iff_getElem?.mpr hi) hlabel fun t ht => ?_
  -- the lists reach to the last solution
  obtain ⟨first, -, hnodes⟩ := hl.listIn_eq h he hw 
    (List.ne_nil_of_length_pos (Nat.lt_of_le_of_lt (Nat.zero_le i) hlt)) ht
  have hsize : w.generation.sites.length ≤ e.input.size := by
    rw [heq, Generation.sites, List.length_zip]
    exact Nat.min_le_right _ _
  show i + 1 < (w.generation.fork.listIn w.after t.id).length
  rw [hnodes, Scopes.listFrom, List.length_append, List.length_map, List.length_range',
    List.length_singleton]
  exact Nat.succ_lt_succ (Nat.lt_of_lt_of_le hlt hsize)

/-- Writing an element gives no node to a label that the solution does not ask for. -/
theorem HasLists.lookup_eq (hl : HasLists setting acts r) (he : e ∈ executions setting acts)
    (hw : w ∈ e.writeouts acts) {i : Nat} {c : Context} {u : Solution}
    (hi : w.generation.sites[i]? = some (c, u)) {label : String}
    (hlabel : label ∉ w.plan.askedIn (c.label? w.after) u i) :
    w.after.scopes.minted.lookup (c.scope, label) =
      w.state.scopes.minted.lookup (c.scope, label) := by
  obtain ⟨-, heq, -⟩ := h.of_mem_writeouts he hw
  refine w.plan.misses_writeAll (fun site hs => ?_) w.state
  obtain ⟨⟨d, v⟩, j⟩ := site
  have hj := List.mk_mem_zipIdx_iff_getElem?.mp hs
  by_cases hij : j = i
  · subst hij
    obtain ⟨rfl, rfl⟩ := Prod.mk.inj (Option.some.inj (hj.symm.trans hi))
    refine ⟨d.label? w.after, fun l hasked => ⟨?_, fun heq => ?_⟩⟩
    · exact Option.isSome_iff_exists.mpr (hl.exists_label h he hw hi hasked)
    · obtain ⟨-, rfl⟩ := Prod.mk.inj heq
      exact hlabel hasked
  · -- the other solutions have scopes of their own
    refine ⟨fun _ => some (.fresh 0), fun l _ => ⟨rfl, fun hkey => hij ?_⟩⟩
    have hcontext : ∀ {k : Nat} {site : Context × Solution}, w.generation.sites[k]? = some site →
        site.1.scope = e.state.scopes.count + 1 + k := fun hk =>
      (e.scope_of_getElem? (List.getElem?_zip_eq_some.mp (heq ▸ hk)).1).1
    have hscopes := (Prod.mk.inj hkey).1
    rw [hcontext hi, show d.scope = _ from hcontext hj] at hscopes
    exact Nat.add_left_cancel hscopes

end Lists

/-- A run from its start is known, tracked, and has lists only as it should. -/
theorem tracked {state : RunState} (hstate : state.IsSound) (limit : Nat) (plan : Plan)
    (input : Sequence) {moves : List RunMove}
    (hreplay : (start (state.renew limit) plan input).replay setting moves = some r)
    (hacts : (start (state.renew limit) plan input).acts setting moves = acts) :
    History setting acts r ∧ Tracks setting acts r ∧ HasLists setting acts r := by
  rw [← hacts]
  refine acts_induction (P := fun acts r => History setting acts r ∧ Tracks setting acts r ∧
    HasLists setting acts r) (fun acts r move r' h hs => ?_) [] _ ?_ hreplay
  · obtain ⟨hr, htracks, hl⟩ := h
    exact ⟨hr.step hs, htracks.step hr hs, hl.step hr hs⟩
  · exact ⟨history_start hstate limit plan input, tracks_start state limit plan input,
      fun _ he => (nomatch he)⟩

end Run

end TripleLoom
