import Mathlib.Data.List.Nodup
import Mathlib.Data.List.Range
import TripleLoom.Proofs.Pipeline.Minting
import TripleLoom.Proofs.Scope.Sharing
import TripleLoom.Proofs.Sequence.Coverage

/-!
# TripleLoom.Proofs.Run.Footprint — how the state of a run evolves

Whatever happens in a run, scopes, nodes and forks are only ever added.  A `Footprint` says where
this may leave its mark: in which scopes labels are minted, for which forks lists are made, and what
the engine is asked to evaluate.  `RunState.Evolves` is the least relation that allows such changes;
what was minted or made before stays as it is, and what lies outside of the footprint does not
change at all.  A state is sound if its scopes form a tree and all its nodes are distinct fresh ones
(`RunState.IsSound`); no change breaks that.
-/

namespace TripleLoom

/-- Where a piece of a run leaves its mark. -/
structure Footprint where
  /-- The scopes in which it mints labels. -/
  mints : ScopeId → Prop
  /-- The forks for which it makes lists, with the sizes of these. -/
  lists : Nat → Nat → Prop
  /-- What it asks the engine to evaluate. -/
  evaluates : Select → Sequence → Prop

namespace Footprint

/-- The footprint of what leaves no mark. -/
def none : Footprint := ⟨fun _ => False, fun _ _ => False, fun _ _ => False⟩

/-- The footprint of whatever happens. -/
def all : Footprint := ⟨fun _ => True, fun _ _ => True, fun _ _ => True⟩

/-- The footprint of what mints labels in some scopes. -/
def minting (scopes : List ScopeId) : Footprint := { none with mints := (· ∈ scopes) }

/-- A footprint that covers another one. -/
structure Le (p q : Footprint) : Prop where
  mints : ∀ scope, p.mints scope → q.mints scope
  lists : ∀ fork size, p.lists fork size → q.lists fork size
  evaluates : ∀ select inline, p.evaluates select inline → q.evaluates select inline

theorem le_all (p : Footprint) : p.Le all :=
  ⟨fun _ _ => trivial, fun _ _ _ => trivial, fun _ _ _ => trivial⟩

end Footprint

/-- The blank node that a term is, if it is one. -/
def Term.blank? : Term → Option BlankNode
  | .blank b => some b
  | _ => none

/-- The number of scopes. -/
def Scopes.count (s : Scopes) : Nat := s.ancestors.size

/-- The changes that what has a footprint makes to the state. -/
inductive RunState.Evolves (p : Footprint) : RunState → RunState → Prop where
  | refl (s : RunState) : Evolves p s s
  | trans {s t u : RunState} : Evolves p s t → Evolves p t u → Evolves p s u
  | root (s : RunState) : Evolves p s { s with scopes := s.scopes.root.2 }
  | child (s : RunState) {parent : ScopeId} (h : parent < s.scopes.count) :
    Evolves p s { s with scopes := (s.scopes.child parent).2 }
  | fresh (s : RunState) : Evolves p s { s with scopes := s.scopes.fresh.2 }
  | mint (s : RunState) {scope : ScopeId} (label : String) (hp : p.mints scope)
      (h : scope < s.scopes.count) : Evolves p s { s with scopes := (s.scopes.mint scope label).2 }
  | allocate (s : RunState) {fork size : Nat} (list : Nat) (hp : p.lists fork size)
      (h : fork < s.nextFork) (hn : s.lists.lookup (fork, list) = none) :
    Evolves p s { s with
      scopes := (s.scopes.allocateList size).2
      lists := ((fork, list), (s.scopes.allocateList size).1) :: s.lists }
  | fork (s : RunState) : Evolves p s { s with nextFork := s.nextFork + 1 }
  | note (s : RunState) (e : Event)
      (h : ∀ select inline, e = .evaluated select inline → p.evaluates select inline) :
    Evolves p s { s with record := e :: s.record }
  | rest (s : RunState) (nextSink : SinkId) (calls : List CallKey) (registry : QueryRegistry)
      (lifecycle : Lifecycle) : Evolves p s { s with nextSink, calls, registry, lifecycle }

/-! ### Scopes one after the other -/

namespace Scopes

variable {s : Scopes} {scope parent : ScopeId} {label : String}

theorem minted_mint_cases (s : Scopes) (scope : ScopeId) (label : String) :
    (s.mint scope label).2 = s ∨ s.node? scope label = none ∧
      (s.mint scope label).2 = { s with
        minted := ((scope, label), .fresh s.nextFresh) :: s.minted
        nextFresh := s.nextFresh + 1 } := by
  unfold mint
  cases h : s.node? scope label with
  | some node => exact .inl rfl
  | none => exact .inr ⟨rfl, rfl⟩

theorem freshAll_eq (n : Nat) : ∀ s : Scopes, s.freshAll n =
    ((List.range' s.nextFresh n).map .fresh, { s with nextFresh := s.nextFresh + n }) := by
  induction n with
  | zero => exact fun s => rfl
  | succ n ih =>
    intro s
    simp only [freshAll, fresh, ih, List.range'_succ, List.map_cons, Nat.add_assoc, Nat.add_comm 1]

/-- The nodes of a list of a given size whose first node has the given number. -/
def listFrom (first size : Nat) : List Term :=
  (List.range' first size).map (fun n => Term.blank (.fresh n)) ++ [Term.nil]

theorem allocateList_eq (s : Scopes) (size : Nat) : s.allocateList size =
    (listFrom s.nextFresh size, { s with nextFresh := s.nextFresh + size }) := by
  simp only [allocateList, freshAll_eq, listFrom, List.map_map]
  rfl

theorem findSome?_eq_of_forall {α β : Type} {f g : α → Option β} : ∀ {l : List α},
    (∀ a ∈ l, f a = g a) → l.findSome? f = l.findSome? g
  | [], _ => rfl
  | a :: l, h => by
    rw [List.findSome?_cons, List.findSome?_cons, h a List.mem_cons_self,
      findSome?_eq_of_forall fun b hb => h b (List.mem_cons_of_mem a hb)]

theorem path_push {x : List ScopeId} (h : scope < s.count) :
    Scopes.path { s with ancestors := s.ancestors.push x } scope = s.path scope := by
  rw [path, path, getD_push h]

end Scopes

namespace RunState

variable {p q : Footprint} {s t : RunState}

/-! ### What stays -/

/-- Scopes, forks and fresh nodes get no fewer. -/
structure Grows (s t : RunState) : Prop where
  scopes : s.scopes.count ≤ t.scopes.count
  forks : s.nextFork ≤ t.nextFork
  fresh : s.scopes.nextFresh ≤ t.scopes.nextFresh

theorem Grows.refl (s : RunState) : s.Grows s := ⟨Nat.le_refl _, Nat.le_refl _, Nat.le_refl _⟩

theorem Grows.trans {u : RunState} (h : s.Grows t) (h' : t.Grows u) : s.Grows u :=
  ⟨Nat.le_trans h.scopes h'.scopes, Nat.le_trans h.forks h'.forks, Nat.le_trans h.fresh h'.fresh⟩

namespace Evolves

theorem mono (hpq : p.Le q) (h : s.Evolves p t) : s.Evolves q t := by
  induction h with
  | refl => exact .refl _
  | trans _ _ ih₁ ih₂ => exact ih₁.trans ih₂
  | root s => exact .root s
  | child s h => exact .child s h
  | fresh s => exact .fresh s
  | mint s label hp h => exact .mint s label (hpq.mints _ hp) h
  | allocate s list hp h hn => exact .allocate s list (hpq.lists _ _ hp) h hn
  | fork s => exact .fork s
  | note s e h => exact .note s e fun select inline he => hpq.evaluates _ _ (h select inline he)
  | rest s => exact .rest s _ _ _ _

theorem grows (h : s.Evolves p t) : s.Grows t := by
  induction h with
  | refl => exact .refl _
  | trans _ _ ih₁ ih₂ => exact ih₁.trans ih₂
  | root s | child s =>
    exact ⟨Nat.le_of_lt (by simp [Scopes.count, Scopes.root, Scopes.child]), Nat.le_refl _,
      Nat.le_refl _⟩
  | fresh s => exact ⟨Nat.le_refl _, Nat.le_refl _, Nat.le_succ _⟩
  | @mint s scope label =>
    rcases s.scopes.minted_mint_cases scope label with he | ⟨-, he⟩ <;> rw [he]
    · exact .refl s
    · exact ⟨Nat.le_refl _, Nat.le_refl _, Nat.le_succ _⟩
  | @allocate s fork size =>
    rw [Scopes.allocateList_eq]
    exact ⟨Nat.le_refl _, Nat.le_refl _, Nat.le_add_right _ _⟩
  | fork s => exact ⟨Nat.le_refl _, Nat.le_succ _, Nat.le_refl _⟩
  | note s | rest s => exact ⟨Nat.le_refl _, Nat.le_refl _, Nat.le_refl _⟩

/-- The way up from a scope stays. -/
theorem path (h : s.Evolves p t) {scope : ScopeId} (hs : scope < s.scopes.count) :
    t.scopes.path scope = s.scopes.path scope := by
  induction h with
  | trans h₁ _ ih₁ ih₂ => rw [ih₂ (Nat.lt_of_lt_of_le hs h₁.grows.scopes), ih₁ hs]
  | root s | child s => exact Scopes.path_push hs
  | @mint s scope label =>
    rcases s.scopes.minted_mint_cases scope label with he | ⟨-, he⟩
    · rw [he]
    · rw [he]; rfl
  | allocate s => rw [Scopes.allocateList_eq]; rfl
  | _ => rfl

/-- What was minted stays. -/
theorem extends_scopes (h : s.Evolves p t) : s.scopes.Extends t.scopes := by
  induction h with
  | trans _ _ ih₁ ih₂ => exact ih₁.trans ih₂
  | @mint s scope label =>
    rcases s.scopes.minted_mint_cases scope label with he | ⟨hnone, he⟩ <;> rw [he]
    · exact .refl _
    · intro k n hk
      have hne : k ≠ (scope, label) := fun hkey => by
        rw [hkey, Scopes.lookup_of_node?_eq_none hnone] at hk
        cases hk
      rw [List.lookup_cons, beq_false_of_ne hne]
      exact hk
  | allocate s => rw [Scopes.allocateList_eq]; exact .refl _
  | _ => exact .refl _

/-- Nothing is minted in a scope that is not in the footprint. -/
theorem minted_eq (h : s.Evolves p t) {scope : ScopeId} (hs : ¬p.mints scope) (label : String) :
    t.scopes.minted.lookup (scope, label) = s.scopes.minted.lookup (scope, label) := by
  induction h with
  | trans _ _ ih₁ ih₂ => rw [ih₂, ih₁]
  | @mint s other l hp =>
    rcases s.scopes.minted_mint_cases other l with he | ⟨-, he⟩ <;> rw [he]
    have hne : (scope, label) ≠ (other, l) := fun hk => hs ((Prod.mk.inj hk).1 ▸ hp)
    rw [List.lookup_cons, beq_false_of_ne hne]
  | allocate s => rw [Scopes.allocateList_eq]
  | _ => rfl

/-- The nodes of a list stay. -/
theorem lists_lookup (h : s.Evolves p t) {k : Nat × Nat} {nodes : List Term}
    (hk : s.lists.lookup k = some nodes) : t.lists.lookup k = some nodes := by
  induction h with
  | trans _ _ ih₁ ih₂ => exact ih₂ (ih₁ hk)
  | @allocate s fork size list _ _ hn =>
    have hne : k ≠ (fork, list) := fun hkey => by rw [hkey, hn] at hk; cases hk
    rw [List.lookup_cons, beq_false_of_ne hne]
    exact hk
  | _ => exact hk

/-- A list that was made meanwhile was made anew for a fork of the footprint. -/
theorem exists_allocated (h : s.Evolves p t) {fork list : Nat} {nodes : List Term}
    (ht : t.lists.lookup (fork, list) = some nodes) :
    s.lists.lookup (fork, list) = some nodes ∨ ∃ first size, p.lists fork size ∧
      s.scopes.nextFresh ≤ first ∧ nodes = Scopes.listFrom first size := by
  induction h with
  | trans h₁ _ ih₁ ih₂ =>
    rcases ih₂ ht with hmid | ⟨first, size, hp, hfirst, hnodes⟩
    · exact ih₁ hmid
    · exact .inr ⟨first, size, hp, Nat.le_trans h₁.grows.fresh hfirst, hnodes⟩
  | @allocate s other size number hp =>
    rw [List.lookup_cons] at ht
    split at ht
    · next hk =>
      obtain ⟨rfl, rfl⟩ := Prod.mk.inj (eq_of_beq hk)
      rw [Scopes.allocateList_eq] at ht
      exact .inr ⟨_, size, hp, Nat.le_refl _, (Option.some.inj ht).symm⟩
    · exact .inl ht
  | _ => exact .inl ht

/-- What was recorded stays recorded, and of evaluations only those of the footprint are added. -/
theorem record (h : s.Evolves p t) : ∃ events, t.record = events ++ s.record ∧
    ∀ select inline, .evaluated select inline ∈ events → p.evaluates select inline := by
  induction h with
  | trans _ _ ih₁ ih₂ =>
    obtain ⟨first, h₁, hp₁⟩ := ih₁
    obtain ⟨second, h₂, hp₂⟩ := ih₂
    refine ⟨second ++ first, by rw [h₂, h₁, List.append_assoc], fun select inline he => ?_⟩
    rcases List.mem_append.mp he with he | he
    · exact hp₂ select inline he
    · exact hp₁ select inline he
  | note s e h =>
    exact ⟨[e], rfl, fun select inline he => h select inline (List.mem_singleton.mp he).symm⟩
  | _ => exact ⟨[], rfl, by simp⟩

end Evolves

/-! ### Soundness -/

/-- All blank nodes that were made for labels and lists. -/
def nodes (s : RunState) : List BlankNode :=
  s.scopes.minted.map (·.2) ++ s.lists.flatMap fun l => l.2.filterMap Term.blank?

/-- A state whose scopes form a tree, in which labels and lists belong to scopes and forks that
exist, and whose nodes are distinct fresh ones. -/
structure IsSound (s : RunState) : Prop where
  descends : ∀ scope < s.scopes.count, (s.scopes.path scope).Pairwise (· > ·)
  tree : ∀ scope < s.scopes.count, ∀ a ∈ s.scopes.path scope,
    s.scopes.path a <:+ s.scopes.path scope
  minted : s.scopes.Bounded
  lists : ∀ l ∈ s.lists, l.1.1 < s.nextFork
  fresh : ∀ node ∈ s.nodes, ∃ n < s.scopes.nextFresh, node = .fresh n
  nodup : s.nodes.Nodup

theorem isSound_start (limit : Nat) : (start limit).IsSound where
  descends := fun _ h => nomatch h
  tree := fun _ h => nomatch h
  minted := fun _ h => nomatch h
  lists := fun _ h => nomatch h
  fresh := fun _ h => nomatch h
  nodup := List.nodup_nil

theorem IsSound.renew (h : s.IsSound) (limit : Nat) : (s.renew limit).IsSound := { h with }

/-- One more scope, with ancestors that are there. -/
theorem IsSound.push (h : s.IsSound) {x : List ScopeId} (hx : ∀ a ∈ x, a < s.scopes.count)
    (hd : x.Pairwise (· > ·)) (ht : ∀ a ∈ x, s.scopes.path a <:+ x) :
    IsSound { s with scopes := { s.scopes with ancestors := s.scopes.ancestors.push x } } := by
  let t : Scopes := { s.scopes with ancestors := s.scopes.ancestors.push x }
  have hcases : ∀ scope < t.count,
      scope < s.scopes.count ∧ t.path scope = s.scopes.path scope ∨
        t.path scope = s.scopes.count :: x := by
    intro scope hscope
    have hlt : scope < s.scopes.ancestors.size + 1 := by simpa [t, Scopes.count] using hscope
    rcases Nat.lt_succ_iff_lt_or_eq.mp hlt with hold | rfl
    · exact .inl ⟨hold, Scopes.path_push hold⟩
    · exact .inr (congrArg (_ :: ·) (by simp [t, Array.getD_eq_getD_getElem?]))
  have hbelow : ∀ scope < s.scopes.count, ∀ a ∈ s.scopes.path scope, a < s.scopes.count := by
    intro scope hscope a ha
    rcases List.mem_cons.mp ha with rfl | ha
    · exact hscope
    · exact Nat.lt_trans (List.rel_of_pairwise_cons (h.descends scope hscope) ha) hscope
  refine ⟨fun scope hscope => ?_, fun scope hscope a ha => ?_, ?_, h.lists, h.fresh, h.nodup⟩
  · rcases hcases scope hscope with ⟨hold, hpath⟩ | hpath
    · exact hpath ▸ h.descends scope hold
    · exact hpath ▸ List.pairwise_cons.mpr ⟨hx, hd⟩
  · rcases hcases scope hscope with ⟨hold, hpath⟩ | hpath
    · show t.path a <:+ t.path scope
      rw [hpath]
      rw [show t.path a = s.scopes.path a from Scopes.path_push (hbelow scope hold a (hpath ▸ ha))]
      exact h.tree scope hold a (hpath ▸ ha)
    · have ha' : a ∈ s.scopes.count :: x := hpath ▸ ha
      show t.path a <:+ t.path scope
      rw [hpath]
      rcases List.mem_cons.mp ha' with rfl | ha'
      · have hself : t.path s.scopes.count = s.scopes.count :: x :=
          congrArg (_ :: ·) (by simp [t, Scopes.count, Array.getD_eq_getD_getElem?])
        exact ⟨[], hself⟩
      · rw [show t.path a = s.scopes.path a from Scopes.path_push (hx a ha')]
        exact (ht a ha').trans (List.suffix_cons _ _)
  · exact fun b hb => (h.minted b hb).trans_le (by simp)

theorem filterMap_listFrom (first size : Nat) :
    (Scopes.listFrom first size).filterMap Term.blank? = (List.range' first size).map .fresh := by
  rw [Scopes.listFrom, List.filterMap_append, List.filterMap_map]
  show List.filterMap (fun n => some (BlankNode.fresh n)) _ ++ [] = _
  rw [List.append_nil, List.filterMap_eq_map']

/-- Nodes stay distinct and fresh when some more are made. -/
theorem IsSound.nodes_of_perm (h : s.IsSound) {k : Nat}
    (hperm : t.nodes.Perm ((List.range' s.scopes.nextFresh k).map .fresh ++ s.nodes))
    (hnext : t.scopes.nextFresh = s.scopes.nextFresh + k) :
    (∀ node ∈ t.nodes, ∃ n < t.scopes.nextFresh, node = .fresh n) ∧ t.nodes.Nodup := by
  constructor
  · intro node hnode
    rw [hnext]
    rcases List.mem_append.mp (hperm.mem_iff.mp hnode) with hnew | hold
    · obtain ⟨n, hn, rfl⟩ := List.mem_map.mp hnew
      exact ⟨n, (List.mem_range'_1.mp hn).2, rfl⟩
    · obtain ⟨n, hn, rfl⟩ := h.fresh node hold
      exact ⟨n, Nat.lt_add_right k hn, rfl⟩
  · rw [hperm.nodup_iff, List.nodup_append]
    refine ⟨List.Nodup.map (fun _ _ => BlankNode.fresh_injective) List.nodup_range', h.nodup, ?_⟩
    rintro a ha b hb rfl
    obtain ⟨n, hn, rfl⟩ := List.mem_map.mp ha
    obtain ⟨m, hm, heq⟩ := h.fresh _ hb
    have := (List.mem_range'_1.mp hn).1
    rw [BlankNode.fresh_injective heq] at this
    exact absurd hm (Nat.not_lt.mpr this)

/-- No change breaks soundness. -/
theorem IsSound.evolves (hs : s.IsSound) (h : s.Evolves p t) : t.IsSound := by
  induction h with
  | refl => exact hs
  | trans _ _ ih₁ ih₂ => exact ih₂ (ih₁ hs)
  | root s => exact hs.push (fun _ ha => nomatch ha) .nil fun _ ha => nomatch ha
  | @child s parent h =>
    refine hs.push (fun a ha => ?_) (hs.descends parent h) (hs.tree parent h)
    rcases List.mem_cons.mp ha with rfl | ha
    · exact h
    · exact Nat.lt_trans (List.rel_of_pairwise_cons (hs.descends parent h) ha) h
  | fresh s =>
    exact { hs with fresh := fun node hn =>
      (hs.fresh node hn).imp fun n ⟨hlt, he⟩ => ⟨Nat.lt_succ_of_lt hlt, he⟩ }
  | @mint s scope label _ h =>
    rcases s.scopes.minted_mint_cases scope label with he | ⟨-, he⟩
    · rw [he]; exact hs
    · rw [he]
      obtain ⟨hfresh, hnodup⟩ := hs.nodes_of_perm (k := 1) (t := { s with
        scopes := { s.scopes with
          minted := ((scope, label), .fresh s.scopes.nextFresh) :: s.scopes.minted
          nextFresh := s.scopes.nextFresh + 1 } }) (.refl _) rfl
      exact ⟨hs.descends, hs.tree, List.forall_mem_cons.mpr ⟨h, hs.minted⟩, hs.lists, hfresh, hnodup⟩
  | @allocate s fork size list _ hf =>
    rw [Scopes.allocateList_eq]
    have hperm : (s.scopes.minted.map (·.2) ++
        ((List.range' s.scopes.nextFresh size).map BlankNode.fresh ++
          s.lists.flatMap fun l => l.2.filterMap Term.blank?)).Perm
        ((List.range' s.scopes.nextFresh size).map .fresh ++ s.nodes) := by
      rw [nodes]
      exact List.perm_append_comm_assoc _ _ _
    obtain ⟨hfresh, hnodup⟩ := hs.nodes_of_perm (k := size) (t := { s with
      scopes := { s.scopes with nextFresh := s.scopes.nextFresh + size }
      lists := ((fork, list), Scopes.listFrom s.scopes.nextFresh size) :: s.lists })
      (by rw [nodes, List.flatMap_cons, filterMap_listFrom]; exact hperm) rfl
    exact ⟨hs.descends, hs.tree, hs.minted, List.forall_mem_cons.mpr ⟨hf, hs.lists⟩, hfresh, hnodup⟩
  | fork s => exact { hs with lists := fun l hl => Nat.lt_succ_of_lt (hs.lists l hl) }
  | note s | rest s => exact { hs with }

/-! ### What labels stand for -/

/-- What labels stand for in the scopes that were there, and the nodes of lists, stay. -/
structure Keeps (s t : RunState) : Prop where
  count : s.scopes.count ≤ t.scopes.count
  node? : ∀ scope < s.scopes.count, ∀ label node, s.scopes.node? scope label = some node →
    t.scopes.node? scope label = some node
  lists : ∀ k nodes, s.lists.lookup k = some nodes → t.lists.lookup k = some nodes

theorem Keeps.refl (s : RunState) : s.Keeps s :=
  ⟨Nat.le_refl _, fun _ _ _ _ h => h, fun _ _ h => h⟩

theorem Keeps.trans {u : RunState} (h : s.Keeps t) (h' : t.Keeps u) : s.Keeps u where
  count := Nat.le_trans h.count h'.count
  node? scope hs label node hn := h'.node? scope (Nat.lt_of_lt_of_le hs h.count) label node
    (h.node? scope hs label node hn)
  lists k nodes hk := h'.lists k nodes (h.lists k nodes hk)

/-- A label that is minted where nothing stood for it gets in the way of no other scope: those below
that scope in which the label stands for something have found it below. -/
theorem IsSound.node?_cons (h : s.IsSound) {scope other : ScopeId} {label l : String}
    {node new : BlankNode} (hs : scope < s.scopes.count)
    (hnone : s.scopes.node? other l = Option.none)
    (hnode : s.scopes.node? scope label = some node) (next : Nat) :
    Scopes.node? { s.scopes with minted := ((other, l), new) :: s.scopes.minted, nextFresh := next }
      scope label = some node := by
  have hlookup : ∀ a : ScopeId, (a, label) ≠ (other, l) →
      (((other, l), new) :: s.scopes.minted).lookup (a, label) =
        s.scopes.minted.lookup (a, label) := fun a hne => by
    rw [List.lookup_cons, beq_false_of_ne hne]
  show (s.scopes.path scope).findSome? _ = some node
  by_cases hon : l = label ∧ other ∈ s.scopes.path scope
  · obtain ⟨rfl, hmem⟩ := hon
    obtain ⟨below, hbelow⟩ := h.tree scope hs other hmem
    have hpairwise := h.descends scope hs
    rw [Scopes.node?, ← hbelow, List.findSome?_append] at hnode
    rw [← hbelow, List.pairwise_append] at hpairwise
    rw [show (s.scopes.path other).findSome? (fun a => s.scopes.minted.lookup (a, l)) = Option.none
      from hnone, Option.or_none] at hnode
    have hsame : ∀ a ∈ below, (((other, l), new) :: s.scopes.minted).lookup (a, l) =
        s.scopes.minted.lookup (a, l) := by
      intro a ha
      refine hlookup a fun heq => ?_
      have hlt : other < a := hpairwise.2.2 a ha other List.mem_cons_self
      exact Nat.ne_of_gt hlt (Prod.mk.inj heq).1
    rw [← hbelow, List.findSome?_append, Scopes.findSome?_eq_of_forall hsame, hnode]
    rfl
  · rw [← hnode]
    refine Scopes.findSome?_eq_of_forall fun a ha => hlookup a fun heq => hon ?_
    obtain ⟨rfl, rfl⟩ := Prod.mk.inj heq
    exact ⟨rfl, ha⟩

/-- No change takes anything from a sound state. -/
theorem IsSound.keeps (hs : s.IsSound) (h : s.Evolves p t) : s.Keeps t := by
  refine ⟨h.grows.scopes, ?_, fun _ _ hk => h.lists_lookup hk⟩
  induction h with
  | trans h₁ _ ih₁ ih₂ =>
    exact fun scope hlt label node hn => ih₂ (hs.evolves h₁) scope
      (Nat.lt_of_lt_of_le hlt h₁.grows.scopes) label node (ih₁ hs scope hlt label node hn)
  | root s | child s =>
    intro scope hlt label node hn
    rw [← hn]
    exact congrArg (List.findSome? _) (Scopes.path_push hlt)
  | @mint s other l =>
    intro scope hlt label node hn
    rcases s.scopes.minted_mint_cases other l with he | ⟨hnone, he⟩ <;> rw [he]
    · exact hn
    · exact hs.node?_cons hlt hnone hn _
  | allocate s =>
    intro scope _ label node hn
    rw [Scopes.allocateList_eq]
    exact hn
  | _ => exact fun _ _ _ _ hn => hn

/-! ### Nodes of a sound state -/

namespace IsSound

/-- No label of any scope shares its node with another one. -/
theorem eq_of_minted (h : s.IsSound) {j k : ScopeId × String} {node : BlankNode}
    (hj : s.scopes.minted.lookup j = some node) (hk : s.scopes.minted.lookup k = some node) :
    j = k :=
  congrArg Prod.fst (List.inj_on_of_nodup_map (List.nodup_append.mp h.nodup).1 (mem_of_lookup hj)
    (mem_of_lookup hk) rfl)

/-- No two lists share a node. -/
theorem list_eq_of_mem (h : s.IsSound) {j k : Nat × Nat} {nodes nodes' : List Term}
    {node : BlankNode} (hj : s.lists.lookup j = some nodes) (hk : s.lists.lookup k = some nodes')
    (hn : .blank node ∈ nodes) (hn' : .blank node ∈ nodes') : j = k := by
  by_contra hne
  have hsymm : Std.Symm (Function.onFun List.Disjoint
      fun l : (Nat × Nat) × List Term => l.2.filterMap Term.blank?) :=
    ⟨fun _ _ hd _ ha hb => hd hb ha⟩
  have hpairwise := (List.nodup_flatMap.mp (List.nodup_append.mp h.nodup).2.1).2
  have hdisjoint : List.Disjoint (nodes.filterMap Term.blank?) (nodes'.filterMap Term.blank?) :=
    hpairwise.forall (mem_of_lookup hj) (mem_of_lookup hk) fun he => hne (congrArg Prod.fst he)
  exact hdisjoint (List.mem_filterMap.mpr ⟨_, hn, rfl⟩) (List.mem_filterMap.mpr ⟨_, hn', rfl⟩)

/-- No label has its node in a list. -/
theorem not_mem_list_of_minted (h : s.IsSound) {j : ScopeId × String} {k : Nat × Nat}
    {node : BlankNode} {nodes : List Term} (hj : s.scopes.minted.lookup j = some node)
    (hk : s.lists.lookup k = some nodes) : .blank node ∉ nodes := by
  intro hmem
  have hdisjoint := (List.nodup_append.mp h.nodup).2.2
  refine hdisjoint node (List.mem_map.mpr ⟨_, mem_of_lookup hj, rfl⟩) node ?_ rfl
  exact List.mem_flatMap.mpr ⟨_, mem_of_lookup hk, List.mem_filterMap.mpr ⟨_, hmem, rfl⟩⟩

/-- A scope lies on no way up from a scope that was there before it. -/
theorem not_mem_path (h : s.IsSound) {scope other : ScopeId} (hs : scope < s.scopes.count)
    (hlt : scope < other) : other ∉ s.scopes.path scope := by
  intro hm
  rcases List.mem_cons.mp hm with rfl | ha
  · exact Nat.lt_irrefl _ hlt
  · exact Nat.lt_asymm hlt (List.rel_of_pairwise_cons (h.descends scope hs) ha)

end IsSound

end RunState

end TripleLoom
