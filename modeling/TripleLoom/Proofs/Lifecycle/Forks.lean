import Mathlib.Data.List.GetD
import TripleLoom.Proofs.Lifecycle.Closing
import TripleLoom.Proofs.Run.Keeping

/-!
# TripleLoom.Proofs.Lifecycle.Forks — the nodes of a list belong to a fork

Contexts are derived from one another, and whichever of them asks for a list first has its nodes made.  In
which fork a context is can be read off the history of the derivations alone (`Forks.ofOps`): a fork is a new
one, and with any other derivation a context stays in the fork where it was.  The contexts are in the forks
that their history says (`World.InForks`), so a list has one answer in a fork, at any time and through any
context, and no other answer shares a node with it (`World.lists_belong_to_forks`).  What calls were recorded,
and whether the run is closed, is one and the same for all contexts.
-/

namespace TripleLoom

/-! ### Forks and their contexts -/

/-- A fork, by its number and the number of its solutions. -/
structure Fork where
  number : Nat
  size : Nat
  deriving DecidableEq, Repr

/-- An operation on the contexts of a run, which are numbered as they come. -/
inductive ContextOp where
  | derive (context : Nat) (how : Derivation)
  /-- The same context in a new scope below that of another one. -/
  | childScope (context other : Nat)
  /-- The same context with the sink of another one. -/
  | sinkOf (context other : Nat)
  | listNodes (context list : Nat)
  | mint (context : Nat) (label : String)
  | recordCall (context : Nat) (call : CallKey)
  | close (context : Nat)
  deriving DecidableEq

/-- The forks of a run: how many there are, and in which of them each context is.  The run itself counts as
the first fork, with one solution. -/
structure Forks where
  count : Nat
  homes : List Fork

namespace Forks

/-- The fork in which a context is.  A number that no context has stands for the first one. -/
def home (f : Forks) (context : Nat) : Fork := f.homes.getD context ⟨0, 1⟩

/-- The forks after an operation. -/
def observe (f : Forks) : ContextOp → Forks
  | .derive _ (.fork size) => ⟨f.count + 1, f.homes ++ [⟨f.count, size⟩]⟩
  | .derive context _ | .childScope context _ | .sinkOf context _ =>
    { f with homes := f.homes ++ [f.home context] }
  | .listNodes .. | .mint .. | .recordCall .. | .close _ => f

/-- The forks of a new run after some operations. -/
def ofOps (ops : List ContextOp) : Forks := ops.foldl observe ⟨1, [⟨0, 1⟩]⟩

theorem ofOps_concat (ops : List ContextOp) (op : ContextOp) : ofOps (ops ++ [op]) = (ofOps ops).observe op := by
  rw [ofOps, List.foldl_append]
  rfl

end Forks

namespace Context

/-- The fork in which a context is. -/
def home (c : Context) : Fork := ⟨c.fork, c.size⟩

/-- Asking for a list makes it if it was not there, and changes nothing else of the lists. -/
theorem listNodes_cases (c : Context) (list : Nat) (s : RunState) :
    (c.listNodes list s).2.lists = s.lists ∧ s.lists.lookup (c.fork, list) = some (c.listNodes list s).1 ∨
      s.lists.lookup (c.fork, list) = none ∧
        (c.listNodes list s).1 = Scopes.listFrom s.scopes.nextFresh c.size ∧
        (c.listNodes list s).2.lists = ((c.fork, list), (c.listNodes list s).1) :: s.lists := by
  unfold listNodes
  cases hlookup : s.lists.lookup (c.fork, list) with
  | some nodes => exact .inl ⟨rfl, rfl⟩
  | none => simp [Scopes.allocateList_eq]

theorem listNodes_eq (c : Context) (list : Nat) (s : RunState) :
    ∃ scopes lists, (c.listNodes list s).2 = { s with scopes, lists } := by
  unfold listNodes
  split
  · exact ⟨_, _, rfl⟩
  · exact ⟨_, _, rfl⟩

end Context

theorem RunM.recordCall_eq (call : CallKey) (s : RunState) :
    ∃ calls, (recordCall call s).2 = { s with calls } := by
  unfold recordCall
  split
  · exact ⟨_, rfl⟩
  · exact ⟨_, rfl⟩

theorem Scopes.lt_count_root (s : Scopes) : s.root.1 < s.root.2.count := by
  simp [root, count]

theorem Scopes.lt_count_child (s : Scopes) (parent : ScopeId) : (s.child parent).1 < (s.child parent).2.count := by
  simp [child, count]

namespace RunState

/-- A blank node that was not made yet: its number is not reached, and it stands for no label and in no list. -/
structure IsNew (s : RunState) (node : BlankNode) : Prop where
  number : ∃ n, s.scopes.nextFresh ≤ n ∧ node = .fresh n
  absent : node ∉ s.nodes

theorem IsSound.isNew_fresh {s : RunState} (h : s.IsSound) {n : Nat} (hn : s.scopes.nextFresh ≤ n) :
    s.IsNew (.fresh n) := by
  refine ⟨⟨n, hn, rfl⟩, fun hmem => ?_⟩
  obtain ⟨m, hm, hfresh⟩ := h.fresh _ hmem
  have heq := BlankNode.fresh_injective hfresh
  omega

end RunState

namespace World

/-- All contexts, the first one included. -/
def contexts (w : World) : List Context := w.first :: w.derived

/-- Makes one more context. -/
def add (w : World) (m : RunM Context) : World :=
  let (c, state) := m w.state
  { w with derived := w.derived ++ [c], state }

/-- Lets the state change. -/
def run {α : Type} (w : World) (m : RunM α) : World := { w with state := (m w.state).2 }

/-- A context in a new scope below that of another one. -/
def inScopeBelow (w : World) (i other : Nat) : RunM Context :=
  return { w.context i with scope := ← RunM.scopes (·.child (w.context other).scope) }

/-- A context with the sink of another one. -/
def withSinkOf (w : World) (i other : Nat) : RunM Context :=
  pure { w.context i with sink := (w.context other).sink }

/-- Does an operation. -/
def perform (w : World) : ContextOp → World
  | .derive i how => w.add (w.derive (w.context i) how)
  | .childScope i other => w.add (w.inScopeBelow i other)
  | .sinkOf i other => w.add (w.withSinkOf i other)
  | .listNodes i list => w.run ((w.context i).listNodes list)
  | .mint i label => w.run ((w.context i).mint label)
  | .recordCall _ call => w.run (RunM.recordCall call)
  | .close _ => w.run RunM.close

/-- A new run after some operations. -/
def ofOps (limit : Nat) (ops : List ContextOp) : World := ops.foldl perform (new limit)

theorem ofOps_concat (limit : Nat) (ops : List ContextOp) (op : ContextOp) :
    ofOps limit (ops ++ [op]) = (ofOps limit ops).perform op := by
  rw [ofOps, List.foldl_append]
  rfl

/-- The contexts of a run are in the forks that are given, and the lists of a fork have its size. -/
structure InForks (w : World) (f : Forks) : Prop where
  sound : w.state.IsSound
  count : f.count = w.state.nextFork
  homes : f.homes = w.contexts.map Context.home
  first : w.first.home = ⟨0, 1⟩
  isIn : ∀ c ∈ w.contexts, c.IsIn w.state
  sizes : ∀ c ∈ w.contexts, ∀ d ∈ w.contexts, c.fork = d.fork → c.size = d.size
  lists : ∀ c ∈ w.contexts, ∀ list nodes, w.state.lists.lookup (c.fork, list) = some nodes →
    ∃ first, nodes = Scopes.listFrom first c.size

variable {w : World} {f : Forks} {limit i j : Nat} {ops : List ContextOp}

theorem context_mem (w : World) (i : Nat) : w.context i ∈ w.contexts := by
  unfold context contexts
  rw [List.getD_eq_getElem?_getD]
  cases h : (w.first :: w.derived)[i]? with
  | none => exact List.mem_cons_self
  | some c => exact List.mem_of_getElem? h

theorem InForks.home_eq (h : w.InForks f) (i : Nat) : f.home i = (w.context i).home := by
  rw [Forks.home, h.homes, ← h.first, List.getD_map]
  rfl

theorem inForks_new (limit : Nat) : (new limit).InForks (Forks.ofOps []) where
  sound := (RunState.isSound_start limit).evolves (p := .none)
    (((RunState.Evolves.root _).trans (.rest _ _ _ _ _)).trans (.fork _))
  count := rfl
  homes := rfl
  first := rfl
  isIn := by
    intro c hc
    obtain rfl := List.mem_singleton.mp hc
    exact ⟨Nat.zero_lt_one, Nat.zero_lt_one⟩
  sizes := by
    intro c hc d hd _
    obtain rfl := List.mem_singleton.mp hc
    obtain rfl := List.mem_singleton.mp hd
    rfl
  lists := by
    intro c _ list nodes hlookup
    cases hlookup

/-! ### One operation -/

/-- The state changes, and the contexts stay. -/
theorem InForks.run {α : Type} (h : w.InForks f) {m : RunM α} (hevolves : w.state.Evolves .all (m w.state).2)
    (hcount : (m w.state).2.nextFork = w.state.nextFork)
    (hlists : ∀ c ∈ w.contexts, ∀ list nodes, (m w.state).2.lists.lookup (c.fork, list) = some nodes →
      ∃ first, nodes = Scopes.listFrom first c.size) : (w.run m).InForks f where
  sound := h.sound.evolves hevolves
  count := h.count.trans hcount.symm
  homes := h.homes
  first := h.first
  isIn := fun c hc => (h.isIn c hc).grows hevolves.grows
  sizes := h.sizes
  lists := hlists

/-- A context in one of the forks is added. -/
theorem InForks.push (h : w.InForks f) {c : Context} (hscope : c.scope < w.state.scopes.count)
    (hhome : c.home = (w.context i).home) :
    InForks { w with derived := w.derived ++ [c] } { f with homes := f.homes ++ [f.home i] } := by
  obtain ⟨hfork, hsize⟩ := Fork.mk.inj hhome
  have hcontexts : ∀ d ∈ w.contexts ++ [c], ∃ d' ∈ w.contexts, d.fork = d'.fork ∧ d.size = d'.size := by
    intro d hd
    rcases List.mem_append.mp hd with hd | hd
    · exact ⟨d, hd, rfl, rfl⟩
    · obtain rfl := List.mem_singleton.mp hd
      exact ⟨w.context i, w.context_mem i, hfork, hsize⟩
  refine ⟨h.sound, h.count, ?_, h.first, ?_, ?_, ?_⟩
  · show f.homes ++ [f.home i] = (w.contexts ++ [c]).map Context.home
    rw [h.home_eq, h.homes, List.map_append, List.map_singleton, hhome]
  · intro d hd
    rcases List.mem_append.mp (show d ∈ w.contexts ++ [c] from hd) with hd | hd
    · exact h.isIn d hd
    · obtain rfl := List.mem_singleton.mp hd
      exact ⟨hscope, hfork ▸ (h.isIn _ (w.context_mem i)).fork⟩
  · intro d hd e he heq
    obtain ⟨d', hd', hdfork, hdsize⟩ := hcontexts d hd
    obtain ⟨e', he', hefork, hesize⟩ := hcontexts e he
    rw [hdsize, hesize]
    exact h.sizes d' hd' e' he' (by rw [← hdfork, ← hefork, heq])
  · intro d hd list nodes hlookup
    obtain ⟨d', hd', hdfork, hdsize⟩ := hcontexts d hd
    rw [hdsize]
    exact h.lists d' hd' list nodes (by rw [← hdfork]; exact hlookup)

/-- What makes a context in one of the forks, and changes neither the forks nor the lists. -/
theorem InForks.add (h : w.InForks f) (m : RunM Context) (i : Nat) (hevolves : w.state.Evolves .all (m w.state).2)
    (hcount : (m w.state).2.nextFork = w.state.nextFork) (hlists : (m w.state).2.lists = w.state.lists)
    (hscope : (m w.state).1.scope < (m w.state).2.scopes.count)
    (hhome : (m w.state).1.home = (w.context i).home) :
    (w.add m).InForks { f with homes := f.homes ++ [f.home i] } := by
  have hrun : (w.run m).InForks f := by
    refine h.run hevolves hcount fun c hc list nodes hlookup => ?_
    rw [hlists] at hlookup
    exact h.lists c hc list nodes hlookup
  exact hrun.push hscope hhome

/-- A fork is added, with a context in it. -/
theorem InForks.fork (h : w.InForks f) (i size : Nat) :
    (w.add ((w.context i).forkFor size)).InForks ⟨f.count + 1, f.homes ++ [⟨f.count, size⟩]⟩ := by
  have hevolves : w.state.Evolves .all ((w.context i).forkFor size w.state).2 :=
    (RunState.Evolves.child _ (h.isIn _ (w.context_mem i)).scope).trans (.fork _)
  have hold : ∀ c ∈ w.contexts, c.fork ≠ w.state.nextFork := by
    intro c hc
    exact Nat.ne_of_lt (h.isIn c hc).fork
  have hcases : ∀ c ∈ (w.add ((w.context i).forkFor size)).contexts, c ∈ w.contexts ∨
      c = ((w.context i).forkFor size w.state).1 := by
    intro c hc
    have hmem : c ∈ w.contexts ++ [((w.context i).forkFor size w.state).1] := hc
    simpa using hmem
  refine ⟨h.sound.evolves hevolves, congrArg (· + 1) h.count, ?_, h.first, ?_, ?_, ?_⟩
  · show _ = (w.contexts ++ [((w.context i).forkFor size w.state).1]).map Context.home
    rw [List.map_append, ← h.homes, h.count]
    rfl
  · intro c hc
    rcases hcases c hc with hc | rfl
    · exact (h.isIn c hc).grows hevolves.grows
    · exact ⟨Scopes.lt_count_child _ _, Nat.lt_succ_self _⟩
  · intro c hc d hd heq
    rcases hcases c hc with hc | rfl <;> rcases hcases d hd with hd | rfl
    · exact h.sizes c hc d hd heq
    · exact absurd heq (hold c hc)
    · exact absurd heq.symm (hold d hd)
    · rfl
  · intro c hc list nodes hlookup
    rcases hcases c hc with hc | rfl
    · exact h.lists c hc list nodes hlookup
    · -- no list was made for a fork that was not there
      exact absurd (h.sound.lists _ (mem_of_lookup hlookup)) (Nat.lt_irrefl _)

theorem evolves_perform (h : w.InForks f) (op : ContextOp) : w.state.Evolves .all (w.perform op).state := by
  have hscope : ∀ i, (w.context i).scope < w.state.scopes.count := fun i => (h.isIn _ (w.context_mem i)).scope
  cases op with
  | derive i how =>
    cases how with
    | fork size => exact (RunState.Evolves.child _ (hscope i)).trans (.fork _)
    | freshScope => exact .root _
    | scopeOf other | base iri => exact .refl _
    | newSink => exact .rest _ _ _ _ _
  | childScope i other => exact .child _ (hscope other)
  | sinkOf i other => exact .refl _
  | listNodes i list =>
    exact (w.context i).keepsTo_listNodes (h.isIn _ (w.context_mem i)) trivial list _ (.refl _)
  | mint i label => exact (w.context i).keepsTo_mint (h.isIn _ (w.context_mem i)) trivial label _ (.refl _)
  | recordCall i call => exact RunM.KeepsTo.recordCall call _ (.refl w.state)
  | close i => exact .rest _ _ _ _ _

theorem InForks.perform (h : w.InForks f) (op : ContextOp) : (w.perform op).InForks (f.observe op) := by
  have hevolves := evolves_perform h op
  have hscope : ∀ i, (w.context i).scope < w.state.scopes.count := fun i => (h.isIn _ (w.context_mem i)).scope
  cases op with
  | derive i how =>
    cases how with
    | fork size => exact h.fork i size
    | freshScope =>
      exact h.add (w.context i).inFreshScope i hevolves rfl rfl (Scopes.lt_count_root _) rfl
    | scopeOf other => exact h.add (w.derive _ (.scopeOf other)) i hevolves rfl rfl (hscope other) rfl
    | newSink => exact h.add (w.derive _ .newSink) i hevolves rfl rfl (hscope i) rfl
    | base iri => exact h.add (w.derive _ (.base iri)) i hevolves rfl rfl (hscope i) rfl
  | childScope i other =>
    exact h.add (w.inScopeBelow i other) i hevolves rfl rfl (Scopes.lt_count_child _ _) rfl
  | sinkOf i other => exact h.add (w.withSinkOf i other) i hevolves rfl rfl (hscope i) rfl
  | listNodes i list =>
    obtain ⟨scopes, lists, hstate⟩ := (w.context i).listNodes_eq list w.state
    refine h.run hevolves (by rw [hstate]) fun c hc other nodes hlookup => ?_
    rcases (w.context i).listNodes_cases list w.state with ⟨hlists, -⟩ | ⟨-, hnodes, hlists⟩
    · rw [hlists] at hlookup
      exact h.lists c hc other nodes hlookup
    · rw [hlists, hnodes, List.lookup_cons] at hlookup
      split at hlookup
      · next hkey =>
        have hfork := (Prod.mk.inj (eq_of_beq hkey)).1
        rw [h.sizes c hc _ (w.context_mem i) hfork]
        exact ⟨_, (Option.some.inj hlookup).symm⟩
      · exact h.lists c hc other nodes hlookup
  | mint i label => exact h.run hevolves rfl h.lists
  | recordCall i call =>
    obtain ⟨calls, hcalls⟩ := RunM.recordCall_eq call w.state
    refine h.run hevolves ?_ ?_
    · rw [hcalls]
    · rw [hcalls]
      exact h.lists
  | close i => exact h.run hevolves rfl h.lists

/-- The contexts of a run are in the forks that its history says. -/
theorem inForks_ofOps (limit : Nat) (ops : List ContextOp) : (ofOps limit ops).InForks (Forks.ofOps ops) := by
  induction ops using List.reverseRecOn with
  | nil => exact inForks_new limit
  | append_singleton ops op ih =>
    rw [ofOps_concat, Forks.ofOps_concat]
    exact ih.perform op

theorem evolves_append (limit : Nat) (ops more : List ContextOp) :
    (ofOps limit ops).state.Evolves .all (ofOps limit (ops ++ more)).state := by
  induction more using List.reverseRecOn with
  | nil => rw [List.append_nil]; exact .refl _
  | append_singleton more op ih =>
    rw [← List.append_assoc, ofOps_concat]
    exact ih.trans (evolves_perform (inForks_ofOps limit _) op)

/-- What an operation leaves behind stays to the end. -/
theorem evolves_of_getElem? (limit : Nat) {op : ContextOp} (h : ops[i]? = some op) :
    ((ofOps limit (ops.take i)).perform op).state.Evolves .all (ofOps limit ops).state := by
  have hevolves := evolves_append limit (ops.take (i + 1)) (ops.drop (i + 1))
  have htake : ops.take (i + 1) = ops.take i ++ [op] := by
    rw [List.take_add_one, h]
    rfl
  rwa [List.take_append_drop, htake, ofOps_concat] at hevolves

/-! ### Lists -/

/-- A list that was asked for in a fork, and its nodes. -/
structure ListCall where
  fork : Fork
  list : Nat
  nodes : List Term

/-- The list that the operation at an index asks for, if it asks for one. -/
def listCall? (limit : Nat) (ops : List ContextOp) (i : Nat) : Option ListCall :=
  match ops[i]? with
  | some (.listNodes c list) =>
    let w := ofOps limit (ops.take i)
    some ⟨(Forks.ofOps (ops.take i)).home c, list, ((w.context c).listNodes list w.state).1⟩
  | _ => none

variable {a b : ListCall}

theorem listCall?_eq_some (h : listCall? limit ops i = some a) :
    ∃ c, ops[i]? = some (.listNodes c a.list) ∧ a.fork = (Forks.ofOps (ops.take i)).home c ∧
      a.nodes = (((ofOps limit (ops.take i)).context c).listNodes a.list (ofOps limit (ops.take i)).state).1 := by
  unfold listCall? at h
  split at h
  · next c list hop =>
    obtain rfl := Option.some.inj h
    exact ⟨c, hop, rfl, rfl⟩
  · cases h

theorem listCall?_append (limit : Nat) (ops more : List ContextOp) (hi : i < ops.length) :
    listCall? limit (ops ++ more) i = listCall? limit ops i := by
  unfold listCall?
  rw [List.getElem?_append_left hi, List.take_append_of_le_length hi.le]

/-- The nodes that were given for a list are kept for it to the end. -/
theorem lookup_of_listCall? (h : listCall? limit ops i = some a) :
    (ofOps limit ops).state.lists.lookup (a.fork.number, a.list) = some a.nodes := by
  obtain ⟨c, hop, hfork, hnodes⟩ := listCall?_eq_some h
  refine (evolves_of_getElem? limit hop).lists_lookup ?_
  rw [hfork, (inForks_ofOps limit (ops.take i)).home_eq, hnodes]
  show (((ofOps limit (ops.take i)).context c).listNodes a.list _).2.lists.lookup _ = _
  obtain ⟨hlists, hlookup⟩ | ⟨-, -, hlists⟩ :=
    ((ofOps limit (ops.take i)).context c).listNodes_cases a.list (ofOps limit (ops.take i)).state
  · rw [hlists]
    exact hlookup
  · rw [hlists, List.lookup_cons]
    simp [Context.home]

/-- Lists are made where they are asked for alone. -/
theorem lookup_perform {k : Nat × Nat} {nodes : List Term} {op : ContextOp}
    (h : (w.perform op).state.lists.lookup k = some nodes) :
    w.state.lists.lookup k = some nodes ∨ ∃ c list, op = .listNodes c list ∧ k = ((w.context c).fork, list) := by
  cases op with
  | derive i how => cases how <;> exact .inl h
  | childScope | sinkOf | mint | close => exact .inl h
  | recordCall i call =>
    obtain ⟨calls, hcalls⟩ := RunM.recordCall_eq call w.state
    exact .inl (by rwa [perform, run, hcalls] at h)
  | listNodes i list =>
    change ((w.context i).listNodes list w.state).2.lists.lookup k = some nodes at h
    rcases (w.context i).listNodes_cases list w.state with ⟨hlists, -⟩ | ⟨-, -, hlists⟩
    · rw [hlists] at h
      exact .inl h
    · rw [hlists, List.lookup_cons] at h
      split at h
      · next hkey => exact .inr ⟨i, list, rfl, eq_of_beq hkey⟩
      · exact .inl h

/-- A list that is kept was asked for. -/
theorem exists_listCall? {fork list : Nat} {nodes : List Term}
    (h : (ofOps limit ops).state.lists.lookup (fork, list) = some nodes) :
    ∃ i < ops.length, ∃ a, listCall? limit ops i = some a ∧ a.fork.number = fork ∧ a.list = list := by
  induction ops using List.reverseRecOn with
  | nil => cases h
  | append_singleton ops op ih =>
    rw [ofOps_concat] at h
    rcases lookup_perform h with hold | ⟨c, list', rfl, hkey⟩
    · obtain ⟨i, hi, a, ha, hfork, hlist⟩ := ih hold
      refine ⟨i, ?_, a, ?_, hfork, hlist⟩
      · rw [List.length_append]
        omega
      · rw [listCall?_append limit _ _ hi, ha]
    · obtain ⟨rfl, rfl⟩ := Prod.mk.inj hkey
      refine ⟨ops.length, by simp, _, by rw [listCall?, List.getElem?_concat_length], ?_, rfl⟩
      rw [List.take_left, (inForks_ofOps limit ops).home_eq]
      rfl

/-- The nodes of a list are as many blank nodes as the fork has solutions, and the empty list. -/
theorem nodes_eq_listFrom (h : listCall? limit ops i = some a) :
    ∃ first, a.nodes = Scopes.listFrom first a.fork.size := by
  obtain ⟨c, -, hfork, hnodes⟩ := listCall?_eq_some h
  have hbefore := inForks_ofOps limit (ops.take i)
  rw [hfork, hbefore.home_eq, hnodes]
  obtain ⟨-, hlookup⟩ | ⟨-, hnew, -⟩ :=
    ((ofOps limit (ops.take i)).context c).listNodes_cases a.list (ofOps limit (ops.take i)).state
  · exact hbefore.lists _ (context_mem _ c) _ _ hlookup
  · exact ⟨_, hnew⟩

/-- A list that is asked for the first time in its fork is made of the next nodes. -/
theorem nodes_eq_of_first (h : listCall? limit ops i = some a)
    (hfirst : ∀ j < i, ∀ b, listCall? limit ops j = some b → b.fork.number = a.fork.number → b.list ≠ a.list) :
    a.nodes = Scopes.listFrom (ofOps limit (ops.take i)).state.scopes.nextFresh a.fork.size := by
  obtain ⟨c, -, hfork, hnodes⟩ := listCall?_eq_some h
  have hbefore := inForks_ofOps limit (ops.take i)
  obtain ⟨-, hlookup⟩ | ⟨-, hnew, -⟩ :=
    ((ofOps limit (ops.take i)).context c).listNodes_cases a.list (ofOps limit (ops.take i)).state
  · obtain ⟨j, hj, b, hb, hnumber, hlist⟩ := exists_listCall? hlookup
    have hwhole := listCall?_append limit (ops.take i) (ops.drop i) hj
    rw [List.take_append_drop, hb] at hwhole
    rw [List.length_take] at hj
    refine absurd hlist (hfirst j (by omega) b hwhole ?_)
    rw [hnumber, hfork, hbefore.home_eq]
    rfl
  · rw [hfork, hbefore.home_eq, hnodes]
    exact hnew

/-! ### Labels, calls and the close -/

/-- The node of a label is kept for the label to the end. -/
theorem exists_minted (limit : Nat) {c : Nat} {label : String} (h : ops[i]? = some (.mint c label)) :
    ∃ k node, (((ofOps limit (ops.take i)).context c).mint label (ofOps limit (ops.take i)).state).1 = .blank node ∧
      (ofOps limit ops).state.scopes.minted.lookup k = some node := by
  have hnode := Scopes.node?_mint (ofOps limit (ops.take i)).state.scopes
    ((ofOps limit (ops.take i)).context c).scope label
  obtain ⟨scope, -, hlookup⟩ := List.exists_of_findSome?_eq_some hnode
  exact ⟨_, _, rfl, (evolves_of_getElem? limit h).extends_scopes _ _ hlookup⟩

theorem mem_calls_perform {call : CallKey} (w : World) (op : ContextOp) :
    call ∈ (w.perform op).state.calls ↔ call ∈ w.state.calls ∨ ∃ c, op = .recordCall c call := by
  cases op with
  | recordCall i other =>
    show call ∈ (RunM.recordCall other w.state).2.calls ↔ _
    unfold RunM.recordCall
    split
    · next hmem =>
      constructor
      · exact .inl
      · rintro (h | ⟨c, hc⟩)
        · exact h
        · obtain ⟨-, rfl⟩ := ContextOp.recordCall.inj hc
          exact hmem
    · simp [eq_comm, or_comm]
  | listNodes i list =>
    obtain ⟨scopes, lists, hstate⟩ := (w.context i).listNodes_eq list w.state
    simp [perform, run, hstate]
  | derive i how => cases how <;> exact (or_iff_left (by simp)).symm
  | childScope | sinkOf | mint | close => exact (or_iff_left (by simp)).symm

/-- The calls that are recorded are those that were recorded through any context. -/
theorem mem_calls_ofOps (limit : Nat) {call : CallKey} :
    call ∈ (ofOps limit ops).state.calls ↔ ∃ c, .recordCall c call ∈ ops := by
  induction ops using List.reverseRecOn with
  | nil =>
    show call ∈ [] ↔ _
    simp
  | append_singleton ops op ih =>
    rw [ofOps_concat, mem_calls_perform, ih, ← exists_or]
    simp [eq_comm]

theorem isClosed_perform (w : World) (op : ContextOp) :
    (w.perform op).state.isClosed = true ↔ w.state.isClosed = true ∨ ∃ c, op = .close c := by
  cases op with
  | close i =>
    have hclosed := w.state.lifecycle.closed_take .close
    rw [CloseStep.isClose, Bool.or_true] at hclosed
    exact ⟨fun _ => .inr ⟨i, rfl⟩, fun _ => hclosed⟩
  | recordCall i call =>
    obtain ⟨calls, hcalls⟩ := RunM.recordCall_eq call w.state
    simp [perform, run, hcalls, RunState.isClosed]
  | listNodes i list =>
    obtain ⟨scopes, lists, hstate⟩ := (w.context i).listNodes_eq list w.state
    simp [perform, run, hstate, RunState.isClosed]
  | derive i how => cases how <;> exact (or_iff_left (by simp)).symm
  | childScope | sinkOf | mint => exact (or_iff_left (by simp)).symm

/-- The run is closed if it was closed through any context. -/
theorem isClosed_ofOps : (ofOps limit ops).state.isClosed = true ↔ ∃ c, .close c ∈ ops := by
  induction ops using List.reverseRecOn with
  | nil =>
    show false = true ↔ _
    simp
  | append_singleton ops op ih =>
    rw [ofOps_concat, isClosed_perform, ih, ← exists_or]
    simp [eq_comm]

/-! ### Lists and forks -/

/-- What is given for a list that was asked for: blank nodes, as many as the fork has solutions, and the empty
list. -/
structure ListCall.IsMadeOf (a : ListCall) (blanks : List BlankNode) : Prop where
  nodes : a.nodes = blanks.map .blank ++ [Term.nil]
  length : blanks.length = a.fork.size
  nodup : blanks.Nodup

theorem isMadeOf_of_eq {first : Nat} (h : a.nodes = Scopes.listFrom first a.fork.size) :
    a.IsMadeOf ((List.range' first a.fork.size).map .fresh) where
  nodes := by rw [h, Scopes.listFrom, List.map_map]; rfl
  length := by simp
  nodup := List.Nodup.map (fun _ _ => BlankNode.fresh_injective) List.nodup_range'

/-- Whoever asks for a list is given distinct blank nodes, which are new at the first time. -/
theorem exists_isMadeOf (h : listCall? limit ops i = some a) : ∃ blanks, a.IsMadeOf blanks ∧
    ((∀ j < i, ∀ b, listCall? limit ops j = some b → b.fork.number = a.fork.number → b.list ≠ a.list) →
      ∀ node ∈ blanks, (ofOps limit (ops.take i)).state.IsNew node) := by
  by_cases hfirst : ∀ j < i, ∀ b, listCall? limit ops j = some b → b.fork.number = a.fork.number → b.list ≠ a.list
  · refine ⟨_, isMadeOf_of_eq (nodes_eq_of_first h hfirst), fun _ node hnode => ?_⟩
    obtain ⟨n, hn, rfl⟩ := List.mem_map.mp hnode
    exact (inForks_ofOps limit (ops.take i)).sound.isNew_fresh (List.mem_range'_1.mp hn).1
  · obtain ⟨first, hnodes⟩ := nodes_eq_listFrom h
    exact ⟨_, isMadeOf_of_eq hnodes, fun h => absurd h hfirst⟩

/-- Whoever asks for the same list in the same fork is given the same nodes. -/
theorem nodes_eq_of_same (ha : listCall? limit ops i = some a) (hb : listCall? limit ops j = some b)
    (hfork : a.fork.number = b.fork.number) (hlist : a.list = b.list) : a.nodes = b.nodes := by
  have hlookup := lookup_of_listCall? ha
  rw [hfork, hlist, lookup_of_listCall? hb] at hlookup
  exact (Option.some.inj hlookup).symm

/-- Whoever asks for another list, or in another fork, is given none of the nodes. -/
theorem notMem_nodes_of_ne {node : BlankNode} (ha : listCall? limit ops i = some a)
    (hb : listCall? limit ops j = some b) (hne : a.fork.number ≠ b.fork.number ∨ a.list ≠ b.list)
    (hmem : .blank node ∈ a.nodes) : .blank node ∉ b.nodes := by
  intro hmem'
  have hsound := (inForks_ofOps limit ops).sound
  have hkey := hsound.list_eq_of_mem (lookup_of_listCall? ha) (lookup_of_listCall? hb) hmem hmem'
  obtain ⟨hfork, hlist⟩ := Prod.mk.inj hkey
  exact hne.elim (· hfork) (· hlist)

/-- No node of a list stands for a label. -/
theorem mint_notMem_nodes {c : Nat} {label : String} (ha : listCall? limit ops i = some a)
    (hj : ops[j]? = some (.mint c label)) :
    (((ofOps limit (ops.take j)).context c).mint label (ofOps limit (ops.take j)).state).1 ∉ a.nodes := by
  intro hmem
  obtain ⟨k, node, hnode, hminted⟩ := exists_minted limit hj
  rw [hnode] at hmem
  exact (inForks_ofOps limit ops).sound.not_mem_list_of_minted hminted (lookup_of_listCall? ha) hmem

/-- A call is new exactly if it was recorded through no context before. -/
theorem recordCall_ofOps_iff (limit : Nat) (ops : List ContextOp) (call : CallKey) :
    (RunM.recordCall call (ofOps limit ops).state).1 = true ↔ ∀ c, .recordCall c call ∉ ops := by
  rw [← not_exists, ← mem_calls_ofOps limit]
  unfold RunM.recordCall
  split
  · next hmem => simpa using hmem
  · next hmem => simpa using hmem

/-- **The nodes of a list belong to a fork.**  Take any operations on the contexts of a run.  Whoever asks for a
list is given as many distinct blank nodes as the context's fork has solutions, and the empty list; if nobody
has asked for this list in the fork before, the nodes were not made before.  Whoever asks for the same
list in the same fork is given the same nodes, at any time and through any context.  Whoever asks for another
list, or in another fork, is given none of them, and none of them stands for a label.  But a call is new
exactly if it was not recorded before through any context, and the run is closed exactly if it was closed
through any. -/
theorem lists_belong_to_forks (limit : Nat) (ops : List ContextOp) :
    (∀ i a, listCall? limit ops i = some a →
      (∃ blanks, a.IsMadeOf blanks ∧
        ((∀ j < i, ∀ b, listCall? limit ops j = some b → b.fork.number = a.fork.number → b.list ≠ a.list) →
          ∀ node ∈ blanks, (ofOps limit (ops.take i)).state.IsNew node)) ∧
      (∀ j b, listCall? limit ops j = some b →
        (a.fork.number = b.fork.number → a.list = b.list → a.nodes = b.nodes) ∧
        (a.fork.number ≠ b.fork.number ∨ a.list ≠ b.list →
          ∀ node, .blank node ∈ a.nodes → .blank node ∉ b.nodes)) ∧
      ∀ j c label, ops[j]? = some (.mint c label) →
        (((ofOps limit (ops.take j)).context c).mint label (ofOps limit (ops.take j)).state).1 ∉ a.nodes) ∧
    (∀ i call, (RunM.recordCall call (ofOps limit (ops.take i)).state).1 = true ↔
      ∀ c, .recordCall c call ∉ ops.take i) ∧
    ((ofOps limit ops).state.isClosed = true ↔ ∃ c, .close c ∈ ops) := by
  refine ⟨fun i a ha => ⟨exists_isMadeOf ha, fun j b hb => ⟨?_, ?_⟩, ?_⟩, ?_, isClosed_ofOps⟩
  · exact nodes_eq_of_same ha hb
  · exact fun hne node => notMem_nodes_of_ne ha hb hne
  · exact fun j c label => mint_notMem_nodes ha
  · exact fun i call => recordCall_ofOps_iff limit (ops.take i) call

/-- A fork, whose list is asked for in a new scope and later with another sink and base IRI, and another fork
of the first context. -/
def forkedOps : List ContextOp :=
  [.derive 0 (.fork 2), .childScope 1 0, .listNodes 2 0, .derive 1 (.base ⟨"urn:base"⟩), .sinkOf 3 0, .mint 4 "b",
    .derive 0 (.fork 2), .listNodes 5 0, .recordCall 5 ⟨⟨"urn:q"⟩, []⟩, .listNodes 4 0, .close 4,
    .recordCall 0 ⟨⟨"urn:q"⟩, []⟩]

theorem forkedOps_lists : ∃ a b c, listCall? 1 forkedOps 2 = some a ∧ listCall? 1 forkedOps 9 = some b ∧
    listCall? 1 forkedOps 7 = some c ∧ a.nodes.length = 3 ∧ a.nodes = b.nodes ∧
    (∀ node, .blank node ∈ a.nodes → .blank node ∉ c.nodes) ∧
    (RunM.recordCall ⟨⟨"urn:q"⟩, []⟩ (ofOps 1 (forkedOps.take 11)).state).1 = false ∧
    (ofOps 1 forkedOps).state.isClosed = true := by
  obtain ⟨hlists, hcalls, hclosed⟩ := lists_belong_to_forks 1 forkedOps
  obtain ⟨a, ha, hafork, halist⟩ : ∃ a, listCall? 1 forkedOps 2 = some a ∧ a.fork = ⟨1, 2⟩ ∧ a.list = 0 :=
    ⟨_, rfl, rfl, rfl⟩
  obtain ⟨b, hb, hbfork, hblist⟩ : ∃ b, listCall? 1 forkedOps 9 = some b ∧ b.fork = ⟨1, 2⟩ ∧ b.list = 0 :=
    ⟨_, rfl, rfl, rfl⟩
  obtain ⟨c, hc, hcfork⟩ : ∃ c, listCall? 1 forkedOps 7 = some c ∧ c.fork = ⟨2, 2⟩ := ⟨_, rfl, rfl⟩
  obtain ⟨⟨blanks, hmade, -⟩, hothers, -⟩ := hlists 2 a ha
  refine ⟨a, b, c, ha, hb, hc, ?_, (hothers 9 b hb).1 (by rw [hafork, hbfork]) (by rw [halist, hblist]),
    (hothers 7 c hc).2 (.inl (by rw [hafork, hcfork]; decide)), ?_, hclosed.mpr ⟨4, by decide⟩⟩
  · rw [hmade.nodes, List.length_append, List.length_map, hmade.length, hafork]
    rfl
  · rw [← Bool.not_eq_true, hcalls 11, not_forall]
    exact ⟨5, not_not.mpr (by decide)⟩

end World

end TripleLoom
