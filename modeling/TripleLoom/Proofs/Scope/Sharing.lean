import Mathlib.Data.List.Nodup
import TripleLoom.Proofs.Scope.History

/-!
# TripleLoom.Proofs.Scope.Sharing — which answers share a node

The scopes show their history (`Scopes.Shows`): the path of a scope runs through the scopes over it,
upwards, and a scope holds a node for exactly the labels that were minted freshly in it, no two of
these nodes being equal.  So the node of a label in a scope is that of its source there
(`Shows.node?_eq_some_iff`), and two answers are equal exactly if they have the label and the source
in common (`shares_iff`).
-/

namespace TripleLoom.Scopes

/-! ### Doing operations -/

/-- What an operation makes of the scopes. -/
def receive (s : Scopes) : Op → Scopes
  | .root => s.root.2
  | .child parent => (s.child parent).2
  | .mint scope label => (s.mint scope label).2

/-- The scopes after some operations, none being there before. -/
def ofOps (ops : List Op) : Scopes := ops.foldl receive empty

/-- The answer of the operation at an index, if it mints a label. -/
def answer? (ops : List Op) (i : Nat) : Option BlankNode :=
  match ops[i]? with
  | some (.mint scope label) => some ((ofOps (ops.take i)).mint scope label).1
  | _ => none

theorem ofOps_concat (ops : List Op) (op : Op) : ofOps (ops ++ [op]) = (ofOps ops).receive op := by
  simp [ofOps, List.foldl_append]

/-! ### The scopes show their history -/

/-- The scopes are as a history says. -/
structure Shows (ops : List Op) (s : Scopes) : Prop where
  size : s.ancestors.size = (parents ops).length
  /-- The path of a scope runs through the scopes over it, -/
  mem_path : ∀ t : Nat, t < (parents ops).length → ∀ a, a ∈ s.path t ↔ Over ops a t
  /-- upwards. -/
  sorted : ∀ t : Nat, t < (parents ops).length → (s.path t).Pairwise fun a b : Nat => b < a
  /-- A scope holds the nodes of the labels that were minted freshly in it, -/
  known : ∀ a l, (s.minted.lookup (a, l)).isSome = true ↔ IsMinted ops a l
  /-- all of them fresh -/
  fresh : ∀ b ∈ s.minted, ∃ n < s.nextFresh, b.2 = .fresh n
  /-- and distinct. -/
  nodup : (s.minted.map (·.2)).Nodup

variable {ops more : List Op} {s : Scopes} {t : Nat} {l : String} {n : BlankNode}

theorem shows_empty : Shows [] empty where
  size := rfl
  mem_path t ht := absurd ht (Nat.not_lt_zero t)
  sorted t ht := absurd ht (Nat.not_lt_zero t)
  known a l := by
    constructor
    · intro h
      cases h
    · rintro ⟨k, hk, -⟩
      cases hk
  fresh b hb := by cases hb
  nodup := List.nodup_nil

/-- Making a scope below another one, or below none. -/
theorem Shows.push (h : Shows ops s) (hops : areOn 0 ops = true) {op : Op} {p : Option ScopeId}
    (hop : op.parent? = some p) (hp : ∀ q : Nat, p = some q → q < (parents ops).length) :
    Shows (ops ++ [op]) { s with ancestors := s.ancestors.push (p.elim [] s.path) } := by
  have hparents : parents (ops ++ [op]) = parents ops ++ [p] := by
    simp [parents, hop]
  have hpath : ∀ t : Nat, t < (parents ops).length →
      Scopes.path { s with ancestors := s.ancestors.push (p.elim [] s.path) } t = s.path t :=
    fun t ht => congrArg (t :: ·) (getD_push (by rw [h.size]; exact ht))
  have hnew : Scopes.path { s with ancestors := s.ancestors.push (p.elim [] s.path) }
      (parents ops).length = (parents ops).length :: p.elim [] s.path := by
    simp [path, ← h.size]
  have hget : (parents (ops ++ [op]))[(parents ops).length]? = some p := by
    rw [hparents, List.getElem?_concat_length]
  have hminted : ∀ a l, IsMinted (ops ++ [op]) a l ↔ IsMinted ops a l := fun a l => by
    rw [isMinted_concat, or_iff_left]
    rintro ⟨rfl, -⟩
    cases hop
  refine ⟨?_, fun t ht a => ?_, fun t ht => ?_, fun a l => ?_, h.fresh, h.nodup⟩
  · rw [hparents, Array.size_push, List.length_append, h.size]
    rfl
  · rw [hparents, List.length_append, List.length_singleton] at ht
    by_cases hlt : t < (parents ops).length
    · rw [hpath t hlt, over_append hops hlt]
      exact h.mem_path t hlt a
    · obtain rfl : t = (parents ops).length := by omega
      rw [hnew, List.mem_cons]
      constructor
      · rintro (rfl | ha)
        · exact .refl
        · cases p with
          | none => cases ha
          | some q =>
            have hq := hp q rfl
            exact .parent hget ((over_append hops hq).mpr ((h.mem_path q hq a).mp ha))
      · intro ho
        cases ho with
        | refl => exact .inl rfl
        | parent hq ho =>
          obtain rfl := Option.some.inj (hget.symm.trans hq)
          have hq := hp _ rfl
          exact .inr ((h.mem_path _ hq a).mpr ((over_append hops hq).mp ho))
  · rw [hparents, List.length_append, List.length_singleton] at ht
    by_cases hlt : t < (parents ops).length
    · rw [hpath t hlt]
      exact h.sorted t hlt
    · obtain rfl : t = (parents ops).length := by omega
      rw [hnew, List.pairwise_cons]
      cases p with
      | none => exact ⟨fun a ha => absurd ha List.not_mem_nil, List.Pairwise.nil⟩
      | some q =>
        have hq := hp q rfl
        refine ⟨fun a ha => ?_, h.sorted q hq⟩
        have := ((h.mem_path q hq a).mp ha).le hops
        omega
  · rw [hminted]
    exact h.known a l

/-- A label that no scope over a scope knows was not asked for in them. -/
theorem Shows.node?_eq_none_iff (h : Shows ops s) (hops : areOn 0 ops = true)
    (ht : t < (parents ops).length) :
    s.node? t l = none ↔ ∀ b, Over ops b t → .mint b l ∉ ops := by
  rw [node?, List.findSome?_eq_none_iff]
  constructor
  · intro hnone b hb hm
    obtain ⟨a, ha, hminted⟩ := exists_minted_of_mem hops hm
    have hlookup := hnone a ((h.mem_path t ht a).mpr (ha.trans hb))
    rw [← h.known, hlookup] at hminted
    cases hminted
  · intro hnone a ha
    rw [← Option.not_isSome_iff_eq_none, h.known]
    rintro ⟨k, hk, -⟩
    exact hnone a ((h.mem_path t ht a).mp ha) (List.mem_of_getElem? hk)

/-- What is minted anew is not known in its scope. -/
theorem lookup_of_node?_eq_none (h : s.node? t l = none) : s.minted.lookup (t, l) = none := by
  rw [node?, List.findSome?_eq_none_iff] at h
  exact h t List.mem_cons_self

/-- Minting a label in a scope that is there. -/
theorem Shows.mint (h : Shows ops s) (hops : areOn 0 ops = true) (ht : t < (parents ops).length) :
    Shows (ops ++ [.mint t l]) (s.mint t l).2 := by
  have hparents : parents (ops ++ [.mint t l]) = parents ops := by
    simp [parents, Op.parent?]
  have hpath : ∀ u : Nat, u < (parents (ops ++ [.mint t l])).length → ∀ a,
      a ∈ s.path u ↔ Over (ops ++ [.mint t l]) a u := fun u hu a => by
    rw [hparents] at hu
    rw [over_append hops hu]
    exact h.mem_path u hu a
  have hsorted : ∀ u : Nat, u < (parents (ops ++ [.mint t l])).length →
      (s.path u).Pairwise fun a b : Nat => b < a := by
    rw [hparents]
    exact h.sorted
  have hnone := h.node?_eq_none_iff (l := l) hops ht
  unfold Scopes.mint
  cases hnode : s.node? t l with
  | some n =>
    -- some scope over this one was asked for the label before
    refine ⟨by rw [hparents]; exact h.size, hpath, hsorted, fun a m => ?_, h.fresh, h.nodup⟩
    rw [isMinted_concat, h.known, or_iff_left]
    rintro ⟨heq, hall⟩
    cases heq
    rw [hnone.mpr hall] at hnode
    cases hnode
  | none =>
    have hnew : s.minted.lookup (t, l) = none := lookup_of_node?_eq_none hnode
    refine ⟨by rw [hparents]; exact h.size, hpath, hsorted, fun a m => ?_, ?_, ?_⟩
    · rw [isMinted_concat, ← h.known]
      show (List.lookup (a, m) (((t, l), _) :: s.minted)).isSome = true ↔ _
      by_cases heq : (a, m) = (t, l)
      · cases heq
        rw [List.lookup_cons, beq_self_eq_true]
        exact iff_of_true rfl (.inr ⟨rfl, hnone.mp hnode⟩)
      · rw [List.lookup_cons, beq_false_of_ne heq, or_iff_left]
        rintro ⟨hop, -⟩
        cases hop
        exact heq rfl
    · refine List.forall_mem_cons.mpr ⟨⟨s.nextFresh, Nat.lt_succ_self _, rfl⟩, fun b hb => ?_⟩
      obtain ⟨n, hn, hb⟩ := h.fresh b hb
      exact ⟨n, Nat.lt_succ_of_lt hn, hb⟩
    · show (List.map _ (((t, l), BlankNode.fresh s.nextFresh) :: s.minted)).Nodup
      rw [List.map_cons, List.nodup_cons]
      refine ⟨fun hmem => ?_, h.nodup⟩
      obtain ⟨b, hb, he⟩ := List.mem_map.mp hmem
      obtain ⟨n, hn, hfresh⟩ := h.fresh b hb
      have := BlankNode.fresh_injective (hfresh.symm.trans he)
      omega

theorem shows_ofOps (h : areOn 0 ops = true) : Shows ops (ofOps ops) := by
  induction ops using List.reverseRecOn with
  | nil => exact shows_empty
  | append_singleton ops op ih =>
    obtain ⟨hops, hop⟩ := areOn_concat.mp h
    have hs := ih hops
    rw [ofOps_concat]
    cases op with
    | root => exact hs.push hops (p := none) rfl fun q hq => absurd hq (by simp)
    | child parent =>
      refine hs.push hops (p := some parent) rfl fun q hq => ?_
      cases hq
      exact of_decide_eq_true hop
    | mint scope label => exact hs.mint hops (of_decide_eq_true hop)

/-! ### The node of a source -/

/-- The node of a label in a scope is that of its source there. -/
theorem Shows.node?_eq_some_iff (h : Shows ops s) (hops : areOn 0 ops = true)
    (ht : t < (parents ops).length) :
    s.node? t l = some n ↔ ∃ a, IsSource ops t l a ∧ s.minted.lookup (a, l) = some n := by
  have hfirst : ∀ m, s.node? t l = some m →
      ∃ a, IsSource ops t l a ∧ s.minted.lookup (a, l) = some m := by
    intro m hm
    obtain ⟨below, a, above, hpath, ha, hbelow⟩ := List.findSome?_eq_some_iff.mp hm
    have hover : Over ops a t := (h.mem_path t ht a).mp (by rw [hpath]; simp)
    refine ⟨a, ⟨hover, (h.known a l).mp (by rw [ha]; rfl), fun b hb hbm => ?_⟩, ha⟩
    have hmem := (h.mem_path t ht b).mpr hb
    rw [hpath, List.mem_append, List.mem_cons] at hmem
    rcases hmem with hmem | rfl | hmem
    · rw [← h.known, hbelow b hmem] at hbm
      cases hbm
    · exact .refl
    · -- `b` comes behind `a` on the way up
      have hsorted := h.sorted t ht
      rw [hpath, List.pairwise_append] at hsorted
      have hlt : b < a := (List.pairwise_cons.mp hsorted.2.1).1 b hmem
      rcases hover.total hb with hab | hba
      · exact absurd (hab.le hops) (Nat.not_le.mpr hlt)
      · exact hba
  constructor
  · exact hfirst n
  · rintro ⟨a, ha, hn⟩
    cases hnode : s.node? t l with
    | none =>
      obtain ⟨k, hk, -⟩ := ha.minted
      exact absurd (List.mem_of_getElem? hk) ((h.node?_eq_none_iff hops ht).mp hnode a ha.above)
    | some m =>
      obtain ⟨b, hb, hm⟩ := hfirst m hnode
      rw [← hm, hb.unique hops ha, hn]

/-- What was minted stays. -/
theorem lookup_receive (op : Op) {k : ScopeId × String} (hk : s.minted.lookup k = some n) :
    (s.receive op).minted.lookup k = some n := by
  cases op with
  | root | child => exact hk
  | mint scope label =>
    show (s.mint scope label).2.minted.lookup k = some n
    unfold Scopes.mint
    cases hnode : s.node? scope label with
    | some m => exact hk
    | none =>
      have hne : k ≠ (scope, label) := by
        rintro rfl
        rw [lookup_of_node?_eq_none hnode] at hk
        cases hk
      show List.lookup k (((scope, label), _) :: s.minted) = some n
      rw [List.lookup_cons, beq_false_of_ne hne]
      exact hk

theorem lookup_append {k : ScopeId × String} (hk : (ofOps ops).minted.lookup k = some n) :
    (ofOps (ops ++ more)).minted.lookup k = some n := by
  induction more using List.reverseRecOn with
  | nil => rwa [List.append_nil]
  | append_singleton more op ih =>
    rw [← List.append_assoc, ofOps_concat]
    exact lookup_receive op ih

/-- A label is known where it was minted. -/
theorem node?_mint (s : Scopes) (t : ScopeId) (l : String) :
    (s.mint t l).2.node? t l = some (s.mint t l).1 := by
  unfold Scopes.mint
  cases hnode : s.node? t l with
  | some n => exact hnode
  | none =>
    show List.findSome? (fun a => List.lookup (a, l) (((t, l), s.fresh.1) :: s.minted)) (s.path t) = _
    rw [path, List.findSome?_cons, List.lookup_cons, beq_self_eq_true]

theorem take_succ_of_mint {i : Nat} (hi : ops[i]? = some (.mint t l)) :
    ops.take (i + 1) = ops.take i ++ [.mint t l] := by
  rw [List.take_add_one, hi]
  rfl

theorem lt_of_mint {i : Nat} (h : areOn 0 ops = true) (hi : ops[i]? = some (.mint t l)) :
    t < (parents (ops.take (i + 1))).length := by
  refine lt_of_mem_mint (l := l) (areOn_take h (i + 1)) ?_
  rw [take_succ_of_mint hi]
  exact List.mem_append_right _ List.mem_cons_self

/-- An answer is the node of the label's source at the time. -/
theorem exists_source_of_mint (h : areOn 0 ops = true) {i : Nat} (hi : ops[i]? = some (.mint t l)) :
    ∃ a n, answer? ops i = some n ∧ IsSource (ops.take (i + 1)) t l a ∧
      (ofOps ops).minted.lookup (a, l) = some n := by
  have hnow := areOn_take h (i + 1)
  have hnode : (ofOps (ops.take (i + 1))).node? t l =
      some ((ofOps (ops.take i)).mint t l).1 := by
    rw [take_succ_of_mint hi, ofOps_concat]
    exact node?_mint _ t l
  obtain ⟨a, ha, hlookup⟩ :=
    ((shows_ofOps hnow).node?_eq_some_iff hnow (lt_of_mint h hi)).mp hnode
  have hstays : (ofOps (ops.take (i + 1) ++ ops.drop (i + 1))).minted.lookup (a, l) =
      some ((ofOps (ops.take i)).mint t l).1 := lookup_append hlookup
  rw [List.take_append_drop] at hstays
  exact ⟨a, _, by rw [answer?, hi], ha, hstays⟩

/-- Two answers are equal exactly if they have the label and its source in common. -/
theorem answer?_eq_iff (h : areOn 0 ops = true) {i j : Nat} {t u : Nat} {l m : String}
    (hi : ops[i]? = some (.mint t l)) (hj : ops[j]? = some (.mint u m)) :
    answer? ops i = answer? ops j ↔ l = m ∧
      ∃ a, IsSource (ops.take (i + 1)) t l a ∧ IsSource (ops.take (j + 1)) u m a := by
  obtain ⟨a, n, hn, ha, hlookup⟩ := exists_source_of_mint h hi
  obtain ⟨b, k, hk, hb, hlookup'⟩ := exists_source_of_mint h hj
  have hmem : ∀ {key : ScopeId × String} {n : BlankNode},
      (ofOps ops).minted.lookup key = some n → (key, n) ∈ (ofOps ops).minted := by
    intro key n hkey
    obtain ⟨before, after, heq, -⟩ := List.lookup_eq_some_iff.mp hkey
    rw [heq]
    exact List.mem_append_right _ List.mem_cons_self
  rw [hn, hk, Option.some.injEq]
  constructor
  · rintro rfl
    have hpair := List.inj_on_of_nodup_map (shows_ofOps h).nodup (hmem hlookup) (hmem hlookup') rfl
    obtain ⟨rfl, rfl⟩ := Prod.mk.inj (Prod.mk.inj hpair).1
    exact ⟨rfl, a, ha, hb⟩
  · rintro ⟨rfl, c, hac, hbc⟩
    rw [ha.unique (areOn_take h _) hac, ← hb.unique (areOn_take h _) hbc, hlookup'] at hlookup
    exact (Option.some.inj hlookup).symm

/-- An answer is given again. -/
theorem answer?_eq_of_le (h : areOn 0 ops = true) {i j : Nat} (hij : i ≤ j)
    (hi : ops[i]? = some (.mint t l)) (hj : ops[j]? = some (.mint t l)) :
    answer? ops i = answer? ops j := by
  obtain ⟨a, n, -, ha, -⟩ := exists_source_of_mint h hi
  obtain ⟨more, hmore⟩ : ops.take (i + 1) <+: ops.take (j + 1) :=
    List.take_prefix_take_left (by omega)
  have hlater := areOn_take h (j + 1)
  refine (answer?_eq_iff h hi hj).mpr ⟨rfl, a, ha, ?_⟩
  rw [← hmore] at hlater ⊢
  exact ha.append hlater (lt_of_mint h hi)

/-- Minting a label changes nothing about which scope lies over which. -/
theorem over_take_succ {a i : Nat} (h : areOn 0 ops = true) (hi : ops[i]? = some (.mint t l)) :
    Over (ops.take (i + 1)) a t ↔ Over (ops.take i) a t := by
  have htake := take_succ_of_mint hi
  have hnow := areOn_take h (i + 1)
  rw [htake] at hnow ⊢
  obtain ⟨hbefore, hon⟩ := areOn_concat.mp hnow
  exact over_append hbefore (of_decide_eq_true hon)

/-- The source of an answer minted the label before it, or is the scope that mints it now. -/
theorem IsSource.exists_mintsFreshly {a i : Nat} (ha : IsSource (ops.take (i + 1)) t l a)
    (hi : ops[i]? = some (.mint t l)) :
    ∃ k, MintsFreshly ops k a l ∧ (k < i ∨ k = i ∧ a = t) := by
  obtain ⟨k, hk⟩ := ha.minted
  have hki : k < i + 1 := Nat.lt_of_lt_of_le hk.lt_length (List.length_take_le _ _)
  replace hk : MintsFreshly ops k a l := hk.of_take
  refine ⟨k, hk, ?_⟩
  by_cases heq : k = i
  · subst heq
    have hop := Option.some.inj (hk.1.symm.trans hi)
    exact .inr ⟨rfl, (Op.mint.inj hop).1⟩
  · exact .inl (by omega)

/-- An answer is new exactly if its operation mints the label freshly. -/
theorem mintsFreshly_iff (h : areOn 0 ops = true) {i : Nat} (hi : ops[i]? = some (.mint t l)) :
    MintsFreshly ops i t l ↔ ∀ j < i, answer? ops j ≠ answer? ops i := by
  obtain ⟨a, n, hn, ha, -⟩ := exists_source_of_mint h hi
  constructor
  · intro hfresh j hj heq
    cases hop : ops[j]? with
    | none =>
      rw [answer?, hop, hn] at heq
      cases heq
    | some op =>
      cases op with
      | root | child =>
        rw [answer?, hop, hn] at heq
        cases heq
      | mint u m =>
        obtain ⟨rfl, b, hbu, hbt⟩ := (answer?_eq_iff h hop hi).mp heq
        have hasked : .mint b m ∈ ops.take i := by
          obtain ⟨k, hk⟩ := hbu.minted
          obtain ⟨more, hmore⟩ : ops.take (j + 1) <+: ops.take i :=
            List.take_prefix_take_left (by omega)
          rw [← hmore]
          exact List.mem_append_left _ (List.mem_of_getElem? hk.1)
        exact hfresh.2 b ((over_take_succ h hi).mp hbt.above) hasked
  · intro hnew
    obtain ⟨k, hk, hki | ⟨rfl, rfl⟩⟩ := ha.exists_mintsFreshly hi
    · have hsame := (answer?_eq_iff h hk.1 hi).mpr ⟨rfl, a, hk.isSource, ha⟩
      exact absurd hsame (hnew k hki)
    · exact hk

/-! ### Which answers are equal -/

/-- The algebra of scopes: an answer is new exactly if its operation mints the label freshly, it is
given again whatever is done in between, and two answers are equal exactly if they go back to one
scope over both; so siblings share a node only if a scope over their parent was asked before. -/
theorem shares_iff (h : areOn 0 ops = true) :
    (∀ i t l, ops[i]? = some (.mint t l) →
      (MintsFreshly ops i t l ↔ ∀ j < i, answer? ops j ≠ answer? ops i)) ∧
    (∀ i j t l, ops[i]? = some (.mint t l) → ops[j]? = some (.mint t l) →
      ∃ n, answer? ops i = some n ∧ answer? ops j = some n) ∧
    (∀ i j t u l m, ops[i]? = some (.mint t l) → ops[j]? = some (.mint u m) →
      (answer? ops i = answer? ops j ↔ l = m ∧
        ∃ a, IsSource (ops.take (i + 1)) t l a ∧ IsSource (ops.take (j + 1)) u m a)) ∧
    ∀ i j (t u p : Nat) l m, ops[i]? = some (.mint t l) → ops[j]? = some (.mint u m) → t ≠ u →
      (parents ops)[t]? = some (some p) → (parents ops)[u]? = some (some p) →
      answer? ops i = answer? ops j →
      ∃ a k, Over ops a p ∧ k < i ∧ k < j ∧ MintsFreshly ops k a l := by
  refine ⟨fun i t l => mintsFreshly_iff h, fun i j t l hi hj => ?_,
    fun i j t u l m => answer?_eq_iff h, fun i j t u p l m hi hj htu ht hu heq => ?_⟩
  · obtain ⟨-, n, hn, -⟩ := exists_source_of_mint h hi
    refine ⟨n, hn, ?_⟩
    rcases Nat.le_total i j with hij | hji
    · rw [← answer?_eq_of_le h hij hi hj, hn]
    · rw [answer?_eq_of_le h hji hj hi, hn]
  · obtain ⟨rfl, a, hat, hau⟩ := (answer?_eq_iff h hi hj).mp heq
    have hap : Over ops a p := .of_siblings htu ht hu hat.above.of_take hau.above.of_take
    have hle := hap.le h
    have htp := parent_lt h ht
    have hup := parent_lt h hu
    obtain ⟨k, hk, hki⟩ := hat.exists_mintsFreshly hi
    obtain ⟨k', hk', hkj⟩ := hau.exists_mintsFreshly hj
    obtain rfl := hk.unique hk'
    exact ⟨a, k, hap, by omega, by omega, hk⟩

/-- Three children of a root: the first is asked for a label before the root is, the others after. -/
def siblings : List Op :=
  [.root, .child 0, .child 0, .child 0, .mint 1 "b", .mint 0 "b", .mint 2 "b", .mint 3 "b",
    .mint 1 "b"]

theorem siblings_share :
    areOn 0 siblings = true ∧
      answer? siblings 4 = some (.fresh 0) ∧ answer? siblings 6 = some (.fresh 1) ∧
      (∃ n, answer? siblings 4 = some n ∧ answer? siblings 8 = some n) ∧
      ∃ a k, Over siblings a 0 ∧ k < 6 ∧ k < 7 ∧ MintsFreshly siblings k a "b" := by
  have hon : areOn 0 siblings = true := by decide
  have h := shares_iff hon
  refine ⟨hon, by decide, by decide, h.2.1 4 8 1 "b" rfl rfl, ?_⟩
  exact h.2.2.2 6 7 2 3 0 "b" "b" rfl rfl (by decide) rfl rfl (by decide)

end TripleLoom.Scopes
