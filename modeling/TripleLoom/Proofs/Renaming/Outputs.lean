import TripleLoom.Proofs.Renaming.Clauses

/-!
# TripleLoom.Proofs.Renaming.Outputs — triples and lists up to renaming

A placeholder is minted in a scope, and the nodes of a list are made for a fork.  In scopes and
forks that stand for each other these nodes are paired, so the triples that are written for
solutions that are alike are alike.
-/

namespace TripleLoom

open List (Forall₂)
open RunM (Matches)

variable {A : Alignment} {c c' : Context}

/-! ### Contexts of their own -/

/-- Contexts whose lists are those of forks that stand for each other. -/
structure Context.ForkLike (A : Alignment) (c c' : Context) : Prop extends Context.Like A c c' where
  fork : A.forks c.fork c'.fork
  size : c.size = c'.size

theorem Context.Like.forkFor (hc : Context.Like A c c') (size : Nat) :
    Matches A (Context.ForkLike A) (c.forkFor size) (c'.forkFor size) :=
  .bind (.scopes (Scopes.inStep_child hc.scope)) fun _ _ h _ _ hs =>
    ⟨⟨⟨hc.sink, h, hc.base⟩, hs.nextFork, rfl⟩, { hs with nextFork := hs.nextFork.succ }⟩

theorem Context.ForkLike.listNodes (hc : Context.ForkLike A c c') (list : Nat) :
    Matches A (Forall₂ (Term.Like A.pairing)) (c.listNodes list) (c'.listNodes list) := by
  intro s s' hs
  have hknown := hs.lists _ _ hc.fork list
  unfold Context.listNodes
  generalize s.lists.lookup (c.fork, list) = nodes at hknown ⊢
  generalize s'.lists.lookup (c'.fork, list) = nodes' at hknown ⊢
  cases hknown with
  | some hnodes => exact ⟨hnodes, hs⟩
  | none =>
    rw [hc.size]
    obtain ⟨hnodes, hscopes⟩ := Scopes.inStep_allocateList c'.size _ _ hs.scopes
    refine ⟨hnodes, { hs with scopes := hscopes, lists := fun fork fork' hfork other => ?_ }⟩
    refine rel_lookup_cons (hs.lists fork fork' hfork other) ?_ hnodes
    rw [Prod.mk.injEq, Prod.mk.injEq, hfork.eq_iff hc.fork]

/-! ### Triples -/

section Templates

variable (hc : Context.Like A c c') {s s' : Solution} (hs : Solution.Like A.pairing s s')

include hc hs

theorem TemplateTerm.matches_instantiate (t : TemplateTerm) :
    Matches A (Option.Rel (Term.Like A.pairing)) (t.instantiate c s) (t.instantiate c' s') := by
  cases t with
  | iri i => exact .pure (.some (.iri i))
  | blank b => exact .bind (hc.mint b.label) fun _ _ h => .pure (.some h)
  | literal l => exact .pure (.some (.literal l))
  | var v => exact .pure (hs v)

theorem TripleTemplate.matches_instantiate (t : TripleTemplate) :
    Matches A (Option.Rel (Triple.Like A.pairing)) (t.instantiate c s) (t.instantiate c' s') := by
  refine .bind (t.subject.matches_instantiate hc hs) fun _ _ hsubject => ?_
  cases hsubject with
  | none => exact .pure .none
  | some hsubject =>
    refine .bind (t.predicate.matches_instantiate hc hs) fun _ _ hpredicate => ?_
    cases hpredicate with
    | none => exact .pure .none
    | some hpredicate =>
      refine .bind (t.object.matches_instantiate hc hs) fun _ _ hobject => ?_
      cases hobject with
      | none => exact .pure .none
      | some hobject => exact .pure (Triple.like_ofTerms? hsubject hpredicate hobject)

theorem ListTemplate.matches_head {node node' : Term} (hn : Term.Like A.pairing node node')
    (t : ListTemplate) :
    Matches A (Option.Rel (Triple.Like A.pairing)) (t.head c s node) (t.head c' s' node') := by
  refine .bind (t.subject.matches_instantiate hc hs) fun _ _ hsubject =>
    .bind (t.predicate.matches_instantiate hc hs) fun _ _ hpredicate => ?_
  cases hsubject with
  | none => exact .pure .none
  | some hsubject =>
    cases hpredicate with
    | none => exact .pure .none
    | some hpredicate => exact .pure (Triple.like_ofTerms? hsubject hpredicate hn)

variable {fork fork' : Context} (hfork : Context.ForkLike A fork fork')

include hfork

theorem ListTemplate.matches_instantiate (index : Nat) (t : ListTemplate) :
    Matches A (Forall₂ (Triple.Like A.pairing)) (t.instantiate fork c index s)
      (t.instantiate fork' c' index s') := by
  refine .bind (hfork.listNodes t.id) fun nodes nodes' hnodes => ?_
  have hnode := rel_getElem? hnodes index
  have hnext := rel_getElem? hnodes (index + 1)
  generalize nodes[index]? = node at hnode ⊢
  generalize nodes'[index]? = node' at hnode ⊢
  generalize nodes[index + 1]? = next at hnext ⊢
  generalize nodes'[index + 1]? = next' at hnext ⊢
  cases hnode with
  | none => exact .pure .nil
  | @some node node' hnode =>
    cases hnext with
    | none => exact .pure .nil
    | @some next next' hnext =>
      have hend : ∀ {head head' : Option Triple}, Option.Rel (Triple.Like A.pairing) head head' →
          Matches A (Forall₂ (Triple.Like A.pairing))
            (do
              let value ← t.element.instantiate c s
              let first := value.bind fun value =>
                Triple.ofTerms? node (.iri (Iri.rdf "first")) value
              let rest := Triple.ofTerms? node (.iri (Iri.rdf "rest")) next
              return head.toList ++ first.toList ++ rest.toList)
            (do
              let value ← t.element.instantiate c' s'
              let first := value.bind fun value =>
                Triple.ofTerms? node' (.iri (Iri.rdf "first")) value
              let rest := Triple.ofTerms? node' (.iri (Iri.rdf "rest")) next'
              return head'.toList ++ first.toList ++ rest.toList) := fun hhead =>
        .bind (t.element.matches_instantiate hc hs) fun _ _ hvalue => .pure <|
          List.rel_append (List.rel_append (rel_toList hhead)
            (rel_toList (rel_bind hvalue fun _ _ hv => Triple.like_ofTerms? hnode (.iri _) hv)))
            (rel_toList (Triple.like_ofTerms? hnode (.iri _) hnext))
      dsimp only
      by_cases hindex : index = 0
      · rw [if_pos hindex, if_pos hindex]
        exact .bind (t.matches_head hc hs hnode) fun _ _ hhead => hend hhead
      · rw [if_neg hindex, if_neg hindex]
        exact hend .none

theorem TriplesPlan.matches_writeOne (plan : TriplesPlan) (index : Nat) :
    Matches A Eq (plan.writeOne fork c index s) (plan.writeOne fork' c' index s') := by
  have htriple : ∀ {t t' : Triple}, Triple.Like A.pairing t t' →
      Matches A Eq (fork.write (.triple t)) (fork'.write (.triple t')) := fun h =>
    hfork.write (.triple h)
  refine .bind (.forM (P := Eq) (fun t _ ht => ?_) (List.forall₂_refl _)) fun _ _ _ =>
    .forM (P := Eq) (fun t _ ht => ?_) (List.forall₂_refl _)
  · subst ht
    refine .bind (t.matches_instantiate hc hs) fun _ _ h => ?_
    cases h with
    | none => exact .pure rfl
    | some h => exact htriple h
  · subst ht
    exact .bind (t.matches_instantiate hc hs hfork index) fun _ _ h =>
      .forM (P := Triple.Like A.pairing) (fun _ _ ht => htriple ht) h

end Templates

theorem TriplesPlan.matches_writeAll {fork fork' : Context} (hfork : Context.ForkLike A fork fork')
    (plan : TriplesPlan) : ∀ (index : Nat) {sites sites' : List (Context × Solution)},
      Forall₂ (fun x y => Context.Like A x.1 y.1 ∧ Solution.Like A.pairing x.2 y.2) sites sites' →
      Matches A Eq (plan.writeAll fork index sites) (plan.writeAll fork' index sites')
  | _, _, _, .nil => .pure rfl
  | index, _, _, .cons h hrest =>
    .bind (plan.matches_writeOne h.1 h.2 hfork index) fun _ _ _ =>
      matches_writeAll hfork plan (index + 1) hrest

end TripleLoom
