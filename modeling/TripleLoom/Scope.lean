import TripleLoom.Term.Basic

/-!
# TripleLoom.Scope — scopes of blank node labels

Labels get their blank nodes in scopes, which form a tree.  A label that an ancestor of a scope
knows stands for the ancestor's node there; a label that none of them knows gets a fresh node in
the scope itself.  Fresh nodes are numbered, and no two of them are equal.
-/

namespace TripleLoom

/-- The digits of a number behind enough zeros to make up 31 places. -/
def paddedDigits (n : Nat) : List Char := (Nat.toDigits 10 n).leftpad 31 '0'

/-- The fresh blank node of a number. -/
def BlankNode.fresh (n : Nat) : BlankNode := ⟨String.ofList ('b' :: paddedDigits n)⟩

theorem BlankNode.fresh_injective {m n : Nat} (h : fresh m = fresh n) : m = n := by
  have hd : paddedDigits m = paddedDigits n := by
    simpa [fresh] using congrArg (fun b => b.label.toList) h
  have hz : ∀ k ds, Nat.ofDigitChars 10 (List.replicate k '0' ++ ds) 0 =
      Nat.ofDigitChars 10 ds 0 := by
    intro k ds
    induction k with
    | zero => rfl
    | succ k ih => simpa [List.replicate_succ, Nat.ofDigitChars] using ih
  simpa [paddedDigits, List.leftpad, hz] using
    congrArg (fun ds => Nat.ofDigitChars 10 ds 0) hd

/-- The number of a scope. -/
abbrev ScopeId := Nat

/-- All scopes: for each its ancestors, the nearest first, and which label of which scope got
which node, the newest first; and the number of the next fresh node. -/
structure Scopes where
  ancestors : Array (List ScopeId)
  minted : List ((ScopeId × String) × BlankNode)
  nextFresh : Nat
  deriving Repr, Inhabited

namespace Scopes

/-- No scope. -/
def empty : Scopes := ⟨#[], [], 0⟩

/-- A fresh blank node. -/
def fresh (s : Scopes) : BlankNode × Scopes :=
  (.fresh s.nextFresh, { s with nextFresh := s.nextFresh + 1 })

/-- Some fresh blank nodes. -/
def freshAll (s : Scopes) : Nat → List BlankNode × Scopes
  | 0 => ([], s)
  | n + 1 =>
    let (node, s) := s.fresh
    let (nodes, s) := s.freshAll n
    (node :: nodes, s)

/-- A new scope without ancestors. -/
def root (s : Scopes) : ScopeId × Scopes :=
  (s.ancestors.size, { s with ancestors := s.ancestors.push [] })

/-- A scope and its ancestors, from the nearest to the farthest. -/
def path (s : Scopes) (scope : ScopeId) : List ScopeId := scope :: (s.ancestors.getD scope [])

/-- A new scope below another. -/
def child (s : Scopes) (parent : ScopeId) : ScopeId × Scopes :=
  (s.ancestors.size, { s with ancestors := s.ancestors.push (s.path parent) })

/-- A new scope leaves the ancestors of the others as they are. -/
theorem getD_push {xs : Array (List ScopeId)} {x : List ScopeId} {a : Nat}
    (h : a < xs.size) : (xs.push x).getD a [] = xs.getD a [] := by
  simp [Array.getD_eq_getD_getElem?, Array.getElem?_push, Nat.ne_of_lt h]

/-- A new scope below another, several times. -/
def children (s : Scopes) (parent : ScopeId) : Nat → List ScopeId × Scopes
  | 0 => ([], s)
  | n + 1 =>
    let (scope, s) := s.child parent
    let (scopes, s) := s.children parent n
    (scope :: scopes, s)

/-- The node of a label in a scope, if the scope or an ancestor knows the label. -/
def node? (s : Scopes) (scope : ScopeId) (label : String) : Option BlankNode :=
  (s.path scope).findSome? fun a => s.minted.lookup (a, label)

/-- The node of a label in a scope, which is a fresh one if the label is not known there. -/
def mint (s : Scopes) (scope : ScopeId) (label : String) : BlankNode × Scopes :=
  match s.node? scope label with
  | some node => (node, s)
  | none =>
    let (node, s) := s.fresh
    (node, { s with minted := ((scope, label), node) :: s.minted })

/-- The nodes of a list of a given size: as many fresh blank nodes and the empty list. -/
def allocateList (s : Scopes) (size : Nat) : List Term × Scopes :=
  let (nodes, s) := s.freshAll size
  (nodes.map Term.blank ++ [Term.nil], s)

end Scopes

end TripleLoom
