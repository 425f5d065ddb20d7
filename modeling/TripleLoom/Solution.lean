import TripleLoom.Term.NTriples

/-!
# TripleLoom.Solution — rows of variable bindings

A solution is a stack of layers.  Adding bindings puts a layer on top of those that are there, which
it shares and never changes; a newer binding hides the older ones of its variable and none is ever
taken away.  So a solution is read as the finite map that `get?` looks up, and `bindings` lists that
map, each variable once, the newest first.
-/

namespace TripleLoom

/-- A row of variable bindings: layers of them, the newest layer first, the newest binding of a layer
last.  No layer is without bindings. -/
structure Solution where
  layers : List (List (Variable × Term))
  ne_nil : ∀ layer ∈ layers, layer ≠ []
  deriving Repr

namespace Solution

/-- The solution that binds nothing. -/
def empty : Solution := ⟨[], nofun⟩

instance : Inhabited Solution := ⟨empty⟩

/-- The term bound to a variable, in the newest layer that binds it. -/
def get? (s : Solution) (v : Variable) : Option Term :=
  s.layers.findSome? fun layer => layer.reverse.lookup v

/-- Whether a variable is bound. -/
def contains (s : Solution) (v : Variable) : Bool := (s.get? v).isSome

/-- A solution with a layer of bindings on top, of which the later ones count.  No bindings make no
layer. -/
def extend (s : Solution) : List (Variable × Term) → Solution
  | [] => s
  | b :: rest => ⟨(b :: rest) :: s.layers, List.forall_mem_cons.mpr ⟨List.cons_ne_nil b rest, s.ne_nil⟩⟩

/-- A solution with one more binding. -/
def overlay (s : Solution) (v : Variable) (t : Term) : Solution := s.extend [(v, t)]

/-- The solution of a list of bindings, of which the later ones count. -/
def ofBindings (bindings : List (Variable × Term)) : Solution := empty.extend bindings

/-- The solution that binds some variables alone. -/
def project (s : Solution) (vars : List Variable) : Solution :=
  ofBindings (vars.filterMap fun v => (s.get? v).map (v, ·))

/-- The first binding of every variable of a list. -/
def firsts : List (Variable × Term) → List (Variable × Term)
  | [] => []
  | b :: rest => b :: (firsts rest).filter (·.1 ≠ b.1)

/-- All bindings of all layers, the newest first. -/
def history (s : Solution) : List (Variable × Term) := s.layers.flatMap List.reverse

/-- The bindings that count, the newest first. -/
def bindings (s : Solution) : List (Variable × Term) := firsts s.history

/-- The number of bound variables. -/
def size (s : Solution) : Nat := s.bindings.length

/-- Whether nothing is bound. -/
def isEmpty (s : Solution) : Bool := s.layers.isEmpty

/-- Whether two solutions bind the same variables to the same terms. -/
def same (s t : Solution) : Bool :=
  s.size == t.size && s.bindings.all fun (v, term) => t.get? v == some term

/-- The text of a solution. -/
def display (s : Solution) : String :=
  "\x7b" ++ ", ".intercalate (s.bindings.map fun (v, t) => v.display ++ " -> " ++ t.display)
    ++ "\x7d"

/-! ### Lookups -/

@[simp] theorem get?_empty (v : Variable) : empty.get? v = none := rfl

@[simp] theorem history_empty : empty.history = [] := rfl

@[simp] theorem history_extend (s : Solution) (bindings : List (Variable × Term)) :
    (s.extend bindings).history = bindings.reverse ++ s.history := by
  cases bindings with
  | nil => rfl
  | cons b rest => exact List.flatMap_cons

/-- Looking through the layers is looking through all bindings. -/
theorem get?_eq_lookup (s : Solution) (v : Variable) : s.get? v = s.history.lookup v := by
  unfold get? history
  induction s.layers with
  | nil => rfl
  | cons layer rest ih =>
    rw [List.findSome?_cons, List.flatMap_cons, List.lookup_append, ← ih]
    cases layer.reverse.lookup v <;> rfl

theorem get?_overlay (s : Solution) (v w : Variable) (t : Term) :
    (s.overlay v t).get? w = if w = v then some t else s.get? w := by
  rw [overlay, get?_eq_lookup, get?_eq_lookup, history_extend]
  by_cases h : w = v
  · simp [h]
  · simp [List.lookup_cons, h, beq_false_of_ne h]

/-- Whether bindings come in one layer or in two makes no difference to a lookup. -/
theorem get?_extend_cons (s : Solution) (b : Variable × Term) (rest : List (Variable × Term))
    (v : Variable) : (s.extend (b :: rest)).get? v = ((s.overlay b.1 b.2).extend rest).get? v := by
  simp [get?_eq_lookup, overlay]

end Solution

end TripleLoom
