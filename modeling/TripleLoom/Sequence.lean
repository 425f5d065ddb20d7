import TripleLoom.Solution
import TripleLoom.Term.Declared

/-!
# TripleLoom.Sequence — ordered solutions under declared variables

What flows between the clauses of a query: a list of solutions and the variables declared for
them, each once and in the order of their declaration.  A solution need not bind every declared
variable.
-/

namespace TripleLoom

/-- An ordered list of solutions that share their declared variables. -/
structure Sequence where
  vars : List Variable
  solutions : List Solution
  nodup : vars.Nodup
  deriving Repr

namespace Sequence

/-- The sequence without variables and solutions. -/
def empty : Sequence := ⟨[], [], List.nodup_nil⟩

instance : Inhabited Sequence := ⟨empty⟩

/-- A sequence with one more declared variable, unless it is declared already. -/
def declare (s : Sequence) (v : Variable) : Sequence :=
  ⟨Variable.declare s.vars v, s.solutions, Variable.nodup_declare s.nodup v⟩

/-- A sequence with more declared variables. -/
def declareAll (s : Sequence) (vars : List Variable) : Sequence :=
  ⟨Variable.declareAll s.vars vars, s.solutions,
    Variable.nodup_declareAll s.nodup vars⟩

/-- A sequence with the same variables and other solutions. -/
def withSolutions (s : Sequence) (solutions : List Solution) : Sequence :=
  { s with solutions := solutions }

/-- The sequence of some solutions under some variables, repeated ones counting once. -/
def ofLists (vars : List Variable) (solutions : List Solution) : Sequence :=
  (empty.withSolutions solutions).declareAll vars

/-- The sequence of the one solution that binds nothing: the input of a query without values. -/
def unit : Sequence := empty.withSolutions [.empty]

/-- A sequence with one more solution. -/
def push (s : Sequence) (solution : Solution) : Sequence :=
  s.withSolutions (s.solutions ++ [solution])

/-- The number of solutions. -/
def size (s : Sequence) : Nat := s.solutions.length

/-- Whether there is no solution. -/
def isEmpty (s : Sequence) : Bool := s.solutions.isEmpty

/-- Whether two sequences declare the same variables in the same order and hold the same
solutions in the same order. -/
def same (s t : Sequence) : Bool :=
  s.vars == t.vars && s.size == t.size &&
    (s.solutions.zip t.solutions).all fun (a, b) => a.same b

@[simp] theorem vars_withSolutions (s : Sequence) (solutions : List Solution) :
    (s.withSolutions solutions).vars = s.vars := rfl

@[simp] theorem solutions_withSolutions (s : Sequence) (solutions : List Solution) :
    (s.withSolutions solutions).solutions = solutions := rfl

@[simp] theorem solutions_declare (s : Sequence) (v : Variable) :
    (s.declare v).solutions = s.solutions := rfl

@[simp] theorem solutions_ofLists (vars : List Variable) (solutions : List Solution) :
    (ofLists vars solutions).solutions = solutions := rfl

end Sequence

end TripleLoom
