import TripleLoom.Expression.Builtin
import TripleLoom.Expression.Cast
import TripleLoom.Function.Basic
import TripleLoom.Solution

/-!
# TripleLoom.Expression.Eval — evaluating expressions

An expression is evaluated for a solution.  An unbound variable fails, and so does everything that
needs its value; `||`, `&&`, `IN` and `COALESCE` may succeed although an operand fails.  Patterns
are not matched here: `EXISTS` fails.
-/

namespace TripleLoom

/-- What the value of an expression depends on besides the solution. -/
structure EvalContext where
  functions : FunctionRegistry
  /-- The IRI that relative references are resolved against. -/
  base : Option Iri
  /-- The scope of blank node labels. -/
  scope : ScopeId

namespace Value

/-- Whether two values are equal for `=`: by their order if they have one, or else as values of one
shape. -/
def equal (a b : Value) : Bool :=
  match a.compare b with
  | some order => order == .eq
  | none => a.same b

end Value

/-- The disjunction of truth values that may be missing. -/
def orMissing : Option Bool → Option Bool → Option Bool
  | some true, _ | _, some true => some true
  | some false, some false => some false
  | _, _ => none

/-- The conjunction of truth values that may be missing. -/
def andMissing : Option Bool → Option Bool → Option Bool
  | some false, _ | _, some false => some false
  | some true, some true => some true
  | _, _ => none

namespace Eval

/-- The truth value of an operand, missing if there is none. -/
def condition? (operand : Eval Term) : Eval (Option Bool) := attempt (condition operand)

/-- A comparison of two ordered values. -/
def comparison (a b : Eval Term) (accepts : Ordering → Bool) : Eval Term := do
  let a ← value a
  let b ← value b
  return .ofBool (accepts (← ofOption (a.compare b)))

/-- An operation on two numbers. -/
def arithmetic (a b : Eval Term) (f : Numeric → Numeric → Option Numeric) : Eval Term := do
  let a ← numeric a
  let b ← numeric b
  return .literal (← ofOption (f a b)).toLiteral

/-- Whether one of the candidates equals a value. Behind a candidate that failed only a candidate
that is equal counts. -/
def membership (needle : Value) (failed : Bool) : List (Eval Term) → Eval Term
  | [] => if failed then fail else return .ofBool false
  | candidate :: rest => do
    match ← attempt (value candidate) with
    | some v => if needle.equal v then return .ofBool true else membership needle failed rest
    | none => membership needle true rest

/-- The value of the first operand that has one. -/
def firstOf : List (Eval Term) → Eval Term
  | [] => fail
  | operand :: rest => operand <|> firstOf rest

end Eval

open Eval in
/-- The application of an operator to two operands. -/
def BinaryOperator.apply (a b : Eval Term) : BinaryOperator → Eval Term
  | .or => do
    let a ← condition? a
    let b ← condition? b
    return .ofBool (← ofOption (orMissing a b))
  | .and => do
    let a ← condition? a
    let b ← condition? b
    return .ofBool (← ofOption (andMissing a b))
  | .equal => do
    let a ← value a
    let b ← value b
    return .ofBool (a.equal b)
  | .sameTerm => do
    let a ← a
    let b ← b
    return .ofBool (a = b)
  | .greater => comparison a b (·.isGT)
  | .greaterOrEqual => comparison a b (·.isGE)
  | .less => comparison a b (·.isLT)
  | .lessOrEqual => comparison a b (·.isLE)
  | .add => arithmetic a b Numeric.add?
  | .subtract => arithmetic a b Numeric.sub?
  | .multiply => arithmetic a b Numeric.mul?
  | .divide => arithmetic a b Numeric.div?

open Eval in
/-- The application of an operator to one operand. -/
def UnaryOperator.apply (a : Eval Term) : UnaryOperator → Eval Term
  | .plus => rounding a some
  | .minus => rounding a Numeric.neg?
  | .not => do return .ofBool !(← condition a)

/-- The call of a function by its IRI: a function of the registry, or a cast. -/
def EvalContext.callNamed (c : EvalContext) (name : Iri) (operands : List (Eval Term)) :
    Eval Term := do
  let arguments ← Eval.each id operands
  match c.functions.scalar? name with
  | some f => Eval.ofOption (f arguments)
  | none =>
    match arguments with
    | [argument] => Eval.ofOption (argument.cast? name)
    | _ => Eval.fail

/-- The call of a function. -/
def Function.apply (c : EvalContext) (operands : List (Eval Term)) : Function → Eval Term
  | .builtin f => f.apply c.base c.scope operands
  | .custom name => c.callNamed name operands

mutual

/-- The value of an expression for a solution. -/
def Expression.eval (c : EvalContext) (s : Solution) : Expression → Eval Term
  | .iri i => return .iri i
  | .literal l => return .literal l
  | .var v => Eval.ofOption (s.get? v)
  | .binary o a b => o.apply (a.eval c s) (b.eval c s)
  | .unary o a => o.apply (a.eval c s)
  | .isIn needle candidates => do
    Eval.membership (← Eval.value (needle.eval c s)) false (Expression.evalEach c s candidates)
  | .bound v => return .ofBool (s.contains v)
  | .conditional condition yes no => do
    if ← Eval.condition (condition.eval c s) then yes.eval c s else no.eval c s
  | .coalesce alternatives => Eval.firstOf (Expression.evalEach c s alternatives)
  | .exists _ => Eval.fail
  | .call f arguments => f.apply c (Expression.evalEach c s arguments)

/-- The values of some expressions, each still to be computed. -/
def Expression.evalEach (c : EvalContext) (s : Solution) : List Expression → List (Eval Term)
  | [] => []
  | e :: rest => e.eval c s :: Expression.evalEach c s rest

end

/-- The truth value of an expression for a solution. -/
def Expression.holds (c : EvalContext) (s : Solution) (e : Expression) : Eval Bool :=
  Eval.condition (e.eval c s)

end TripleLoom
