import TripleLoom.Term.NTriples
import TripleLoom.Value

/-!
# TripleLoom.Function.Basic — what iterator and scalar functions are

A scalar function maps its arguments to a term or fails.  An iterator function maps its arguments
to a stream of batches of tuples, or refuses them.  A stream is asked for its next signal: a batch,
its end, an error, or nothing for now.  Since a function may answer each time differently, it is
told how often it was called before.
-/

namespace TripleLoom

/-- The values of one step of an iteration; some may be absent. -/
abbrev Tuple := List (Option Term)

/-- Tuples that are handed out together. -/
abbrev TupleBatch := List Tuple

/-! ### Errors -/

/-- What is wrong with the arguments of a function. -/
inductive ArgumentFault where
  | missing (index : Nat)
  | noInteger (index : Nat)
  | noString (index : Nat)
  | zeroStep
  | emptySeparator
  deriving DecidableEq, Repr

/-- The wording of a fault. -/
def ArgumentFault.message : ArgumentFault → String
  | .missing i => "argument " ++ toString i ++ " is missing"
  | .noInteger i => "argument " ++ toString i ++ " must be an integer"
  | .noString i => "argument " ++ toString i ++ " must be a string"
  | .zeroStep => "the step must not be zero"
  | .emptySeparator => "the separator must not be empty"

/-- An error of a function. -/
inductive FunctionError where
  | invalidArguments (function : Iri) (fault : ArgumentFault)
  | other (message : String)
  deriving DecidableEq, Repr

/-- The text of an error. -/
def FunctionError.message : FunctionError → String
  | .invalidArguments f fault =>
    "Invalid arguments for function " ++ f.display ++ ": " ++ fault.message
  | .other message => message

/-! ### Streams -/

/-- How a stream goes on behind its last batch. -/
inductive Ending where
  | finished
  | failed (error : FunctionError)
  /-- It neither ends nor fails. -/
  | pending
  deriving DecidableEq, Repr

/-- A stream of batches, by what it has still to give. -/
inductive TupleStream where
  /-- The given batches and what comes behind them. -/
  | given (batches : List TupleBatch) (ending : Ending)
  /-- The integers from the next one on, by steps, up to the last one. -/
  | counting (next : Option Integer) (last step : Integer)
  deriving Repr

/-- What a stream answers when asked. -/
inductive Signal where
  | batch (tuples : TupleBatch) (rest : TupleStream)
  | finished
  | failed (error : FunctionError)
  | pending
  deriving Repr

namespace TupleStream

/-- The number of tuples in a full batch of integers. -/
def batchSize : Nat := 1024

/-- Whether a number is not yet beyond the last one in the direction of the step. -/
def within (last step value : Integer) : Bool :=
  if 0 < step.val then value.val ≤ last.val else last.val ≤ value.val

/-- Up to `count` integers of a counting stream, and the one after them. -/
def count (last step : Integer) : Nat → Option Integer → List Integer × Option Integer
  | _, none => ([], none)
  | 0, some value => ([], some value)
  | count + 1, some value =>
    if within last step value then
      let (values, next) := TupleStream.count last step count (value.add? step)
      (value :: values, next)
    else ([], none)

/-- The next signal of a stream. -/
def next : TupleStream → Signal
  | .given (batch :: rest) ending => .batch batch (.given rest ending)
  | .given [] .finished => .finished
  | .given [] (.failed e) => .failed e
  | .given [] .pending => .pending
  | .counting value last step =>
    match count last step batchSize value with
    | ([], _) => .finished
    | (values, rest) =>
      .batch (values.map fun n => [some (Term.ofInt n.val)]) (.counting rest last step)

end TupleStream

/-! ### Functions and registries -/

/-- An iterator function: from the number of its earlier calls and the arguments to a stream. -/
abbrev IteratorFunction := Nat → List Term → Except FunctionError TupleStream

/-- A scalar function. -/
abbrev ScalarFunction := List Term → Option Term

/-- Functions by their names, the newest first. -/
structure FunctionRegistry where
  iterators : List (Iri × IteratorFunction)
  scalars : List (Iri × ScalarFunction)

namespace FunctionRegistry

/-- The registry without functions. -/
def empty : FunctionRegistry := ⟨[], []⟩

/-- A registry with one more iterator function, in place of any other of its name. -/
def addIterator (r : FunctionRegistry) (name : Iri) (f : IteratorFunction) : FunctionRegistry :=
  { r with iterators := (name, f) :: r.iterators }

/-- A registry with one more scalar function, in place of any other of its name. -/
def addScalar (r : FunctionRegistry) (name : Iri) (f : ScalarFunction) : FunctionRegistry :=
  { r with scalars := (name, f) :: r.scalars }

/-- The iterator function of a name. -/
def iterator? (r : FunctionRegistry) (name : Iri) : Option IteratorFunction :=
  r.iterators.lookup name

/-- The scalar function of a name. -/
def scalar? (r : FunctionRegistry) (name : Iri) : Option ScalarFunction := r.scalars.lookup name

end FunctionRegistry

/-! ### Arguments -/

/-- The namespace of the IRIs that name media types. -/
def mediaTypeNamespace : String := "http://www.iana.org/assignments/media-types/"

/-- Whether a literal is a document: its datatype names a media type. -/
def Literal.isDocument (l : Literal) : Bool :=
  mediaTypeNamespace.toList.isPrefixOf l.datatype.text.toList

/-- The text of the argument at an index: a string, with or without a language, or a document. -/
def stringArgument (arguments : List Term) (index : Nat) : Except ArgumentFault String := do
  let some term := arguments[index]? | throw (.missing index)
  match Value.ofTerm term with
  | .other l => if l.isDocument then return l.value else throw (.noString index)
  | value =>
    match value.text? with
    | some text => return text
    | none => throw (.noString index)

/-- The integer that is the argument at an index. -/
def integerArgument (arguments : List Term) (index : Nat) : Except ArgumentFault Integer := do
  let some term := arguments[index]? | throw (.missing index)
  match Value.ofTerm term with
  | .numeric (.integer n) => return n
  | _ => throw (.noInteger index)

end TripleLoom
