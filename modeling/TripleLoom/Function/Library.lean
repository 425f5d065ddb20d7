import TripleLoom.Function.Basic
import TripleLoom.Text.Search

/-!
# TripleLoom.Function.Library — the built-in functions

Three functions are there from the start: an iterator over a range of integers, an iterator over
the pieces of a text between separators, and a scalar function that picks one such piece.
-/

namespace TripleLoom

/-- The iterator over a range of integers. -/
def Iri.iterFor : Iri := ⟨"http://w3id.org/sparql-generate/iter/for"⟩

/-- The iterator over the pieces of a text. -/
def Iri.iterSplit : Iri := ⟨"http://w3id.org/sparql-generate/iter/Split"⟩

/-- The function that picks a piece of a text. -/
def Iri.splitAtPosition : Iri := ⟨"http://w3id.org/sparql-generate/fn/SplitAtPosition"⟩

/-- The integer one. -/
def Integer.one : Integer := ⟨1, by decide, by decide⟩

/-- The integers from the first argument up to the second, by steps of the third or of one. -/
def countIntegers (arguments : List Term) : Except ArgumentFault TupleStream := do
  let first ← integerArgument arguments 0
  let last ← integerArgument arguments 1
  let step ← if 2 < arguments.length then integerArgument arguments 2 else pure Integer.one
  if step.val = 0 then throw .zeroStep
  return .counting (some first) last step

/-- The pieces of a text between the separators, as texts. -/
def splitText (text separator : String) : List String :=
  (Text.pieces separator.toList text.toList).map String.ofList

/-- The pieces of the first argument between occurrences of the second, in one batch. -/
def splitIntoPieces (arguments : List Term) : Except ArgumentFault TupleStream := do
  let text ← stringArgument arguments 0
  let separator ← stringArgument arguments 1
  if separator.isEmpty then throw .emptySeparator
  return .given [(splitText text separator).map fun piece => [some (Term.ofText piece)]] .finished

/-- The piece of the first argument, between occurrences of the second, at the position that the
third counts from zero. -/
def pickPiece : ScalarFunction
  | [text, separator, position] => do
    let .numeric (.integer position) := Value.ofTerm position | none
    let text ← (Value.ofTerm text).text?
    let separator ← (Value.ofTerm separator).text?
    if separator.isEmpty ∨ position.val < 0 then none
    let piece ← (splitText text separator)[position.val.toNat]?
    return Term.ofText piece
  | _ => none

/-- An iterator function that answers each call alike. -/
def IteratorFunction.ofPure (name : Iri) (f : List Term → Except ArgumentFault TupleStream) :
    IteratorFunction :=
  fun _ arguments => (f arguments).mapError (.invalidArguments name)

/-- The registry of the built-in functions. -/
def FunctionRegistry.builtin : FunctionRegistry :=
  ((FunctionRegistry.empty.addIterator .iterFor (.ofPure .iterFor countIntegers)).addIterator
    .iterSplit (.ofPure .iterSplit splitIntoPieces)).addScalar .splitAtPosition pickPiece

end TripleLoom
