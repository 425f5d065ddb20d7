import TripleLoom.Plan.OfQuery
import TripleLoom.Service

/-!
# TripleLoom.Run.Error — why a run fails

An expression that has no value, a document that is not found and an iteration that breaks off make
no run fail.  What does is a query that contradicts itself or another one, a service that is
missing, and the breakdown of the engine.
-/

namespace TripleLoom

/-- An error of a run. -/
inductive RunError where
  | plan (error : PlanError)
  | parse (error : ParseError)
  | engine (error : EngineError)
  | noGraphPatternEngine
  | queryNotFound (name : Iri)
  | noQueryParser (name : Iri)
  | argumentsWithoutSignature (name : Iri)
  | missingArguments (name : Iri)
  | arityMismatch (name : Iri) (expected actual : Nat)
  | unknownIteratorFunction (name : Iri)
  /-- A node of the given kind stands where it cannot be run. -/
  | unexpectedPlanNode (kind : String)
  /-- The engine broke down. -/
  | breakdown
  deriving DecidableEq, Repr

/-- The text of an error. -/
def RunError.message : RunError → String
  | .plan e => e.message
  | .parse e => e.message
  | .engine e => e.message
  | .noGraphPatternEngine => "The query requires a graph pattern engine but none is configured"
  | .queryNotFound name => "The named query " ++ name.display ++ " could not be found"
  | .noQueryParser name =>
    "Loading the named query " ++ name.display ++
      " requires a query parser but none is configured"
  | .argumentsWithoutSignature name =>
    "The query " ++ name.display ++ " does not declare a signature but is called with arguments"
  | .missingArguments name =>
    "The query " ++ name.display ++ " declares a signature but is called without arguments"
  | .arityMismatch name expected actual =>
    "The query " ++ name.display ++ " expects " ++ toString expected ++ " arguments but " ++
      toString actual ++ " were given"
  | .unknownIteratorFunction name => "The iterator function " ++ name.display ++ " is unknown"
  | .unexpectedPlanNode kind =>
    "A " ++ kind ++ " node cannot be executed at this position of the plan"
  | .breakdown => ""

/-- The name of an error's kind. -/
def RunError.kind : RunError → String
  | .plan e => e.kind
  | .parse _ => "QueryParse"
  | .engine e => e.kind
  | .noGraphPatternEngine => "NoGraphPatternEngine"
  | .queryNotFound _ => "QueryNotFound"
  | .noQueryParser _ => "NoQueryParser"
  | .argumentsWithoutSignature _ => "ArgumentsWithoutSignature"
  | .missingArguments _ => "MissingArguments"
  | .arityMismatch .. => "ArityMismatch"
  | .unknownIteratorFunction _ => "UnknownIteratorFunction"
  | .unexpectedPlanNode _ => "UnexpectedPlanNode"
  | .breakdown => "Internal"

/-- How a piece of work ends: with an error or without. -/
abbrev Outcome := Option RunError

end TripleLoom
