import TripleLoom.Document
import TripleLoom.Function.Basic
import TripleLoom.Query.Basic

/-!
# TripleLoom.Service — what a run asks of the world

A run fetches documents, calls functions, hands select parts to a graph-pattern engine, and has
the text of queries parsed.  Each of these services is a function; an engine may answer each time
differently and is told how often it was asked before.
-/

namespace TripleLoom

/-- What comes of asking for a document. -/
inductive Reply where
  | found (document : Document)
  | missing
  /-- No answer, for ever. -/
  | never
  deriving DecidableEq, Repr

/-- A source of documents: from a URI and the accepted media type to a reply. -/
abbrev Resolver := String → Option String → Reply

/-- The resolver that knows the documents of a catalogue. -/
def Catalogue.resolver (c : Catalogue) : Resolver := fun uri accept =>
  match c.open? uri accept with
  | some document => .found document
  | none => .missing

/-- An error of a graph-pattern engine. -/
inductive EngineError where
  | unsupported (what : String)
  | evaluation (reason : String)
  | other (message : String)
  deriving DecidableEq, Repr

/-- The text of an engine's error. -/
def EngineError.message : EngineError → String
  | .unsupported what => "The graph pattern engine does not support " ++ what
  | .evaluation reason => "Evaluation of the select query failed: " ++ reason
  | .other message => message

/-- The name of the kind of an engine's error. -/
def EngineError.kind : EngineError → String
  | .unsupported _ => "EngineUnsupported"
  | .evaluation _ => "EngineEvaluation"
  | .other _ => "EngineOther"

/-- What comes of asking an engine. -/
inductive EngineReply where
  | solutions (sequence : Sequence)
  | failed (error : EngineError)
  /-- The engine broke down. -/
  | crashed

/-- A graph-pattern engine: from the number of its earlier calls, a select part and the inline
solutions to a reply. -/
abbrev PatternEngine := Nat → Select → Sequence → EngineReply

/-- A reason why a text is no query. -/
structure ParseError where
  reason : String
  deriving DecidableEq, Repr

/-- The text of a parse error. -/
def ParseError.message (e : ParseError) : String := "Unable to parse the query: " ++ e.reason

/-- A parser of queries: from a text and the base IRI to a query. -/
abbrev QueryParser := String → Option String → Except ParseError Query

/-- The services of a run. -/
structure Services where
  resolver : Resolver
  functions : FunctionRegistry
  engine : Option PatternEngine
  parser : Option QueryParser

/-- The limits and habits of a run. -/
structure Options where
  /-- The number of fetches and engine calls that may go on at a time; none counts as one. -/
  maxConcurrency : Nat
  /-- The time in milliseconds after which a run is closed. -/
  timeout : Option Nat
  /-- The media type in which named queries are asked for. -/
  queryMediaType : Option String
  deriving DecidableEq, Repr, Inhabited

/-- Options with another limit, which is at least one. -/
def Options.withMaxConcurrency (o : Options) (limit : Nat) : Options :=
  { o with maxConcurrency := max 1 limit }

/-- The media type of named queries. -/
def defaultQueryMediaType : String := "application/vnd.sparql-generate"

/-- Services and options together: what stays the same throughout a run. -/
structure Setting extends Services, Options

end TripleLoom
