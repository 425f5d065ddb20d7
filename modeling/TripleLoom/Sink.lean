import TripleLoom.Sequence

/-!
# TripleLoom.Sink — what a run hands out

A run talks to its sink by calls: it starts, announces prefixes and the base IRI, hands out
triples, texts and solutions, and finishes.  Two receivers are given.  One collects the calls.  The
other writes triples as N-Triples, texts as they are and solutions as lines of tab-separated terms
into a writer of limited room, which refuses each piece that it has no room for, and stops for good
at the first such error.
-/

namespace TripleLoom

/-- A call on a sink. -/
inductive SinkCall where
  | start
  | prefixName (name iri : String)
  | base (iri : String)
  | triple (triple : Triple)
  | text (text : String)
  | solution (vars : List Variable) (solution : Solution)
  | finish
  deriving Inhabited

/-! ### Collecting -/

/-- Everything a collecting sink was told. -/
structure Collected where
  started : Nat
  finished : Nat
  prefixes : List (String × String)
  base : Option String
  triples : List Triple
  text : String
  solutions : List Solution
  deriving Inhabited

namespace Collected

/-- Nothing so far. -/
def empty : Collected := ⟨0, 0, [], none, [], "", []⟩

/-- What is collected after one more call. -/
def receive (c : Collected) : SinkCall → Collected
  | .start => { c with started := c.started + 1 }
  | .prefixName name iri => { c with prefixes := c.prefixes ++ [(name, iri)] }
  | .base iri => { c with base := some iri }
  | .triple t => { c with triples := c.triples ++ [t] }
  | .text s => { c with text := c.text ++ s }
  | .solution _ s => { c with solutions := c.solutions ++ [s] }
  | .finish => { c with finished := c.finished + 1 }

/-- What is collected from a list of calls. -/
def ofCalls (calls : List SinkCall) : Collected := calls.foldl receive empty

/-- The collected triples, each once. -/
def graph (c : Collected) : List Triple := c.triples.eraseDups

end Collected

/-! ### Writing -/

/-- The fields of a solution's line with the tabs between them. -/
def Solution.fields (s : Solution) (vars : List Variable) : List String :=
  (vars.map fun v => ((s.get? v).map Term.display).getD "").intersperse "\t"

/-- The pieces of text that are written for a call, in order. -/
def SinkCall.pieces : SinkCall → List String
  | .triple t =>
    [t.subject.toTerm.display, " ", t.predicate.display, " ", t.object.display, " .\n"]
  | .text s => [s]
  | .solution vars s => s.fields vars ++ ["\n"]
  | _ => []

/-- The error of a writer that refuses a piece: with it, the writer would hold more bytes than it has
room for. -/
structure WriteError where
  needed : Nat
  room : Nat
  deriving DecidableEq, Repr

/-- A writer: what it holds, the number of bytes it has room for (without one it takes all), and the
first error. -/
structure Writer where
  written : String
  limit : Option Nat
  error : Option WriteError
  deriving Repr, Inhabited

namespace Writer

/-- A writer that holds nothing. -/
def ofLimit (limit : Option Nat) : Writer := ⟨"", limit, none⟩

/-- The error with which a writer refuses a piece, if it has no room for it. -/
def refusal? (w : Writer) (piece : String) : Option WriteError :=
  let needed := (w.written ++ piece).utf8ByteSize
  w.limit.bind fun room => if room < needed then some ⟨needed, room⟩ else none

/-- Writes some pieces, up to the first that is refused. -/
def put (w : Writer) : List String → Writer
  | [] => w
  | piece :: rest =>
    match w.refusal? piece with
    | some e => { w with error := some e }
    | none => put { w with written := w.written ++ piece } rest

/-- Writes some pieces, unless there was an error before. -/
def write (w : Writer) (pieces : List String) : Writer :=
  if w.error.isSome then w else w.put pieces

/-- Writes several times. -/
def writeAll (w : Writer) (actions : List (List String)) : Writer := actions.foldl write w

/-- Writes the pieces of all calls, call by call. -/
def receiveAll (w : Writer) (calls : List SinkCall) : Writer := w.writeAll (calls.map SinkCall.pieces)

/-- What the writer holds in the end, or the first error. -/
def outcome (w : Writer) : Except WriteError String :=
  match w.error with
  | some e => .error e
  | none => .ok w.written

/-- What the writer holds in the end, or nothing if there was an error. -/
def result? (w : Writer) : Option String := w.outcome.toOption

end Writer

/-- The whole text of a list of calls. -/
def SinkCall.serialize (calls : List SinkCall) : String :=
  String.join (calls.flatMap SinkCall.pieces)

end TripleLoom
