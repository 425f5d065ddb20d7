import TripleLoom.Batches
import TripleLoom.Run.Context

/-!
# TripleLoom.Run.Clause — the binding clauses

A `BIND` adds the value of an expression to every solution, a `SOURCE` the content of a document,
and an `ITERATOR` makes several solutions of each.  What a clause cannot find out stays unbound.
Fetches go on side by side within a window, and so do the streams of an iterator, whose tuples are
gathered in batches.
-/

namespace TripleLoom

/-! ### Bind -/

/-- The solution with the value of an expression, if it has one. -/
def Context.bindOne (c : Context) (functions : FunctionRegistry) (e : Expression) (v : Variable)
    (s : Solution) : RunM Solution := do
  match ← c.eval? functions e s with
  | some value => return s.overlay v value
  | none => return s

/-- A sequence with the value of an expression in every solution. -/
def Context.bindAll (c : Context) (functions : FunctionRegistry) (e : Expression) (v : Variable)
    (input : Sequence) : RunM Sequence :=
  return (input.declare v).withSolutions
    (← input.solutions.mapM (c.bindOne functions e v))

/-! ### Source -/

/-- What a pattern stands for in a solution: an IRI, or a string without language. -/
def IriPattern.text? (p : IriPattern) (s : Solution) : Option String :=
  match p with
  | .iri i => some i.text
  | .var v =>
    match s.get? v with
    | some (.iri i) => some i.text
    | some (.literal (.simple text)) => some text
    | _ => none

/-- The media type that an IRI names, if it does. -/
def mediaType? (iri : String) : Option String :=
  (mediaTypeNamespace.toList.isPrefixOf? iri.toList).map String.ofList

/-- The literal of a document: its datatype names the media type. -/
def Document.toTerm (d : Document) : Term :=
  match d.mediaType with
  | some mediaType => .literal (.withDatatype d.content ⟨mediaTypeNamespace ++ mediaType⟩)
  | none => .ofText d.content

/-- A fetch for one solution. -/
inductive Fetch where
  /-- It needs a permit. -/
  | waiting (solution : Solution) (uri : String) (accept : Option String)
  /-- The resolver was asked. -/
  | asked (solution : Solution) (uri : String) (accept : Option String) (permit : Nat)
  | done (solution : Solution)
  deriving Inhabited

namespace Fetch

/-- The fetch of a document for a solution. -/
def ofSolution (document : IriPattern) (accept : Option IriPattern) (s : Solution) : Fetch :=
  match document.text? s with
  | some uri => .waiting s uri (accept.bind (·.text? s) >>= mediaType?)
  | none => .done s

/-- The solution that a fetch is for, with what it found so far. -/
def solution : Fetch → Solution
  | .waiting s .. | .asked s .. | .done s => s

/-- Whether a fetch is over. -/
def isDone : Fetch → Bool
  | .done _ => true
  | _ => false

/-- Whether a fetch can go on. -/
def isReady (resolver : Resolver) (l : Lifecycle) : Fetch → Bool
  | .waiting .. => l.closed || 0 < l.available
  | .asked _ uri accept _ => l.closed || resolver uri accept ≠ .never
  | .done _ => false

/-- The end of a fetch that holds a permit. -/
def finish (s : Solution) (permit : Nat) : RunM Fetch := do
  RunM.lifecycle fun l => ((), l.release permit)
  return .done s

/-- The next step of a fetch that binds a variable. A document that is not found in the accepted
media type is asked for once more without one, and a closed run breaks off what is going on. -/
def advance (resolver : Resolver) (v : Variable) : Fetch → RunM Fetch
  | .waiting s uri accept => do
    match ← RunM.lifecycle Lifecycle.acquire with
    | .granted permit =>
      RunM.note (.opened uri accept)
      return .asked s uri accept permit
    | .pending => return .waiting s uri accept
    | .refused => return .done s
  | .asked s uri accept permit => do
    if (← get).isClosed then finish s permit
    else
      match resolver uri accept, accept with
      | .found document, _ => finish (s.overlay v document.toTerm) permit
      | .missing, some _ =>
        RunM.note (.opened uri none)
        return .asked s uri none permit
      | .missing, none => finish s permit
      | .never, _ => return .asked s uri accept permit
  | .done s => return .done s

/-- The number of the fetches at the beginning that are over. -/
def doneCount (fetches : List Fetch) : Nat := (fetches.takeWhile isDone).length

/-- Whether a fetch can go on beside others: only so many behind the first that is not over are
under way at a time. -/
def isReadyAt (setting : Setting) (l : Lifecycle) (fetches : List Fetch) (index : Nat) : Bool :=
  index < doneCount fetches + max 1 setting.maxConcurrency &&
    (fetches[index]?).any (·.isReady setting.resolver l)

end Fetch

/-! ### Iterator -/

/-- The stream of an iterator function for one input, as long as it lasts. -/
structure Feed where
  input : Nat
  function : Iri
  /-- The number of the invocation among those of the function. -/
  invocation : Nat
  stream : Option TupleStream

namespace Feed

/-- Whether a stream has ended. -/
def isOver (f : Feed) : Bool := f.stream.isNone

/-- Whether a stream has something to tell. -/
def isReady (f : Feed) : Bool :=
  match f.stream.map TupleStream.next with
  | some .pending | none => false
  | some _ => true

end Feed

/-- What a stream tells: a batch of tuples of an input, or that the input has no more. -/
inductive FeedEvent where
  | batch (input : Nat) (tuples : TupleBatch)
  | done (input : Nat)

/-- The solution of an input with the values of a tuple. -/
def Solution.withTuple (s : Solution) (vars : List Variable) (tuple : Tuple) : Solution :=
  s.extend ((vars.zip tuple).filterMap fun (v, value) => value.map (v, ·))

/-- An `ITERATOR` clause at work. -/
structure Iteration where
  /-- The variables of the clause. -/
  vars : List Variable
  /-- The inputs, under all variables that the clause's results are declared with. -/
  input : Sequence
  feeds : List Feed
  /-- What the streams told and was not yet heard. -/
  queue : List FeedEvent
  batches : Batches Solution
  /-- Whether the streams may still tell something. -/
  isListening : Bool

namespace Iteration

/-- The invocation of an iterator function for the inputs with the given numbers. Inputs without
arguments, and those that the function refuses, are finished at once. -/
def invokeAll (c : Context) (functions : FunctionRegistry) (name : Iri) (f : IteratorFunction)
    (arguments : List Expression) :
    Nat → List Solution → Batches Solution → RunM (List Feed × Batches Solution)
  | _, [], batches => return ([], batches)
  | input, s :: rest, batches => do
    match ← c.evalAll? functions arguments s with
    | none => invokeAll c functions name f arguments (input + 1) rest (batches.complete input)
    | some values =>
      let earlier := (← get).invocations name
      RunM.note (.invoked name values)
      match f earlier values with
      | .error _ =>
        invokeAll c functions name f arguments (input + 1) rest (batches.complete input)
      | .ok stream =>
        let (feeds, batches) ← invokeAll c functions name f arguments (input + 1) rest batches
        return (⟨input, name, earlier, some stream⟩ :: feeds, batches)

/-- The beginning of a clause's work. -/
def start (c : Context) (functions : FunctionRegistry) (name : Iri) (f : IteratorFunction)
    (arguments : List Expression) (vars : List Variable) (input : Sequence) :
    RunM Iteration := do
  let (feeds, batches) ← invokeAll c functions name f arguments 0 input.solutions
    (.ofInputs (List.range input.size))
  return ⟨vars, input.declareAll vars, feeds, [], batches, true⟩

/-- Whether no stream will tell anything any more. -/
def isSilent (i : Iteration) (closed : Bool) : Bool := closed || i.feeds.all Feed.isOver

/-- Whether there is something to hear: an event, or that no more will come. -/
def isAudible (i : Iteration) (closed : Bool) : Bool :=
  !i.queue.isEmpty || (i.isListening && i.isSilent closed)

/-- Whether a stream has something to tell. A closed run breaks all streams off. -/
def isReadyAt (i : Iteration) (closed : Bool) (index : Nat) : Bool :=
  !closed && (i.feeds[index]?).any Feed.isReady

/-- A stream tells what it has. -/
def tell (i : Iteration) (index : Nat) : Iteration :=
  match i.feeds[index]? with
  | none => i
  | some feed =>
    match feed.stream.map TupleStream.next with
    | some (.batch tuples rest) =>
      { i with feeds := i.feeds.set index { feed with stream := some rest }
               queue := i.queue ++ [.batch feed.input tuples] }
    | some .finished | some (.failed _) =>
      { i with feeds := i.feeds.set index { feed with stream := none }
               queue := i.queue ++ [.done feed.input] }
    | some .pending | none => i

/-- The solutions of a batch of tuples of an input. -/
def solutionsOf (i : Iteration) (input : Nat) (tuples : TupleBatch) : List Solution :=
  match i.input.solutions[input]? with
  | some s => tuples.map (s.withTuple i.vars)
  | none => []

/-- Hears the next event, or that no more will come, which closes the open batches. -/
def hear (i : Iteration) : Iteration :=
  match i.queue with
  | .batch input tuples :: rest =>
    { i with queue := rest, batches := i.batches.add input (i.solutionsOf input tuples) }
  | .done input :: rest => { i with queue := rest, batches := i.batches.complete input }
  | [] => { i with isListening := false, batches := i.batches.forceClose }

/-- Takes the closed batches as sequences, those without solutions only if they are wanted. -/
def takeSequences (i : Iteration) (wantsEmpty : Bool) : List Sequence × Iteration :=
  let (closed, batches) := i.batches.takeClosed
  ((closed.filter fun b => wantsEmpty || !b.items.isEmpty).map fun b =>
      i.input.withSolutions b.items,
    { i with batches })

end Iteration

end TripleLoom
