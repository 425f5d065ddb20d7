import TripleLoom.Run.Schedule

/-!
# TripleLoom.Service.Scripted — services that follow a script

Stand-ins for the services of a run.  A scripted iterator tells the batches it was given, in the
order it was given if its streams are paced; a scripted engine matches no pattern but joins the
inline solutions with a table; a scripted parser knows some texts; and a scripted resolver leaves
some requests unanswered.
-/

namespace TripleLoom

/-! ### Documents and texts -/

/-- The resolver that knows the documents of a catalogue and never answers for some URIs. -/
def Catalogue.resolverWithout (c : Catalogue) (unanswered : List String) : Resolver :=
  fun uri accept => if uri ∈ unanswered then .never else c.resolver uri accept

/-- The parser that knows some texts. -/
def QueryParser.ofTexts (texts : List (String × Query)) : QueryParser := fun text _ =>
  match texts.lookup text with
  | some query => .ok query
  | none => .error ⟨"unknown text " ++ text⟩

/-! ### Engines -/

/-- Whether two solutions agree on every variable that both bind. -/
def Solution.agrees (s t : Solution) : Bool :=
  t.bindings.all fun (v, term) => (s.get? v).all (· == term)

/-- A solution with the bindings of another one. -/
def Solution.merge (s t : Solution) : Solution := s.extend t.bindings.reverse

/-- A solution with an IRI for each blank node. -/
def Solution.skolemize (s : Solution) : Solution :=
  .ofBindings (s.bindings.reverse.map fun (v, t) => (v, t.toGround.toTerm))

/-- A script of an engine. -/
structure EngineScript where
  /-- The solutions to join with; without them the inline solutions are the result. -/
  table : Option Sequence
  /-- Whether the result has IRIs for its blank nodes. -/
  skolemizes : Bool
  /-- The calls, counted from zero, that end otherwise. -/
  exceptions : List (Nat × EngineReply)

/-- The result of the script for some inline solutions. -/
def EngineScript.result (e : EngineScript) (select : Select) (inline : Sequence) : Sequence :=
  let joined := e.table.elim inline.solutions fun table =>
    inline.solutions.flatMap fun (s : Solution) => (table.solutions.filter s.agrees).map s.merge
  let projected := select.projected inline.vars
  let rows := joined.map (·.project projected)
  .ofLists projected (if e.skolemizes then rows.map Solution.skolemize else rows)

/-- The engine that follows a script. -/
def EngineScript.engine (e : EngineScript) : PatternEngine := fun earlier select inline =>
  (e.exceptions.lookup earlier).getD (.solutions (e.result select inline))

/-! ### Functions -/

/-- What a paced stream tells. -/
inductive PacedEvent where
  | batch (tuples : TupleBatch)
  | ending (ending : Ending)

/-- A script of an iterator function. -/
inductive IteratorScript where
  /-- To tell some batches each time. -/
  | batches (batches : List TupleBatch) (ending : Ending)
  /-- To tell the arguments. -/
  | echo
  | refusal (error : FunctionError)
  /-- To follow the script for the text of the first argument, or another one. -/
  | byText (scripts : List (String × IteratorScript)) (otherwise : IteratorScript)
  /-- To tell events, each in the stream of an invocation, in the order given. -/
  | paced (events : List (Nat × PacedEvent))

namespace IteratorScript

/-- The script that tells nothing. -/
def silent : IteratorScript := .batches [] .finished

/-- The stream of some events up to the first ending. -/
def streamOf : List PacedEvent → List TupleBatch × Ending
  | [] => ([], .pending)
  | .batch tuples :: rest =>
    let (told, ending) := streamOf rest
    (tuples :: told, ending)
  | .ending ending :: _ => ([], ending)

mutual

/-- What a script answers, given the number of earlier calls and the arguments. -/
def answer (earlier : Nat) (arguments : List Term) :
    IteratorScript → Except FunctionError TupleStream
  | .batches told ending => .ok (.given told ending)
  | .echo => .ok (.given [[arguments.map some]] .finished)
  | .refusal e => .error e
  | .byText scripts otherwise =>
    let text := (arguments.head?.bind Term.text?).getD ""
    (answerByText earlier arguments text scripts).getD (otherwise.answer earlier arguments)
  | .paced events =>
    let (told, ending) :=
      streamOf (events.filterMap fun (k, e) => if k = earlier then some e else none)
    .ok (.given told ending)

/-- What the script for a text answers, if there is one. -/
def answerByText (earlier : Nat) (arguments : List Term) (text : String) :
    List (String × IteratorScript) → Option (Except FunctionError TupleStream)
  | [] => none
  | (key, script) :: rest =>
    if key = text then some (script.answer earlier arguments)
    else answerByText earlier arguments text rest

end

/-- The function that follows a script. -/
def function (s : IteratorScript) : IteratorFunction := fun earlier arguments =>
  s.answer earlier arguments

/-- The order that a script lays down for its streams, by invocation. -/
def pace? : IteratorScript → Option (List Nat)
  | .paced events => some (events.map (·.1))
  | _ => none

end IteratorScript

/-- The agenda of some scripted functions. -/
def Agenda.ofScripts (scripts : List (Iri × IteratorScript)) : Agenda :=
  let paces := scripts.filterMap fun (name, script) => script.pace?.map (name, ·)
  ⟨paces.map (·.1), paces.flatMap fun (name, order) => order.map (name, ·)⟩

/-- A script of a scalar function. -/
inductive ScalarScript where
  | constant (value : Term)
  /-- To give back the argument at an index. -/
  | argument (index : Nat)
  | failure
  deriving DecidableEq, Repr

/-- The function that follows a script. -/
def ScalarScript.function : ScalarScript → ScalarFunction
  | .constant value => fun _ => some value
  | .argument index => fun arguments => arguments[index]?
  | .failure => fun _ => none

/-- A registry with some scripted functions. -/
def FunctionRegistry.withScripts (r : FunctionRegistry)
    (iterators : List (Iri × IteratorScript)) (scalars : List (Iri × ScalarScript)) :
    FunctionRegistry :=
  let r := iterators.foldl (fun r (name, s) => r.addIterator name s.function) r
  scalars.foldl (fun r (name, s) => r.addScalar name s.function) r

end TripleLoom
