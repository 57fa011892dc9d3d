/-! The event bus.

Handlers are registered under a kind of event, in the order of their subscription. To publish an
event is to call the handlers of its kind, one after the other or each as a task of its own. A
handler was written for one kind of event and fails on every other without running. It has a state
of its own, and acts on a world that it shares with all other handlers.

Tasks run in any order, which is given as a schedule; what the bus reports goes by the order of
subscription all the same. A failure is reported only where the bus does not go on after one. -/

namespace EventStore

structure BusConfig where
  /-- Each handler runs as a task of its own. -/
  concurrent : Bool := true
  /-- The bus goes on after a failure, and then keeps it to itself. -/
  continueOnError : Bool := true
deriving DecidableEq, Repr

inductive HandlerError where
  | handlerFailed (text : String)
  | processingError (text : String)
  /-- The handler was written for another kind of event. -/
  | typeMismatch (received : String)
deriving DecidableEq, Repr

/-- The name of a kind of error. -/
def HandlerError.kind : HandlerError → String
  | .handlerFailed _ => "HandlerFailed"
  | .processingError _ => "ProcessingError"
  | .typeMismatch _ => "TypeMismatch"

def HandlerError.message : HandlerError → String
  | .handlerFailed text => "Handler failed: " ++ text
  | .processingError text => "Event processing error: " ++ text
  | .typeMismatch received => "Handler received " ++ received ++ ", expected <type>"

inductive BusError where
  | handlersFailed (errors : List HandlerError)
  | publishFailed (text : String)
deriving DecidableEq, Repr

/-- The name of a kind of error. -/
def BusError.kind : BusError → String
  | .handlersFailed _ => "HandlersFailed"
  | .publishFailed _ => "PublishFailed"

def BusError.message : BusError → String
  | .handlersFailed _ => "One or more handlers failed"
  | .publishFailed text => "Event publishing failed: " ++ text

/-- The failures of handlers that an error reports. -/
def BusError.handlers? : BusError → Option (List HandlerError)
  | .handlersFailed errors => some errors
  | .publishFailed _ => none

/-- How events of type `E` are told apart, and what handlers with states in `S` do with them in a
world of type `W`. -/
structure Handling (κ E S W : Type) where
  kind : E → κ
  /-- The name of an event, for messages. -/
  name : E → String
  react : S → E → W → Except HandlerError Unit × S × W

/-- A handler, by the kind of event it was written for and its state. -/
structure Handler (κ S : Type) where
  expects : κ
  state : S
deriving DecidableEq

/-- What came of handing an event to a handler. -/
structure Delivery (κ S W : Type) where
  outcome : Except HandlerError Unit
  handler : Handler κ S
  world : W
  /-- Whether the handler ran. -/
  ran : Bool

structure Bus (κ S : Type) where
  config : BusConfig
  handlers : κ → List (Handler κ S)

/-- What came of publishing an event. -/
structure Publication (κ S W : Type) where
  result : Except BusError Unit
  bus : Bus κ S
  world : W
  /-- The positions of the handlers that ran, in the order in which they did. -/
  called : List Nat

/-- A handler that is run as a task, and its outcome once it has run. -/
structure HandlerTask (κ S : Type) where
  handler : Handler κ S
  outcome : Option (Except HandlerError Unit)

namespace Handling

variable {κ E S W : Type} [DecidableEq κ] (h : Handling κ E S W)

def deliver (handler : Handler κ S) (e : E) (w : W) : Delivery κ S W :=
  if handler.expects = h.kind e then
    let (outcome, state, world) := h.react handler.state e w
    ⟨outcome, { handler with state }, world, true⟩
  else ⟨.error (.typeMismatch (h.name e)), handler, w, false⟩

/-- What a row of handlers did: their failures, the handlers and the world afterwards, and the
positions called. -/
structure Round (κ S W : Type) where
  errors : List HandlerError
  handlers : List (Handler κ S)
  called : List Nat
  world : W

def Round.cons {κ S W : Type} (error : Option HandlerError) (handler : Handler κ S)
    (called : List Nat) (r : Round κ S W) : Round κ S W :=
  ⟨error.toList ++ r.errors, handler :: r.handlers, called ++ r.called, r.world⟩

/-- Calls handlers one after the other, the first of them at the given position. -/
def inTurn (goOn : Bool) (e : E) (position : Nat) (w : W) : List (Handler κ S) → Round κ S W
  | [] => ⟨[], [], [], w⟩
  | handler :: l =>
    let d := h.deliver handler e w
    let called := if d.ran then [position] else []
    match d.outcome with
    | .ok _ => (inTurn goOn e (position + 1) d.world l).cons none d.handler called
    | .error error =>
      if goOn then (inTurn goOn e (position + 1) d.world l).cons (some error) d.handler called
      else ⟨[error], d.handler :: l, called, d.world⟩

/-- Handlers that run as tasks: the tasks, the positions called so far and the world. -/
structure TaskRun (κ S W : Type) where
  tasks : List (HandlerTask κ S)
  called : List Nat
  world : W

/-- Runs the task at a position, unless it has run. -/
def runTask (e : E) (s : TaskRun κ S W) (position : Nat) : TaskRun κ S W :=
  match s.tasks[position]? with
  | some ⟨handler, none⟩ =>
    let d := h.deliver handler e s.world
    ⟨s.tasks.set position ⟨d.handler, some d.outcome⟩,
      if d.ran then s.called ++ [position] else s.called, d.world⟩
  | _ => s

/-- Runs every handler as a task: first those that the schedule names, then the others in order. -/
def asTasks (schedule : List Nat) (goOn : Bool) (e : E) (w : W) (l : List (Handler κ S)) :
    Round κ S W :=
  let s := (schedule ++ List.range l.length).foldl (h.runTask e) ⟨l.map (⟨·, none⟩), [], w⟩
  let errors := s.tasks.filterMap fun t =>
    match t.outcome with
    | some (.error error) => some error
    | _ => none
  ⟨if goOn then errors else errors.take 1, s.tasks.map (·.handler), s.called, s.world⟩

end Handling

namespace Bus

variable {κ E S W : Type} [DecidableEq κ]

def empty (config : BusConfig) : Bus κ S := ⟨config, fun _ => []⟩

def setHandlers (b : Bus κ S) (kind : κ) (l : List (Handler κ S)) : Bus κ S :=
  { b with handlers := fun k => if k = kind then l else b.handlers k }

def subscribe (b : Bus κ S) (kind : κ) (handler : Handler κ S) : Bus κ S :=
  b.setHandlers kind (b.handlers kind ++ [handler])

/-- Removes the handlers of one kind of event. -/
def unsubscribe (b : Bus κ S) (kind : κ) : Bus κ S := b.setHandlers kind []

def clear (b : Bus κ S) : Bus κ S := { b with handlers := fun _ => [] }

def handlerCount (b : Bus κ S) (kind : κ) : Nat := (b.handlers kind).length

/-- Publishes an event. The schedule is the order in which tasks run. -/
def publish (h : Handling κ E S W) (schedule : List Nat) (b : Bus κ S) (e : E) (w : W) :
    Publication κ S W :=
  let kind := h.kind e
  let goOn := b.config.continueOnError
  let round :=
    if b.config.concurrent then h.asTasks schedule goOn e w (b.handlers kind)
    else h.inTurn goOn e 0 w (b.handlers kind)
  { result :=
      if round.errors.isEmpty ∨ goOn then .ok () else .error (.handlersFailed round.errors)
    bus := b.setHandlers kind round.handlers
    world := round.world
    called := round.called }

end Bus

end EventStore
