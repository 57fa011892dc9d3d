import EventStore.Event.Basic
import EventStore.Text.Quoted

/-! Aggregates.

The state of an aggregate is a fold over its events. The engine keeps the rules of the envelope,
which are ownership, order, versions and deletion; a blueprint says what each event does to the
state of its type. An event that is accepted live is queued until the next save; replaying a
history queues nothing. -/

namespace EventStore

open Text

/-- A type of aggregates: its name, the state of a new one, and the effect of an event. -/
structure Blueprint (S P : Type) where
  name : String
  /-- The tag of a payload, for messages. -/
  eventType : P → String
  /-- The state of a new aggregate; some identities may be refused. -/
  create : AggregateId → Option S
  /-- The effect of an event. It sees the state and nothing else of the aggregate: a type whose
  effects depend on the identity, the version or the deletion flag keeps these in its state too,
  since `create` is told the first and the events tell the others. -/
  handle : S → DomainEvent P → S

structure Aggregate (S P : Type) where
  id : AggregateId
  version : Nat
  /-- Set once an event has been applied, whatever its version. -/
  applied : Bool
  isDeleted : Bool
  /-- Events accepted since the last save. -/
  pending : List (RecordedEvent P)
  state : S
deriving DecidableEq

inductive AggregateError where
  | invalidIdentity (e : IdentityError)
  | eventAggregateMismatch (aggregateType aggregateId : String) (eventAggregateId : Option String)
      (eventId : Option Uuid) (eventType : String) (eventVersion : Nat)
  | cannotApplyPastEvent (aggregateType aggregateId : String) (aggregateVersion : Nat)
      (eventId : Option Uuid) (eventType : String) (eventVersion : Nat)
  | constructionFailed (aggregateType aggregateId : String)
deriving DecidableEq

/-- The name of a kind of error, followed by that of its cause. -/
def AggregateError.kind : AggregateError → String
  | .invalidIdentity e => "InvalidIdentity/" ++ e.kind
  | .eventAggregateMismatch .. => "EventAggregateMismatch"
  | .cannotApplyPastEvent .. => "CannotApplyPastEvent"
  | .constructionFailed .. => "AggregateConstructionFailed"

def AggregateError.message : AggregateError → String
  | .invalidIdentity e => "Invalid aggregate identity: " ++ e.message
  | .eventAggregateMismatch type id eventAggregateId eventId eventType version =>
    "Event " ++ eventType ++ " (id " ++ shownOption (eventId.map Uuid.text) ++ ", version "
      ++ decimalText version ++ ") belongs to aggregate "
      ++ shownOption (eventAggregateId.map quoted) ++ ", not " ++ type ++ " " ++ id
  | .cannotApplyPastEvent type id current eventId eventType version =>
    "Cannot apply " ++ eventType ++ " (id " ++ shownOption (eventId.map Uuid.text) ++ ") at "
      ++ "version " ++ decimalText version ++ " to " ++ type ++ " " ++ id
      ++ " at version " ++ decimalText current
  | .constructionFailed type id => "Constructing " ++ type ++ " " ++ id ++ " returned nothing"

/-- A fresh id and the current time, for an event that lacks its own. -/
structure Stamp where
  id : Uuid
  time : Instant
deriving DecidableEq

/-- The identity of an aggregate among all types. -/
structure AggregateKey where
  aggregateType : String
  id : AggregateId
deriving DecidableEq

def AggregateKey.text (k : AggregateKey) : String := k.aggregateType ++ "/" ++ k.id.text

variable {S P : Type}

namespace Aggregate

/-- An aggregate to which nothing has happened. -/
def fresh (id : AggregateId) (state : S) : Aggregate S P :=
  ⟨id, 0, false, false, [], state⟩

def key (b : Blueprint S P) (a : Aggregate S P) : AggregateKey := ⟨b.name, a.id⟩

def hasChanges (a : Aggregate S P) : Bool := !a.pending.isEmpty

def clearChanges (a : Aggregate S P) : Aggregate S P := { a with pending := [] }

/-- The event with its envelope filled in: a fresh id, this aggregate, the next version, the given
actor or the system, and the given time or the current one. -/
def complete (a : Aggregate S P) (stamp : Stamp) (actor : Option ActorId) (time : Option Instant)
    (e : DomainEvent P) : RecordedEvent P where
  id := e.id.getD stamp.id
  aggregateId := e.aggregateId.getD a.id
  version := e.version.getD (a.version + 1)
  actorId := (e.actorId.or actor).getD ActorId.system
  occurredOn := (e.occurredOn.or time).getD stamp.time
  deleteAction := e.deleteAction
  payload := e.payload

end Aggregate

/-- Actions on an aggregate. What they have done to it stays done when they fail. -/
abbrev AggregateM (S P : Type) := ExceptT AggregateError (StateM (Aggregate S P))

namespace AggregateM

/-- Applies an event. Its owner is checked first, then its version, which must be above the current
one, or equal to it while nothing has been applied. The state of the type changes before the
envelope does. -/
def dispatch (b : Blueprint S P) (e : DomainEvent P) : AggregateM S P Unit := do
  let a ← get
  let version := e.versionNumber
  if e.aggregateId ≠ some a.id then
    throw (.eventAggregateMismatch b.name a.id.text (e.aggregateId.map (·.text)) e.id
      (b.eventType e.payload) version)
  else if version < a.version ∨ (version = a.version ∧ a.applied) then
    throw (.cannotApplyPastEvent b.name a.id.text a.version e.id (b.eventType e.payload) version)
  else
    modify fun a => { a with state := b.handle a.state e }
    modify fun a =>
      { a with version, applied := true, isDeleted := e.deleteAction.apply a.isDeleted }

/-- Applies a completed event and queues it for the next save. -/
def record (b : Blueprint S P) (e : RecordedEvent P) : AggregateM S P Unit := do
  dispatch b e.event
  modify fun a => { a with pending := a.pending ++ [e] }

/-- Applies a new event, its envelope filled in. -/
def applyChange (b : Blueprint S P) (stamp : Stamp) (e : DomainEvent P) (actor : Option ActorId)
    (time : Option Instant) : AggregateM S P Unit := do
  record b ((← get).complete stamp actor time e)

/-- Applies a new event made of a bare payload. -/
def raise (b : Blueprint S P) (stamp : Stamp) (payload : P) : AggregateM S P Unit :=
  applyChange b stamp (.ofPayload payload) none none

/-- What becomes of an aggregate, unless the action fails. -/
def outcome (action : AggregateM S P Unit) (a : Aggregate S P) :
    Except AggregateError (Aggregate S P) :=
  match action a with
  | (.ok (), a) => .ok a
  | (.error e, _) => .error e

end AggregateM

namespace Aggregate

def dispatch (b : Blueprint S P) (a : Aggregate S P) (e : DomainEvent P) :
    Except AggregateError (Aggregate S P) :=
  (AggregateM.dispatch b e).outcome a

def applyChange (b : Blueprint S P) (a : Aggregate S P) (stamp : Stamp) (e : DomainEvent P)
    (actor : Option ActorId) (time : Option Instant) : Except AggregateError (Aggregate S P) :=
  (AggregateM.applyChange b stamp e actor time).outcome a

def raise (b : Blueprint S P) (a : Aggregate S P) (stamp : Stamp) (payload : P) :
    Except AggregateError (Aggregate S P) :=
  (AggregateM.raise b stamp payload).outcome a

/-- Events in ascending order of versions; equal versions keep their order. -/
def sortByVersion (events : List (DomainEvent P)) : List (DomainEvent P) :=
  events.mergeSort fun e f => e.versionNumber ≤ f.versionNumber

/-- Rebuilds an aggregate from its history. -/
def replay (b : Blueprint S P) (id : AggregateId) (events : List (DomainEvent P)) :
    Except AggregateError (Aggregate S P) :=
  match b.create id with
  | none => .error (.constructionFailed b.name id.text)
  | some state =>
    AggregateM.outcome ((sortByVersion events).forM (AggregateM.dispatch b)) (fresh id state)

end Aggregate

end EventStore
