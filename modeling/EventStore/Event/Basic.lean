import EventStore.Identity
import EventStore.Instant.Basic

/-! Domain events.

An event is a payload in an envelope: its id, the aggregate it belongs to, its version there, who
caused it and when, and whether it deletes or restores its aggregate. The parts of the envelope are
filled in when an aggregate accepts the event. -/

namespace EventStore

/-- The effect of an event on whether its aggregate counts as deleted. -/
inductive DeleteAction where
  | none
  | delete
  | undelete
deriving DecidableEq, Repr

namespace DeleteAction

/-- The tag stored with an event. -/
def tag : DeleteAction → String
  | .none => "None"
  | .delete => "Delete"
  | .undelete => "Undelete"

/-- The action of a tag; the empty tag stands for no effect. -/
def ofTag? (s : String) : Option DeleteAction :=
  if s = "None" ∨ s = "" then some .none
  else if s = "Delete" then some .delete
  else if s = "Undelete" then some .undelete
  else Option.none

/-- The deletion flag after an event. -/
def apply (deleted : Bool) : DeleteAction → Bool
  | .none => deleted
  | .delete => true
  | .undelete => false

theorem ofTag?_tag (a : DeleteAction) : ofTag? a.tag = some a := by
  cases a <;> decide

end DeleteAction

/-- A tag that names no action. -/
structure UnknownDeleteAction where
  tag : String
deriving DecidableEq, Repr

def UnknownDeleteAction.message (e : UnknownDeleteAction) : String :=
  "unknown delete action: " ++ e.tag

def DeleteAction.ofTag (s : String) : Except UnknownDeleteAction DeleteAction :=
  match ofTag? s with
  | some a => .ok a
  | Option.none => .error ⟨s⟩

structure DomainEvent (P : Type) where
  id : Option Uuid := none
  aggregateId : Option AggregateId := none
  /-- Position among the events of the aggregate, from 1. -/
  version : Option Nat := none
  actorId : Option ActorId := none
  occurredOn : Option Instant := none
  deleteAction : DeleteAction := .none
  payload : P
deriving DecidableEq

namespace DomainEvent

variable {P : Type}

/-- An event with nothing in its envelope. -/
def ofPayload (payload : P) : DomainEvent P := { payload }

/-- The version, or zero while there is none. -/
def versionNumber (e : DomainEvent P) : Nat := e.version.getD 0

def eventId (e : DomainEvent P) : Uuid := e.id.getD Uuid.zero

def timestamp (e : DomainEvent P) : Instant := e.occurredOn.getD Instant.epoch

end DomainEvent

/-- An event that an aggregate has accepted; nothing is missing from its envelope. -/
structure RecordedEvent (P : Type) where
  id : Uuid
  aggregateId : AggregateId
  version : Nat
  actorId : ActorId
  occurredOn : Instant
  deleteAction : DeleteAction
  payload : P
deriving DecidableEq

def RecordedEvent.event {P : Type} (e : RecordedEvent P) : DomainEvent P where
  id := some e.id
  aggregateId := some e.aggregateId
  version := some e.version
  actorId := some e.actorId
  occurredOn := some e.occurredOn
  deleteAction := e.deleteAction
  payload := e.payload

end EventStore
