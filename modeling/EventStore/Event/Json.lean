import EventStore.Event.Basic
import EventStore.Event.Payload
import EventStore.Instant.Parse

/-! Events as JSON records. -/

namespace EventStore

open Json

def Uuid.read : Reader Uuid := Reader.string.filterMap Uuid.ofText?

def Uuid.toValue (u : Uuid) : Value := .string u.text

def Instant.read : Reader Instant := Reader.string.filterMap Instant.ofText?

def Instant.toValue (t : Instant) : Value := .string t.text

def Identity.read {kind : IdentityKind} : Reader (Identity kind) :=
  Reader.string.filterMap fun s => (Identity.ofText s).toOption

def Identity.toValue {kind : IdentityKind} (i : Identity kind) : Value := .string i.text

def DeleteAction.read : Reader DeleteAction :=
  Variant.read [("None", .unit .none), ("Delete", .unit .delete), ("Undelete", .unit .undelete)]

def DeleteAction.toValue (a : DeleteAction) : Value := .string a.tag

/-- Largest version that a text may give. -/
def maxVersion : Nat := 0xFFFFFFFFFFFFFFFF

def versionReader : Reader Nat := Reader.natural maxVersion

def Json.Value.ofOption {α : Type} (f : α → Value) : Option α → Value
  | none => .null
  | some a => f a

namespace DomainEvent

variable {P : Type} [Payload P]

def fields : Fields [Option Uuid, Option AggregateId, Option Nat, Option ActorId, Option Instant,
    DeleteAction, P] :=
  .cons (.optional "id" Uuid.read) <|
  .cons (.optional "aggregate_id" Identity.read) <|
  .cons (.optional "version" versionReader) <|
  .cons (.optional "actor_id" Identity.read) <|
  .cons (.optional "occurred_on" Instant.read) <|
  .cons (.default "delete_action" DeleteAction.read .none) <|
  .cons (.required "payload" Payload.read) .nil

def read : Reader (DomainEvent P) :=
  fields.read.map fun (id, aggregateId, version, actorId, occurredOn, deleteAction, payload, _) =>
    { id, aggregateId, version, actorId, occurredOn, deleteAction, payload }

/-- The record of an event, or the reason why its payload has no JSON value. -/
def toValue (e : DomainEvent P) : Except String Value :=
  (Payload.toValue e.payload).map fun payload =>
    .object
      [("id", .ofOption Uuid.toValue e.id),
       ("aggregate_id", .ofOption Identity.toValue e.aggregateId),
       ("version", .ofOption (fun v => .integer v) e.version),
       ("actor_id", .ofOption Identity.toValue e.actorId),
       ("occurred_on", .ofOption Instant.toValue e.occurredOn),
       ("delete_action", e.deleteAction.toValue),
       ("payload", payload)]

end DomainEvent

end EventStore
