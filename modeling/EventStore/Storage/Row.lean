import EventStore.Event.Json
import EventStore.Sql.Error

/-! Rows of the event log, filters on them, and what may go wrong in storing them.

A storage has a state of its own; appending and reading may change it even when they fail. -/

namespace EventStore

open Json Text

/-- A stored event. -/
structure EventRow where
  aggregateType : String
  aggregateId : String
  eventType : String
  body : String
  eventId : Uuid
  actorId : Option String
  occurredOn : Instant
  version : Nat
  deleteAction : String
deriving DecidableEq

/-- The stream that a row belongs to. -/
structure StreamKey where
  aggregateType : String
  aggregateId : String
deriving DecidableEq, Repr

/-- The place of a row in its stream. -/
structure Slot where
  stream : StreamKey
  version : Nat
deriving DecidableEq, Repr

namespace EventRow

def stream (r : EventRow) : StreamKey := ⟨r.aggregateType, r.aggregateId⟩

def slot (r : EventRow) : Slot := ⟨r.stream, r.version⟩

def fields : Fields [String, String, String, String, Uuid, Option String, Instant, Nat, String] :=
  .cons (.required "aggregate_type" .string) <|
  .cons (.required "aggregate_id" .string) <|
  .cons (.required "event_type" .string) <|
  .cons (.required "body" .string) <|
  .cons (.required "event_id" Uuid.read) <|
  .cons (.optional "actor_id" .string) <|
  .cons (.required "occurred_on" Instant.read) <|
  .cons (.required "version" versionReader) <|
  .cons (.required "delete_action" .string) .nil

def read : Reader EventRow :=
  fields.read.map fun (aggregateType, aggregateId, eventType, body, eventId, actorId, occurredOn,
      version, deleteAction, _) =>
    { aggregateType, aggregateId, eventType, body, eventId, actorId, occurredOn, version
      deleteAction }

def toValue (r : EventRow) : Value :=
  .object
    [("aggregate_type", .string r.aggregateType),
     ("aggregate_id", .string r.aggregateId),
     ("event_type", .string r.eventType),
     ("body", .string r.body),
     ("event_id", r.eventId.toValue),
     ("actor_id", .ofOption .string r.actorId),
     ("occurred_on", r.occurredOn.toValue),
     ("version", .integer r.version),
     ("delete_action", .string r.deleteAction)]

/-- The row in messages. -/
def describe (r : EventRow) : String :=
  r.eventType ++ " in event " ++ r.eventId.text ++ " (" ++ r.aggregateType ++ " " ++ r.aggregateId
    ++ " v" ++ decimalText r.version ++ ")"

end EventRow

/-- Which rows to read. -/
structure EventFilter where
  aggregateType : String
  /-- The aggregates to read; `none` stands for all of the type. -/
  aggregateIds : Option (List String) := none
  /-- The highest version to read. -/
  maxVersion : Option Nat := none
deriving DecidableEq, Repr

namespace EventFilter

/-- Whether a filter names its aggregates and names none. -/
def isEmptySelection (f : EventFilter) : Bool := f.aggregateIds = some []

def accepts (f : EventFilter) (r : EventRow) : Bool :=
  r.aggregateType = f.aggregateType
    && f.aggregateIds.all (fun ids => r.aggregateId ∈ ids)
    && f.maxVersion.all (fun version => r.version ≤ version)

end EventFilter

inductive StorageError where
  /-- The slot is taken by another event. -/
  | conflict (slot : Slot)
  | duplicateEvent (id : Uuid)
  /-- The version of a row is too large for the storage. -/
  | versionTooLarge (slot : Slot)
  | invalidRow (text : String)
  | sql (e : Sql.SqlError)
  | backend (text : String)
deriving DecidableEq

namespace StorageError

/-- The name of a kind of error, followed by that of its cause. -/
def kind : StorageError → String
  | .conflict _ => "Conflict"
  | .duplicateEvent _ => "DuplicateEvent"
  | .versionTooLarge _ | .invalidRow _ => "InvalidRow"
  | .sql e => "Sql/" ++ e.kind
  | .backend _ => "Backend"

def message : StorageError → String
  | .conflict slot =>
    "Version conflict: " ++ slot.stream.aggregateType ++ " " ++ slot.stream.aggregateId
      ++ " already has version " ++ decimalText slot.version
  | .duplicateEvent id => "Duplicate event id: " ++ id.text
  | .versionTooLarge slot =>
    "Invalid event row: version " ++ decimalText slot.version ++ " of " ++ slot.stream.aggregateType
      ++ " " ++ slot.stream.aggregateId ++ " does not fit a BIGINT"
  | .invalidRow text => "Invalid event row: " ++ text
  | .sql e => "SQL error: " ++ e.message
  | .backend text => "Storage backend error: " ++ text

/-- Whether a row clashed with a row that is stored. -/
def isClash : StorageError → Bool
  | .conflict _ | .duplicateEvent _ => true
  | _ => false

end StorageError

abbrev StorageM (σ : Type) := ExceptT StorageError (StateM σ)

/-- A result that was found without the state. -/
def StorageM.ofExcept {σ α : Type} : Except StorageError α → StorageM σ α
  | .ok a => pure a
  | .error e => throw e

/-- A storage with states in `σ`. -/
structure Storage (σ : Type) where
  append : List EventRow → StorageM σ Unit
  read : EventFilter → StorageM σ (List EventRow)

end EventStore
