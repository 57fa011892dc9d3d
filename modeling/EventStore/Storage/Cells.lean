import EventStore.Sql.Clause
import EventStore.Storage.Row

/-! Rows as cells of the event log table. -/

namespace EventStore

open Sql

/-- A column of the event log table. -/
inductive EventColumn where
  | aggregateType
  | aggregateId
  | eventType
  | body
  | eventId
  | actorId
  | occurredOn
  | version
  | deleteAction
deriving DecidableEq, Repr

namespace EventColumn

def identifier : EventColumn → Identifier
  | .aggregateType => ⟨"AggregateType", by decide, by decide⟩
  | .aggregateId => ⟨"AggregateId", by decide, by decide⟩
  | .eventType => ⟨"EventType", by decide, by decide⟩
  | .body => ⟨"Body", by decide, by decide⟩
  | .eventId => ⟨"EventId", by decide, by decide⟩
  | .actorId => ⟨"ActorId", by decide, by decide⟩
  | .occurredOn => ⟨"OccurredOn", by decide, by decide⟩
  | .version => ⟨"Version", by decide, by decide⟩
  | .deleteAction => ⟨"DeleteAction", by decide, by decide⟩

/-- The order of the cells of a row. -/
def all : List EventColumn :=
  [.aggregateType, .aggregateId, .eventType, .body, .eventId, .actorId, .occurredOn, .version,
   .deleteAction]

/-- The column without its table. -/
def column (c : EventColumn) : Column := ⟨some c.identifier, none, none⟩

/-- The column as one of a table. -/
def qualified (c : EventColumn) (t : Table) : QualifiedColumn := ⟨c.identifier, t, none⟩

def of (c : EventColumn) (t : Table) : Column := (c.qualified t).column

/-- The sort key of a column, in ascending order. -/
def key (c : EventColumn) : OrderKey := ⟨c.column, false, rfl⟩

/-- The sort key of a column of a table, in ascending order. -/
def keyOf (c : EventColumn) (t : Table) : OrderKey := ⟨c.of t, false, rfl⟩

end EventColumn

/-- Largest version that a table holds. -/
def maxStoredVersion : Nat := 0x7FFFFFFFFFFFFFFF

/-- An upper bound for stored versions. None is above the largest one. -/
def versionBound (version : Nat) : Datum := .integer (.ofNat (min version maxStoredVersion))

namespace EventRow

/-- The cells of a row, in the order of the columns. -/
def cells (r : EventRow) : Except StorageError (List Datum) :=
  if r.version ≤ maxStoredVersion then
    .ok [.text r.aggregateType, .text r.aggregateId, .text r.eventType, .text r.body,
      .text r.eventId.text, .ofOption .text r.actorId, .timestamp r.occurredOn,
      .integer (.ofNat r.version), .text r.deleteAction]
  else .error (.versionTooLarge r.slot)

/-- The row of cells. -/
def ofCells? : List Datum → Option EventRow
  | [.text aggregateType, .text aggregateId, .text eventType, .text body, .text id, actor,
      .timestamp occurredOn, .integer version, .text deleteAction] => do
    let eventId ← Uuid.ofText? id
    let actorId ←
      match actor with
      | .null => some none
      | .text s => some (some s)
      | _ => none
    return ⟨aggregateType, aggregateId, eventType, body, eventId, actorId, occurredOn,
      version.toInt.toNat, deleteAction⟩
  | _ => none

end EventRow

end EventStore
