import EventStore.Sql.Select
import EventStore.Storage.Cells

/-! Events found by way of a projection.

A projection is a table with a row for each aggregate, or several; a key column holds the id of the
aggregate. The events of an aggregate are found when a row of it meets all conditions. -/

namespace EventStore

open Sql

structure ProjectionFilter where
  table : Table
  key : QualifiedColumn
  conditions : List Condition := []

namespace ProjectionFilter

/-- A filter without conditions, by the name of the key column. -/
def keyed (table : Table) (keyColumn : String) : Except SqlError ProjectionFilter :=
  (Identifier.ofText .columnName keyColumn).map fun name => { table, key := ⟨name, table, none⟩ }

/-- A column of the projection. -/
def column (p : ProjectionFilter) (name : String) : Except SqlError Column := p.table.column name

def andWhere (p : ProjectionFilter) (c : Condition) : ProjectionFilter :=
  { p with conditions := p.conditions ++ [c] }

/-- The query for the events of a type up to a version, sorted by aggregate and then by version. -/
def query (p : ProjectionFilter) (events : Table) (aggregateType : String)
    (maxVersion : Option Nat) : Select where
  table := some events
  columns := [events.allColumns]
  joins := [⟨.inner, EventColumn.aggregateId.qualified events, p.key, none⟩]
  conditions :=
    .eq (EventColumn.aggregateType.of events) (.text aggregateType) :: p.conditions
      ++ (maxVersion.map fun version =>
        .le (EventColumn.version.of events) (versionBound version)).toList
  orderBy := [EventColumn.aggregateId.keyOf events, EventColumn.version.keyOf events]

end ProjectionFilter

end EventStore
