import EventStore.Sql.Condition

/-! Joins, sort keys and assignments. -/

namespace EventStore.Sql

/-- A column that has a name and belongs to a table. -/
structure QualifiedColumn where
  name : Identifier
  table : Table
  aliasName : Option Identifier
deriving DecidableEq

namespace QualifiedColumn

def column (c : QualifiedColumn) : Column := ⟨some c.name, some c.table, c.aliasName⟩

def ofColumn (c : Column) : Except SqlError QualifiedColumn :=
  match c.name with
  | none => .error (.unnamedJoinColumn c.describe)
  | some name =>
    match c.table with
    | none => .error (.unqualifiedJoinColumn c.describe)
    | some table => .ok ⟨name, table, c.aliasName⟩

end QualifiedColumn

/-- A join of the table of the right column, on equality of the columns and perhaps a condition. -/
structure Join where
  kind : JoinKind
  left : QualifiedColumn
  right : QualifiedColumn
  condition : Option Condition

namespace Join

def onColumns (kind : JoinKind) (left right : Column) : Except SqlError Join := do
  let left ← QualifiedColumn.ofColumn left
  let right ← QualifiedColumn.ofColumn right
  return ⟨kind, left, right, none⟩

def withCondition (j : Join) (c : Condition) : Join := { j with condition := some c }

end Join

/-- A column to sort by, which has a name. -/
structure OrderKey where
  column : Column
  descending : Bool
  named : column.name.isSome = true
deriving DecidableEq

def OrderKey.of (column : Column) (descending : Bool) : Except SqlError OrderKey :=
  if h : column.name.isSome = true then .ok ⟨column, descending, h⟩ else .error .unnamedOrderColumn

/-- A new value for a column, which has a name. Without a value the column becomes null. -/
structure Assignment where
  column : Column
  value : Option Datum
  named : column.name.isSome = true
deriving DecidableEq

def Assignment.of (column : Column) (value : Option Datum) : Except SqlError Assignment :=
  if h : column.name.isSome = true then .ok ⟨column, value, h⟩ else .error .updateUnnamedColumn

end EventStore.Sql
