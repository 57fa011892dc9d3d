import EventStore.Sql.Error
import EventStore.Text.Blank

/-! Tables and columns, as expressions refer to them. -/

namespace EventStore.Sql

open Text

/-- A text without blanks at its ends, and not empty. -/
@[ext]
structure Identifier where
  text : String
  trim_text : trim text = text
  text_ne_empty : text ≠ ""

instance : DecidableEq Identifier := fun _ _ => decidable_of_iff _ Identifier.ext_iff.symm

def Identifier.ofText (role : IdentifierRole) (s : String) : Except SqlError Identifier :=
  if h : trim s = "" then .error (.blankIdentifier role) else .ok ⟨trim s, trim_trim s, h⟩

theorem Identifier.ofText_text (role : IdentifierRole) (i : Identifier) :
    ofText role i.text = .ok i := by
  have ht := i.trim_text
  simp [ofText, ht, i.text_ne_empty]

inductive TableSource where
  | named (name : Identifier) (aliasName : Option Identifier)
  /-- A table that has no name of its own, such as a subquery. -/
  | derived (aliasName : Identifier)
deriving DecidableEq

structure Table where
  schema : Option Identifier
  source : TableSource
deriving DecidableEq

namespace Table

def named (name : String) : Except SqlError Table :=
  (Identifier.ofText .tableName name).map fun name => ⟨none, .named name none⟩

def derived (aliasName : String) : Except SqlError Table :=
  (Identifier.ofText .tableAlias aliasName).map fun aliasName => ⟨none, .derived aliasName⟩

def withSchema (t : Table) (schema : String) : Except SqlError Table :=
  (Identifier.ofText .schema schema).map fun schema => { t with schema := some schema }

/-- Gives the table another alias. -/
def withAlias (t : Table) (aliasName : String) : Except SqlError Table :=
  (Identifier.ofText .tableAlias aliasName).map fun aliasName =>
    match t.source with
    | .named name _ => { t with source := .named name (some aliasName) }
    | .derived _ => { t with source := .derived aliasName }

def name? (t : Table) : Option Identifier :=
  match t.source with
  | .named name _ => some name
  | .derived _ => none

def alias? (t : Table) : Option Identifier :=
  match t.source with
  | .named _ aliasName => aliasName
  | .derived aliasName => some aliasName

/-- Whether two references are to one table, whatever their aliases. A derived table is the table
with the same alias. -/
def sameTable (t u : Table) : Bool :=
  match t.name?, u.name? with
  | some name, some name' => name = name' && t.schema = u.schema
  | _, _ => t.alias? = u.alias?

/-- The table in messages. -/
def describe (t : Table) : String :=
  let name :=
    match t.source with
    | .named name _ => name
    | .derived aliasName => aliasName
  match t.schema with
  | some schema => schema.text ++ "." ++ name.text
  | none => name.text

end Table

/-- A column; one without a name stands for all columns. -/
structure Column where
  name : Option Identifier
  table : Option Table
  aliasName : Option Identifier
deriving DecidableEq

namespace Column

/-- All columns. -/
def all : Column := ⟨none, none, none⟩

def named (name : String) : Except SqlError Column :=
  (Identifier.ofText .columnName name).map fun name => ⟨some name, none, none⟩

/-- The column as one of a table. -/
def of (c : Column) (t : Table) : Column := { c with table := some t }

def withAlias (c : Column) (aliasName : String) : Except SqlError Column :=
  (Identifier.ofText .columnAlias aliasName).map fun aliasName =>
    { c with aliasName := some aliasName }

def isAll (c : Column) : Bool := c.name.isNone

/-- The column in messages. -/
def describe (c : Column) : String :=
  let name := (c.name.map (·.text)).getD "*"
  match c.table with
  | some t => t.describe ++ "." ++ name
  | none => name

end Column

/-- A column of a table. -/
def Table.column (t : Table) (name : String) : Except SqlError Column :=
  (Column.named name).map (·.of t)

/-- All columns of a table. -/
def Table.allColumns (t : Table) : Column := Column.all.of t

end EventStore.Sql
