import EventStore.Sql.Compiler

/-! Insertions. The table is the one that the columns belong to. -/

namespace EventStore.Sql

structure Insert where
  columns : List Column := []
  rows : List (List Datum) := []

namespace Insert

def addColumns (s : Insert) (l : List Column) : Insert := { s with columns := s.columns ++ l }

/-- Adds a row of values, one for each column. -/
def addRow (s : Insert) (row : List Datum) : Insert := { s with rows := s.rows ++ [row] }

/-- The table of a column, which must have a name too. -/
def owner (c : Column) : Except SqlError Table :=
  if c.name.isNone then .error .insertUnnamedColumn
  else
    match c.table with
    | none => .error (.insertColumnWithoutTable c.describe)
    | some t => .ok t

/-- Checks that columns belong to a table. -/
def checkOwners (t : Table) : List Column → Except SqlError Unit
  | [] => .ok ()
  | c :: l => do
    let u ← owner c
    if t.sameTable u then checkOwners t l
    else .error (.insertIntoSeveralTables t.describe u.describe)

/-- The one table of the columns. -/
def target (s : Insert) : Except SqlError Table :=
  match s.columns with
  | [] => .error .insertWithoutColumns
  | c :: l => do
    let t ← owner c
    checkOwners t l
    return t

/-- Checks that every row has a value for each column; the first row has the given number. -/
def checkWidths (width row : Nat) : List (List Datum) → Except SqlError Unit
  | [] => .ok ()
  | values :: l =>
    if values.length = width then checkWidths width (row + 1) l
    else .error (.insertRowWidth row width values.length)

/-- What an insertion into the given table begins with. -/
def headingText (d : Dialect) (s : Insert) (t : Table) : List Char :=
  (d.word .insertInto).toList ++ ' ' :: t.text d .qualified
    ++ ' ' :: parenthesized (d.listing (s.columns.map (Column.text d .bare)))

/-- A row of markers. -/
def writeRow (d : Dialect) (row : List Datum) : Compiler (List Char) := do
  let markers ← row.mapM (Datum.write d)
  return parenthesized (d.listing markers)

/-- The clauses of an insertion into the given table. -/
def writeClauses (d : Dialect) (s : Insert) (t : Table) : Compiler (List (List Char)) := do
  let rows ← s.rows.mapM (writeRow d)
  return [s.headingText d t, (d.word .values).toList ++ ' ' :: d.listing rows]

def build (s : Insert) (d : Dialect) : Except SqlError Statement := do
  let t ← s.target
  if s.rows.isEmpty then .error .insertWithoutRows
  else
    checkWidths s.columns.length 0 s.rows
    d.compile (s.writeClauses d t)

end Insert

end EventStore.Sql
