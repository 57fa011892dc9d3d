import EventStore.Storage.Table

/-! A database that follows a script.

The database holds a table of events in which no slot and no event id occurs twice; an insertion
that would repeat one stores nothing. A script makes single statements fail, before or after their
effect, or answers a query with rows of its own. All statements are recorded. -/

namespace EventStore

open Sql

/-- Adds rows one after the other; each must have a slot and an event id that are not taken. -/
def insertRows (table : List EventRow) : List EventRow → Except StorageError (List EventRow)
  | [] => .ok table
  | r :: l =>
    if table.any (·.slot = r.slot) then .error (.conflict r.slot)
    else if table.any (·.eventId = r.eventId) then .error (.duplicateEvent r.eventId)
    else insertRows (table ++ [r]) l

/-- What becomes of a statement that changes the table. -/
structure ExecuteStep where
  /-- The statement takes effect before anything else becomes of it. -/
  takesEffect : Bool := false
  /-- What the statement fails with; it takes effect, perhaps once more, if there is nothing. -/
  fault : Option StorageError := none

/-- What becomes of a query. -/
inductive QueryStep where
  | answer
  | fail (e : StorageError)
  | rows (l : List EventRow)

/-- A statement that was run, and how. -/
inductive RecordedStatement where
  | executed (s : Statement)
  | queried (s : Statement)

structure Database where
  table : List EventRow := []
  executeScript : List ExecuteStep := []
  queryScript : List QueryStep := []
  /-- The aggregates with a row in the projection. -/
  projected : List String := []
  /-- Whether they have two rows there. -/
  projectedTwice : Bool := false
  statements : List RecordedStatement := []

/-- Whether a text occurs in another one. -/
def occursIn (part : List Char) : List Char → Bool
  | [] => part.isEmpty
  | c :: l => part.isPrefixOf (c :: l) || occursIn part l

namespace Database

/-- The rows that an insertion carries. -/
def insertedRows (s : Statement) : List EventRow :=
  (chunks EventColumn.all.length s.values).filterMap EventRow.ofCells?

/-- The rows that a query of the event log asks for, in the order of the table. A query with a join
gets the rows of the projected aggregates. -/
def selectedRows (d : Database) (s : Statement) : List EventRow :=
  let values := s.values
  let typed := d.table.filter fun r => values.head? = some (.text r.aggregateType)
  if occursIn "JOIN".toList s.text.toList then
    let rows := typed.filter fun r => r.aggregateId ∈ d.projected
    if d.projectedTwice then rows.flatMap fun r => [r, r] else rows
  else
    let ids := (values.drop 1).filterMap Datum.text?
    let bound := values.getLast?.bind Datum.integer?
    typed.filter fun r =>
      (ids.isEmpty || r.aggregateId ∈ ids) && bound.all fun z => (r.version : Int) ≤ z.toInt

/-- By aggregate, and then by version. -/
def sortRows (l : List EventRow) : List EventRow :=
  l.mergeSort fun r r' =>
    r.aggregateId < r'.aggregateId || (r.aggregateId = r'.aggregateId && r.version ≤ r'.version)

/-- Carries out an insertion. -/
def store (s : Statement) : StorageM Database Unit := do
  let d ← get
  set { d with table := ← StorageM.ofExcept (insertRows d.table (insertedRows s)) }

def execute (s : Statement) : StorageM Database Unit := do
  let d ← get
  let step := d.executeScript.head?.getD {}
  set { d with
    executeScript := d.executeScript.drop 1
    statements := d.statements ++ [RecordedStatement.executed s] }
  if step.takesEffect then store s
  match step.fault with
  | none => store s
  | some e => throw e

def queryEvents (s : Statement) : StorageM Database (List EventRow) := do
  let d ← get
  set { d with
    queryScript := d.queryScript.drop 1
    statements := d.statements ++ [RecordedStatement.queried s] }
  match d.queryScript.head? with
  | some (.fail e) => throw e
  | some (.rows l) => return l
  | _ => return sortRows (d.selectedRows s)

def executor : Executor Database := .inOrder execute queryEvents

end Database

end EventStore
