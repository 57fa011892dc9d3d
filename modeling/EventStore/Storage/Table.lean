import EventStore.Entries
import EventStore.Sql.Insert
import EventStore.Storage.Projection

/-! Storage in a table of a database.

Rows are appended by insertions of as many rows as the limit on parameters allows. The database
refuses a row whose slot or event id is taken. The rows are then looked up: if some of them are
stored already, the same in the same slots, then an earlier append was cut short, and the others
are inserted. -/

namespace EventStore

open Sql

/-- What runs statements, with states in `σ`. A batch is run as a whole if the executor can do
that. -/
structure Executor (σ : Type) where
  execute : Statement → StorageM σ Unit
  executeBatch : List Statement → StorageM σ Unit
  queryEvents : Statement → StorageM σ (List EventRow)

/-- An executor that runs the statements of a batch one after the other, up to the first that
fails. -/
def Executor.inOrder {σ : Type} (execute : Statement → StorageM σ Unit)
    (queryEvents : Statement → StorageM σ (List EventRow)) : Executor σ :=
  ⟨execute, fun l => l.forM execute, queryEvents⟩

/-- The number of parameters that a statement may have. -/
def maxParameters : Nat := 2100

def maxRowsPerInsert : Nat := maxParameters / EventColumn.all.length

/-- Cuts a list into pieces of a size, the last of which may be shorter. -/
def chunks {α : Type} (size : Nat) (l : List α) : List (List α) :=
  if size = 0 ∨ l = [] then []
  else l.take size :: chunks size (l.drop size)
termination_by l.length
decreasing_by
  rename_i h
  have : 0 < l.length := List.length_pos_iff.mpr fun e => h (.inr e)
  have : size ≠ 0 := fun e => h (.inl e)
  simp only [List.length_drop]
  omega

structure TableStore where
  dialect : Dialect
  table : Table

namespace TableStore

/-- One insertion of all rows. -/
def insertStatement (s : TableStore) (l : List EventRow) : Except StorageError Statement := do
  let rows ← l.mapM EventRow.cells
  let insert : Insert := ⟨EventColumn.all.map (·.of s.table), rows⟩
  match insert.build s.dialect with
  | .ok statement => .ok statement
  | .error e => .error (.sql e)

/-- Insertions of rows, as few as the limit on parameters allows. -/
def insertStatements (s : TableStore) (l : List EventRow) : Except StorageError (List Statement) :=
  (chunks maxRowsPerInsert l).mapM s.insertStatement

/-- The query of a filter, sorted by aggregate, if there may be several, and then by version. -/
def select (s : TableStore) (f : EventFilter) : Select :=
  let ids : Option Condition := f.aggregateIds.map fun
    | [id] => .eq EventColumn.aggregateId.column (.text id)
    | ids => .inList EventColumn.aggregateId.column (ids.map .text)
  let version : Option Condition := f.maxVersion.map fun version =>
    .le EventColumn.version.column (versionBound version)
  let single := f.aggregateIds.any fun ids => ids.length = 1
  { table := some s.table
    conditions :=
      .eq EventColumn.aggregateType.column (.text f.aggregateType) :: (ids.toList ++ version.toList)
    orderBy :=
      if single then [EventColumn.version.key]
      else [EventColumn.aggregateId.key, EventColumn.version.key] }

def selectStatement (s : TableStore) (f : EventFilter) : Except SqlError Statement :=
  (s.select f).build s.dialect

variable {σ : Type}

/-- Builds a query and runs it. -/
def run (s : TableStore) (x : Executor σ) (query : Select) : StorageM σ (List EventRow) :=
  match query.build s.dialect with
  | .error e => throw (.sql e)
  | .ok statement => x.queryEvents statement

/-- Nothing is asked for an empty selection. -/
def read (s : TableStore) (x : Executor σ) (f : EventFilter) : StorageM σ (List EventRow) :=
  if f.isEmptySelection then pure [] else s.run x (s.select f)

/-- Reads the events that are found by way of a projection. -/
def readProjected (s : TableStore) (x : Executor σ) (aggregateType : String) (p : ProjectionFilter)
    (maxVersion : Option Nat) : StorageM σ (List EventRow) :=
  s.run x (p.query s.table aggregateType maxVersion)

/-- The streams of rows as filters, one for each type. -/
def streamFilters (l : List EventRow) : List EventFilter :=
  (l.map (·.aggregateType)).eraseDups.map fun aggregateType =>
    let ids := (l.filter (·.aggregateType = aggregateType)).map (·.aggregateId)
    { aggregateType, aggregateIds := some ((Entries.ofList (ids.map (·, ()))).toList.map (·.1)) }

/-- The rows of a batch without those that are stored. Fails if another row is stored with the
event id of one of them, of two such rows the later one, or if none of them is stored. -/
def pendingRows (stored l : List EventRow) : Option (List EventRow) :=
  let storedAs (r : EventRow) := stored.reverse.find? (·.eventId = r.eventId)
  if l.all fun r => (storedAs r).all fun r' => r'.slot = r.slot then
    let pending := l.filter fun r => (storedAs r).isNone
    if pending.length = l.length then none else some pending
  else none

/-- The rows that are still to be inserted after a clash. -/
def unstored (s : TableStore) (x : Executor σ) (l : List EventRow) (clash : StorageError) :
    StorageM σ (List EventRow) := do
  let stored ← (streamFilters l).mapM (s.read x)
  match pendingRows stored.flatten l with
  | some pending => return pending
  | none => throw clash

/-- Inserts rows. -/
def insert (s : TableStore) (x : Executor σ) (l : List EventRow) : StorageM σ Unit := do
  let statements ← StorageM.ofExcept (s.insertStatements l)
  x.executeBatch statements

/-- Inserts rows; after a clash only those that are not stored yet. -/
def append (s : TableStore) (x : Executor σ) (l : List EventRow) : StorageM σ Unit :=
  if l.isEmpty then pure ()
  else do
    let statements ← StorageM.ofExcept (s.insertStatements l)
    tryCatch (x.executeBatch statements) fun e =>
      if e.isClash then do
        let pending ← s.unstored x l e
        if pending.isEmpty then pure () else s.insert x pending
      else throw e

/-- The storage in the table. -/
def storage (s : TableStore) (x : Executor σ) : Storage σ := ⟨s.append x, s.read x⟩

end TableStore

end EventStore
