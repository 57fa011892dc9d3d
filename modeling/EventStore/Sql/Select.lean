import EventStore.Sql.Compiler

/-! Queries. -/

namespace EventStore.Sql

structure Select where
  table : Option Table := none
  /-- What to select; nothing stands for everything. -/
  columns : List Column := []
  distinct : Bool := false
  joins : List Join := []
  conditions : List Condition := []
  orderBy : List OrderKey := []
  limit : Option Nat := none
  offset : Option Nat := none

namespace Select

def fromTable (s : Select) (t : Table) : Select := { s with table := some t }

def select (s : Select) (l : List Column) : Select := { s with columns := s.columns ++ l }

def onlyDistinct (s : Select) : Select := { s with distinct := true }

def join (s : Select) (j : Join) : Select := { s with joins := s.joins ++ [j] }

def andWhere (s : Select) (c : Condition) : Select := { s with conditions := s.conditions ++ [c] }

def sortBy (s : Select) (k : OrderKey) : Select := { s with orderBy := s.orderBy ++ [k] }

/-- What a query selects. -/
def headingText (d : Dialect) (s : Select) : List Char :=
  let columns :=
    if s.columns.isEmpty then (d.word .wildcard).toList
    else d.listing (s.columns.map (Column.text d .projection))
  let first :=
    if s.distinct then (d.word .select).toList ++ ' ' :: (d.word .distinct).toList
    else (d.word .select).toList
  first ++ ' ' :: columns

/-- The clauses of a query of the given table. -/
def writeClauses (d : Dialect) (s : Select) (t : Table) : Compiler (List (List Char)) := do
  let joins ← s.joins.mapM (Join.write d)
  let condition ← Condition.writeWhere d s.conditions
  return [s.headingText d, (d.word .fromTable).toList ++ ' ' :: t.text d .declaration]
    ++ joins ++ condition.toList ++ (OrderKey.sorting d s.orderBy).toList
    ++ ((d.paging s.limit s.offset).map String.toList).toList

def build (s : Select) (d : Dialect) : Except SqlError Statement :=
  match s.table with
  | none => .error .queryWithoutTable
  | some t => d.compile (s.writeClauses d t)

end Select

end EventStore.Sql
