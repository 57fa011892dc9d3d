import EventStore.Sql.Compiler

/-! Updates. The table is the one that the columns belong to; some of them may belong to none. -/

namespace EventStore.Sql

structure Update where
  assignments : List Assignment := []
  conditions : List Condition := []

namespace Update

def assign (s : Update) (a : Assignment) : Update := { s with assignments := s.assignments ++ [a] }

def andWhere (s : Update) (c : Condition) : Update := { s with conditions := s.conditions ++ [c] }

/-- The one table that columns belong to. -/
def target (s : Update) : Except SqlError Table :=
  if s.assignments.isEmpty then .error .updateWithoutColumns
  else
    match s.assignments.filterMap (·.column.table) with
    | [] => .error .updateWithoutTable
    | t :: l =>
      match l.find? fun u => !t.sameTable u with
      | some u => .error (.updateOfSeveralTables t.describe u.describe)
      | none => .ok t

/-- The clauses of an update of the given table. The new values are compiled first. -/
def writeClauses (d : Dialect) (s : Update) (t : Table) : Compiler (List (List Char)) := do
  let assignments ← s.assignments.mapM (Assignment.write d)
  let condition ← Condition.writeWhere d s.conditions
  return [(d.word .update).toList ++ ' ' :: t.text d .qualified,
    (d.word .setTo).toList ++ ' ' :: d.listing assignments] ++ condition.toList

def build (s : Update) (d : Dialect) : Except SqlError Statement := do
  let t ← s.target
  d.compile (s.writeClauses d t)

end Update

end EventStore.Sql
