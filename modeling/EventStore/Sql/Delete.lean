import EventStore.Sql.Compiler

/-! Deletions. -/

namespace EventStore.Sql

structure Delete where
  table : Table
  conditions : List Condition := []

namespace Delete

def andWhere (s : Delete) (c : Condition) : Delete := { s with conditions := s.conditions ++ [c] }

def writeClauses (d : Dialect) (s : Delete) : Compiler (List (List Char)) := do
  let condition ← Condition.writeWhere d s.conditions
  return [(d.word .deleteFrom).toList ++ ' ' :: s.table.text d .qualified] ++ condition.toList

def build (s : Delete) (d : Dialect) : Except SqlError Statement :=
  d.compile (s.writeClauses d)

end Delete

end EventStore.Sql
