import EventStore.Sql.Operator
import EventStore.Text.Quoted

/-! Why an expression has no statement. -/

namespace EventStore.Sql

open Text

/-- What an identifier names. -/
inductive IdentifierRole where
  | tableName
  | tableAlias
  | schema
  | columnName
  | columnAlias
deriving DecidableEq, Repr

def IdentifierRole.name : IdentifierRole → String
  | .tableName => "table name"
  | .tableAlias => "table alias"
  | .schema => "schema"
  | .columnName => "column name"
  | .columnAlias => "column alias"

/-- Columns and tables are given by their descriptions. -/
inductive SqlError where
  | blankIdentifier (role : IdentifierRole)
  | unnamedJoinColumn (column : String)
  | unqualifiedJoinColumn (column : String)
  | unnamedOrderColumn
  | emptyGroup (connective : Connective)
  | unnamedPredicateColumn (column : String)
  | unsupportedOperator (operator : OperatorKind) (column dialect : String)
  | emptyInList (column : String)
  | queryWithoutTable
  | insertWithoutColumns
  | insertUnnamedColumn
  | insertColumnWithoutTable (column : String)
  | insertIntoSeveralTables (first second : String)
  | insertWithoutRows
  | insertRowWidth (row expected actual : Nat)
  | updateWithoutColumns
  | updateUnnamedColumn
  | updateOfSeveralTables (first second : String)
  | updateWithoutTable
deriving DecidableEq, Repr

/-- The name of a kind of error. -/
def SqlError.kind : SqlError → String
  | .blankIdentifier _ => "InvalidIdentifier"
  | .unnamedJoinColumn _ | .unqualifiedJoinColumn _ => "InvalidJoin"
  | .unnamedOrderColumn => "InvalidOrderBy"
  | .emptyGroup _ | .unnamedPredicateColumn _ => "UnsupportedCondition"
  | .unsupportedOperator .. => "UnsupportedOperator"
  | .emptyInList _ => "EmptyInList"
  | .queryWithoutTable => "InvalidQueryNoTable"
  | .insertWithoutColumns => "InvalidInsertNoColumns"
  | .insertUnnamedColumn => "InvalidInsertUnnamedColumn"
  | .insertColumnWithoutTable _ => "InvalidInsertColumnWithoutTable"
  | .insertIntoSeveralTables .. => "InvalidInsertMultipleTables"
  | .insertWithoutRows => "InvalidInsertNoRows"
  | .insertRowWidth .. => "InvalidInsertRowWidth"
  | .updateWithoutColumns => "InvalidUpdateNoColumns"
  | .updateUnnamedColumn => "InvalidUpdateUnnamedColumn"
  | .updateOfSeveralTables .. => "InvalidUpdateMultipleTables"
  | .updateWithoutTable => "InvalidUpdateNoTable"

def SqlError.message : SqlError → String
  | .blankIdentifier role => "Invalid identifier: " ++ role.name ++ " must not be empty"
  | .unnamedJoinColumn column => "Invalid join on " ++ column ++ ": join columns must be named"
  | .unqualifiedJoinColumn column =>
    "Invalid join on " ++ column ++ ": join columns must be table-qualified"
  | .unnamedOrderColumn => "Invalid order by: column must be named"
  | .emptyGroup connective =>
    "Unsupported condition " ++ connective.tag ++ " group: a group needs at least one condition"
  | .unnamedPredicateColumn column =>
    "Unsupported condition " ++ column ++ ": a predicate needs a named column"
  | .unsupportedOperator operator column dialect =>
    "Unsupported operator " ++ operator.name ++ " on " ++ column ++ " for dialect " ++ dialect
  | .emptyInList column => "Empty value list for IN on " ++ column
  | .queryWithoutTable => "Invalid query: no table to select from"
  | .insertWithoutColumns => "Invalid insert: no columns"
  | .insertUnnamedColumn => "Invalid insert: column without a name"
  | .insertColumnWithoutTable column => "Invalid insert: column " ++ column ++ " has no table"
  | .insertIntoSeveralTables first second =>
    "Invalid insert: columns span tables " ++ quotedList [first, second]
  | .insertWithoutRows => "Invalid insert: no rows"
  | .insertRowWidth row expected actual =>
    "Invalid insert: row " ++ decimalText row ++ " has " ++ decimalText actual
      ++ " values, expected " ++ decimalText expected
  | .updateWithoutColumns => "Invalid update: no column updates"
  | .updateUnnamedColumn => "Invalid update: column without a name"
  | .updateOfSeveralTables first second =>
    "Invalid update: columns span tables " ++ quotedList [first, second]
  | .updateWithoutTable => "Invalid update: no column names a table"

end EventStore.Sql
