import EventStore.Sql.Clause
import EventStore.Text.LowerCase

/-! Dialects.

A dialect spells the words of statements, its operators, its identifiers and its parameters. It may
have no spelling for an operator, which then cannot be used in conditions, and none for a connective
or a kind of join, for which a plain word then stands. -/

namespace EventStore.Sql

open Text Json

/-- Words and separators, which every dialect spells. -/
inductive Word where
  | select
  | distinct
  | fromTable
  | whereTrue
  | orderBy
  | ascending
  | descending
  | insertInto
  | values
  | update
  | setTo
  | deleteFrom
  | onEqual
  | named
  | betweenAnd
  | null
  | wildcard
  | identifierSeparator
  | listSeparator
  | clauseSeparator
deriving DecidableEq, Repr

def Word.usual : Word → String
  | .select => "SELECT"
  | .distinct => "DISTINCT"
  | .fromTable => "FROM"
  | .whereTrue => "WHERE"
  | .orderBy => "ORDER BY"
  | .ascending => "ASC"
  | .descending => "DESC"
  | .insertInto => "INSERT INTO"
  | .values => "VALUES"
  | .update => "UPDATE"
  | .setTo => "SET"
  | .deleteFrom => "DELETE FROM"
  | .onEqual => "ON"
  | .named => "AS"
  | .betweenAnd => "AND"
  | .null => "NULL"
  | .wildcard => "*"
  | .identifierSeparator => "."
  | .listSeparator => ", "
  | .clauseSeparator => "\n"

/-- The usual name of a parameter, by its position. -/
def parameterName (k : Nat) : String := "p" ++ decimalText k

/-- A clause of a limit and an offset, where either may be missing. -/
def usualPaging : (limit offset : Option Nat) → Option String
  | none, none => none
  | some limit, none => some ("LIMIT " ++ decimalText limit)
  | none, some offset => some ("OFFSET " ++ decimalText offset)
  | some limit, some offset =>
    some ("LIMIT " ++ decimalText limit ++ " OFFSET " ++ decimalText offset)

structure Dialect where
  name : String
  word : Word → String := Word.usual
  openQuote : String := ""
  closeQuote : String := ""
  operator : OperatorKind → Option String
  connective : Connective → Option String := fun c => some c.tag
  join : JoinKind → Option String := fun k => some k.usual
  parameterPrefix : String := "@"
  /-- The name of a parameter, by its position. -/
  parameter : Nat → String := parameterName
  /-- What stands for a parameter in the text of a statement, by its position. -/
  marker : Nat → String := fun k => parameterPrefix ++ parameter k
  paging : (limit offset : Option Nat) → Option String := usualPaging

/-- Doubles every occurrence of a quote. -/
def doubled (quote : List Char) : List Char → List Char
  | [] => []
  | c :: l =>
    if quote ≠ [] ∧ quote <+: c :: l then
      quote ++ quote ++ doubled quote (l.drop (quote.length - 1))
    else c :: doubled quote l
termination_by l => l.length

namespace Dialect

/-- An identifier between quotes, where a closing quote inside it is doubled. -/
def quote (d : Dialect) (s : List Char) : List Char :=
  d.openQuote.toList ++ doubled d.closeQuote.toList s ++ d.closeQuote.toList

/-- Operators that most databases have. -/
def commonOperator : OperatorKind → Option String
  | .iLike | .notILike => none
  | k => some k.usual

/-- The spellings that most databases understand. -/
def generic : Dialect where
  name := "generic"
  operator := commonOperator

def sqlServer : Dialect where
  name := "sqlserver"
  openQuote := "["
  closeQuote := "]"
  operator := commonOperator
  paging limit offset :=
    if limit.isNone ∧ offset.isNone then none
    else
      let skip := "OFFSET " ++ decimalText (offset.getD 0) ++ " ROWS"
      some (match limit with
        | none => skip
        | some n => skip ++ " FETCH NEXT " ++ decimalText n ++ " ROWS ONLY")

/-- Parameters are numbered from 1 here, and case may be ignored in patterns. -/
def postgres : Dialect where
  name := "postgres"
  openQuote := "\""
  closeQuote := "\""
  operator k := some k.usual
  parameterPrefix := "$"
  marker k := "$" ++ decimalText (k + 1)

end Dialect

/-- The dialects that have a name. -/
inductive DialectKind where
  | generic
  | sqlServer
  | postgres
deriving DecidableEq, Repr

/-- A text that names no dialect. -/
structure UnknownDialect where
  name : String
deriving DecidableEq, Repr

def UnknownDialect.message (e : UnknownDialect) : String := "unknown SQL dialect: " ++ e.name

namespace DialectKind

def dialect : DialectKind → Dialect
  | .generic => .generic
  | .sqlServer => .sqlServer
  | .postgres => .postgres

def name (k : DialectKind) : String := k.dialect.name

/-- The dialect of a name or of another common name, in any case and with blanks around it. -/
def ofText (s : String) : Except UnknownDialect DialectKind :=
  let s := lowerCase (trim s)
  if s = "generic" ∨ s = "ansi" then .ok .generic
  else if s = "sqlserver" ∨ s = "mssql" then .ok .sqlServer
  else if s = "postgres" ∨ s = "postgresql" then .ok .postgres
  else .error ⟨s⟩

def read : Reader DialectKind :=
  Variant.read
    [("generic", .unit .generic), ("sqlserver", .unit .sqlServer), ("postgres", .unit .postgres)]

def toValue (k : DialectKind) : Value := .string k.name

end DialectKind

end EventStore.Sql
