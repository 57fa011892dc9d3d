import EventStore.Sql.Statement

/-! The compiler of expressions.

Texts are put together from those of their parts. Where a value stands it becomes the next parameter
of the statement, and the marker of this parameter is written, so parameters are numbered as the
compiler meets their values. The first part that cannot be written ends the compilation. -/

namespace EventStore.Sql

/-- A compilation, which adds to the parameters of a statement or fails. -/
abbrev Compiler := StateT (List Parameter) (Except SqlError)

inductive TableFormat where
  /-- The name, then the alias if there is one. -/
  | declaration
  /-- The alias if there is one, else the name. -/
  | reference
  /-- The name alone. -/
  | qualified
deriving DecidableEq

inductive ColumnFormat where
  /-- The name after the table, then the alias if there is one. -/
  | projection
  /-- The name after the table. -/
  | reference
  /-- The alias if there is one, else the name after the table. -/
  | short
  /-- The name alone. -/
  | bare
deriving DecidableEq

namespace Dialect

/-- What is written for a connective, also for one that has no spelling. -/
def connectiveWord (d : Dialect) (c : Connective) : String := (d.connective c).getD c.tag

/-- What is written for a kind of join, also for one that has no spelling. -/
def joinWord (d : Dialect) (k : JoinKind) : String := (d.join k).getD "JOIN"

/-- What is written between two sides that are equal, also if that has no spelling. -/
def equalSign (d : Dialect) : String := (d.operator (.comparison .equal)).getD "="

def identifier (d : Dialect) (i : Identifier) : List Char := d.quote i.text.toList

/-- Texts as a list. -/
def listing (d : Dialect) (l : List (List Char)) : List Char :=
  (d.word .listSeparator).toList.intercalate l

/-- Texts connected to one another. -/
def connecting (d : Dialect) (c : Connective) (l : List (List Char)) : List Char :=
  (' ' :: (d.connectiveWord c).toList ++ [' ']).intercalate l

end Dialect

/-- A text between parentheses. -/
def parenthesized (l : List Char) : List Char := '(' :: l ++ [')']

def Table.text (d : Dialect) (format : TableFormat) (t : Table) : List Char :=
  match format, t.alias? with
  | .reference, some aliasName => d.identifier aliasName
  | _, _ =>
    match t.source with
    | .derived aliasName => d.identifier aliasName
    | .named name aliasName =>
      let schema :=
        match t.schema with
        | some schema => d.identifier schema ++ (d.word .identifierSeparator).toList
        | none => []
      let text := schema ++ d.identifier name
      match format, aliasName with
      | .declaration, some aliasName => text ++ ' ' :: d.identifier aliasName
      | _, _ => text

def Column.text (d : Dialect) (format : ColumnFormat) (c : Column) : List Char :=
  match format, c.aliasName with
  | .short, some aliasName => d.identifier aliasName
  | _, _ =>
    let name :=
      match c.name with
      | some name => d.identifier name
      | none => (d.word .wildcard).toList
    let text :=
      match c.table with
      | some t =>
        if format = .bare then name
        else t.text d .reference ++ (d.word .identifierSeparator).toList ++ name
      | none => name
    match format, c.aliasName with
    | .projection, some aliasName =>
      text ++ ' ' :: (d.word .named).toList ++ ' ' :: d.identifier aliasName
    | _, _ => text

/-- Makes the value the next parameter of the statement, and writes its marker. -/
def Datum.write (d : Dialect) (v : Datum) : Compiler (List Char) := do
  let index := (← get).length
  modify (· ++ [⟨d.parameter index, v⟩])
  return (d.marker index).toList

def Predicate.write (d : Dialect) (column : Column) (p : Predicate) : Compiler (List Char) :=
  if column.isAll then throw (.unnamedPredicateColumn column.describe)
  else
    match d.operator p.kind with
    | none => throw (.unsupportedOperator p.kind column.describe d.name)
    | some operator =>
      let start := column.text d .reference ++ ' ' :: operator.toList
      match p with
      | .compare _ value => do
        let marker ← value.write d
        return start ++ ' ' :: marker
      | .between _ low high => do
        let low ← low.write d
        let high ← high.write d
        return start ++ ' ' :: low ++ ' ' :: (d.word .betweenAnd).toList ++ ' ' :: high
      | .inList _ values =>
        if values.isEmpty then throw (.emptyInList column.describe)
        else do
          let markers ← values.mapM (Datum.write d)
          return start ++ ' ' :: parenthesized (d.listing markers)
      | .like _ _ pattern => do
        let marker ← Datum.write d (.text pattern)
        return start ++ ' ' :: marker
      | .isNull _ => return start

namespace Condition

mutual

def write (d : Dialect) : Condition → Compiler (List Char)
  | .leaf column p => p.write d column
  | .group c l =>
    if l.isEmpty then throw (.emptyGroup c)
    else do
      let parts ← writeAll d l
      return parenthesized (d.connecting c parts)

def writeAll (d : Dialect) : List Condition → Compiler (List (List Char))
  | [] => return []
  | c :: l => do
    let text ← c.write d
    let texts ← writeAll d l
    return text :: texts

end

/-- The clause of the conditions that rows must meet, if there are any. -/
def writeWhere (d : Dialect) (l : List Condition) : Compiler (Option (List Char)) :=
  if l.isEmpty then return none
  else do
    let parts ← writeAll d l
    return some ((d.word .whereTrue).toList ++ ' ' :: d.connecting .and parts)

end Condition

def Join.write (d : Dialect) (j : Join) : Compiler (List Char) :=
  let text := (d.joinWord j.kind).toList ++ ' ' :: j.right.table.text d .declaration
    ++ ' ' :: (d.word .onEqual).toList ++ ' ' :: j.left.column.text d .reference
    ++ ' ' :: d.equalSign.toList ++ ' ' :: j.right.column.text d .reference
  match j.condition with
  | none => return text
  | some c => do
    let extra ← c.write d
    return text ++ ' ' :: (d.connectiveWord .and).toList ++ ' ' :: extra

namespace OrderKey

def text (d : Dialect) (k : OrderKey) : List Char :=
  k.column.text d .short
    ++ ' ' :: (d.word (if k.descending then .descending else .ascending)).toList

/-- The clause that sorts the rows, if there are keys. -/
def sorting (d : Dialect) (l : List OrderKey) : Option (List Char) :=
  if l.isEmpty then none
  else some ((d.word .orderBy).toList ++ ' ' :: d.listing (l.map (text d)))

end OrderKey

namespace Assignment

/-- The new value is written as a word when it is null. -/
def writeValue (d : Dialect) (a : Assignment) : Compiler (List Char) :=
  match a.value with
  | none | some .null => return (d.word .null).toList
  | some v => v.write d

def write (d : Dialect) (a : Assignment) : Compiler (List Char) := do
  let value ← a.writeValue d
  return a.column.text d .bare ++ ' ' :: d.equalSign.toList ++ ' ' :: value

end Assignment

/-- The statement of the clauses that are compiled, with no parameters at first. -/
def Dialect.compile (d : Dialect) (clauses : Compiler (List (List Char))) :
    Except SqlError Statement := do
  let (texts, parameters) ← clauses.run []
  return ⟨String.ofList ((d.word .clauseSeparator).toList.intercalate texts), parameters⟩

end EventStore.Sql
