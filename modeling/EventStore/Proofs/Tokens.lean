import EventStore.Sql.Delete
import EventStore.Sql.Insert
import EventStore.Sql.Select
import EventStore.Sql.Update

/-!
# Statements as sequences of tokens

A token says what stands at a place of a statement and leaves its spelling to a dialect. A value is
a token of its own. In these terms a statement is described without the order in which it is
compiled: its text is what a dialect spells of its tokens, where the marker of the value number `k`
is the one of the parameter number `k`, and its parameters are the values among the tokens.

Whether an expression can be written is described beside its tokens, by checks of its conditions.
-/

namespace EventStore.Sql

/-! ## Tokens -/

inductive Token where
  | word (w : Word)
  | identifier (i : Identifier)
  | operator (k : OperatorKind)
  | connective (c : Connective)
  | join (k : JoinKind)
  /-- A value, written as a marker. -/
  | value (v : Datum)
  /-- The clause that limits the rows, if any, with the separator before it. -/
  | paging (limit offset : Option Nat)
  | space
  | leftParen
  | rightParen
deriving DecidableEq

/-- Sequences of tokens with a separator between them. -/
def separated (separator : List Token) (l : List (List Token)) : List Token :=
  separator.intercalate l

/-- Sequences of tokens as a list. -/
def listed (l : List (List Token)) : List Token := separated [.word .listSeparator] l

def inParens (l : List Token) : List Token := .leftParen :: l ++ [.rightParen]

/-- The path of an identifier, from the outermost name to the innermost. -/
def pathTokens (l : List Identifier) : List Token :=
  separated [.word .identifierSeparator] (l.map fun i => [.identifier i])

namespace Table

/-- The identifiers of the table without its alias; a derived table is known by its alias alone. -/
def qualifiedPath (t : Table) : List Identifier :=
  match t.source with
  | .named name _ => t.schema.toList ++ [name]
  | .derived aliasName => [aliasName]

/-- The identifiers that stand before a column of the table. -/
def referencePath (t : Table) : List Identifier :=
  match t.alias? with
  | some aliasName => [aliasName]
  | none => t.qualifiedPath

/-- The name of a table, as statements write that change it. -/
def qualified (t : Table) : List Token := pathTokens t.qualifiedPath

/-- A table as it is introduced: its name, then its alias. -/
def declaration (t : Table) : List Token :=
  match t.source with
  | .named _ (some aliasName) => t.qualified ++ [.space, .identifier aliasName]
  | _ => t.qualified

/-- What stands before a column of a table. -/
def reference (t : Table) : List Token := pathTokens t.referencePath

end Table

namespace Column

/-- The name of a column alone. -/
def bare (c : Column) : List Token :=
  match c.name with
  | some name => [.identifier name]
  | none => [.word .wildcard]

/-- A column after its table. -/
def reference (c : Column) : List Token :=
  match c.table with
  | some t => t.reference ++ .word .identifierSeparator :: c.bare
  | none => c.bare

/-- A column in a list of what to select. -/
def projection (c : Column) : List Token :=
  match c.aliasName with
  | some aliasName => c.reference ++ [.space, .word .named, .space, .identifier aliasName]
  | none => c.reference

/-- A column by its alias if it has one. -/
def short (c : Column) : List Token :=
  match c.aliasName with
  | some aliasName => [.identifier aliasName]
  | none => c.reference

end Column

/-- What follows the operator of a predicate. -/
def Predicate.operands : Predicate → List Token
  | .compare _ value => [.space, .value value]
  | .between _ low high =>
    [.space, .value low, .space, .word .betweenAnd, .space, .value high]
  | .inList _ values => .space :: inParens (listed (values.map fun v => [.value v]))
  | .like _ _ pattern => [.space, .value (.text pattern)]
  | .isNull _ => []

/-- Conditions connected to one another. -/
def connected (c : Connective) (l : List (List Token)) : List Token :=
  separated [.space, .connective c, .space] l

namespace Condition

mutual

def tokens : Condition → List Token
  | .leaf column p => column.reference ++ .space :: .operator p.kind :: p.operands
  | .group c l => inParens (connected c (tokensAll l))

def tokensAll : List Condition → List (List Token)
  | [] => []
  | c :: l => c.tokens :: tokensAll l

end

/-- The clause of the conditions that rows must meet, if there are any. -/
def clause : List Condition → List (List Token)
  | [] => []
  | l => [.word .whereTrue :: .space :: connected .and (tokensAll l)]

end Condition

/-- Equality of two sides. -/
def equated (left right : List Token) : List Token :=
  left ++ [.space, .operator (.comparison .equal), .space] ++ right

def Join.tokens (j : Join) : List Token :=
  [.join j.kind, .space] ++ j.right.table.declaration ++ [.space, .word .onEqual, .space]
    ++ connected .and
      (equated j.left.column.reference j.right.column.reference
        :: (j.condition.map Condition.tokens).toList)

def OrderKey.tokens (k : OrderKey) : List Token :=
  k.column.short ++ [.space, .word (if k.descending then .descending else .ascending)]

/-- The clause that sorts the rows, if there are keys. -/
def OrderKey.clause : List OrderKey → List (List Token)
  | [] => []
  | l => [.word .orderBy :: .space :: listed (l.map OrderKey.tokens)]

/-- The value is written as a word when it is null. -/
def Assignment.tokens (a : Assignment) : List Token :=
  equated a.column.bare
    [match a.value with
      | none | some .null => .word .null
      | some v => .value v]

/-- Clauses one after the other. -/
def clauses (l : List (List Token)) : List Token := separated [.word .clauseSeparator] l

/-- The tokens of a query of the given table. -/
def Select.tokens (s : Select) (t : Table) : List Token :=
  let columns :=
    if s.columns.isEmpty then [.word .wildcard] else listed (s.columns.map Column.projection)
  let first := if s.distinct then [.word .select, .space, .word .distinct] else [.word .select]
  clauses
    ([first ++ .space :: columns, .word .fromTable :: .space :: t.declaration]
      ++ s.joins.map Join.tokens ++ Condition.clause s.conditions ++ OrderKey.clause s.orderBy)
    ++ [.paging s.limit s.offset]

/-- The tokens of an insertion into the given table. -/
def Insert.tokens (s : Insert) (t : Table) : List Token :=
  clauses
    [[.word .insertInto, .space] ++ t.qualified
        ++ .space :: inParens (listed (s.columns.map Column.bare)),
     .word .values :: .space
        :: listed (s.rows.map fun row => inParens (listed (row.map fun v => [.value v])))]

/-- The tokens of an update of the given table. -/
def Update.tokens (s : Update) (t : Table) : List Token :=
  clauses
    ([[.word .update, .space] ++ t.qualified,
      .word .setTo :: .space :: listed (s.assignments.map Assignment.tokens)]
      ++ Condition.clause s.conditions)

def Delete.tokens (s : Delete) : List Token :=
  clauses ([[.word .deleteFrom, .space] ++ s.table.qualified] ++ Condition.clause s.conditions)

/-! ## Spelling -/

/-- The spelling of a token, where so many values stand before it. -/
def Dialect.spell (d : Dialect) (position : Nat) : Token → List Char
  | .word w => (d.word w).toList
  | .identifier i => d.quote i.text.toList
  | .operator k => ((d.operator k).getD k.usual).toList
  | .connective c => ((d.connective c).getD c.tag).toList
  | .join k => ((d.join k).getD "JOIN").toList
  | .value _ => (d.marker position).toList
  | .paging limit offset =>
    match d.paging limit offset with
    | none => []
    | some s => (d.word .clauseSeparator).toList ++ s.toList
  | .space => [' ']
  | .leftParen => ['(']
  | .rightParen => [')']

/-- The text of tokens, where so many values stand before the first of them. -/
def Dialect.spellAll (d : Dialect) (position : Nat) : List Token → List Char
  | [] => []
  | .value v :: l => d.spell position (.value v) ++ d.spellAll (position + 1) l
  | t :: l => d.spell position t ++ d.spellAll position l

/-- The values among tokens. -/
def tokenValues (l : List Token) : List Datum :=
  l.filterMap fun
    | .value v => some v
    | _ => none

/-- The texts of phrases that follow one another, where so many values stand before the first. -/
def Dialect.spellEach (d : Dialect) (position : Nat) : List (List Token) → List (List Char)
  | [] => []
  | l :: ls => d.spellAll position l :: d.spellEach (position + (tokenValues l).length) ls

def Statement.ofTokens (d : Dialect) (l : List Token) : Statement where
  text := String.ofList (d.spellAll 0 l)
  parameters := (tokenValues l).mapIdx fun k v => ⟨d.parameter k, v⟩

/-! ## Checks -/

namespace Condition

/-- Checks that a predicate can be written. -/
def checkLeaf (d : Dialect) (column : Column) (p : Predicate) : Except SqlError Unit :=
  if column.isAll then .error (.unnamedPredicateColumn column.describe)
  else if (d.operator p.kind).isNone then
    .error (.unsupportedOperator p.kind column.describe d.name)
  else
    match p with
    | .inList _ [] => .error (.emptyInList column.describe)
    | _ => .ok ()

mutual

/-- Checks that a condition can be written. -/
def check (d : Dialect) : Condition → Except SqlError Unit
  | .leaf column p => checkLeaf d column p
  | .group c l => if l.isEmpty then .error (.emptyGroup c) else checkAll d l

def checkAll (d : Dialect) : List Condition → Except SqlError Unit
  | [] => .ok ()
  | c :: l => do
    c.check d
    checkAll d l

end

end Condition

end EventStore.Sql
