import EventStore.Sql.Dialect
import EventStore.Text.Quoted

/-! Configuration of an event store, from JSON or from the environment. -/

namespace EventStore

open Json Sql Text

structure StoreConfig where
  /-- The name of the event log table. -/
  eventsTable : String := "Events"
  schema : Option String := none
  dialect : DialectKind := .generic
  /-- Whether deleted aggregates are loaded too. -/
  includeDeleted : Bool := false
deriving DecidableEq

/-- A variable of the environment with a value that it cannot have. -/
structure ConfigError where
  key : String
  value : String
deriving DecidableEq, Repr

def ConfigError.message (e : ConfigError) : String :=
  "Invalid value for " ++ e.key ++ ": " ++ quoted e.value

namespace StoreConfig

def fields : Fields [String, Option String, DialectKind, Bool] :=
  .cons (.default "events_table" .string "Events") <|
  .cons (.default "schema" Reader.string.optional none) <|
  .cons (.default "dialect" DialectKind.read .generic) <|
  .cons (.default "include_deleted" .boolean false) .nil

def read : Reader StoreConfig :=
  fields.read.map fun (eventsTable, schema, dialect, includeDeleted, _) =>
    { eventsTable, schema, dialect, includeDeleted }

def toValue (c : StoreConfig) : Value :=
  .object
    [("events_table", .string c.eventsTable),
     ("schema", match c.schema with | none => .null | some s => .string s),
     ("dialect", c.dialect.toValue),
     ("include_deleted", .boolean c.includeDeleted)]

def flag? (s : String) : Option Bool :=
  if s = "true" then some true else if s = "false" then some false else none

/-- The value of a variable, read by a function that may refuse it. -/
def setting {α : Type} (environment : String → Option String) (key : String) (value : α)
    (read : String → Option α) : Except ConfigError α :=
  match environment key with
  | none => .ok value
  | some s =>
    match read s with
    | some a => .ok a
    | none => .error ⟨key, s⟩

/-- The configuration that an environment gives; what it does not give has its default value. -/
def ofEnvironment (environment : String → Option String) : Except ConfigError StoreConfig := do
  let eventsTable := (environment "STRATA_EVENTS_TABLE").getD "Events"
  let schema := environment "STRATA_EVENTS_SCHEMA"
  let dialect ← setting environment "STRATA_SQL_DIALECT" .generic fun s =>
    (DialectKind.ofText s).toOption
  let includeDeleted ← setting environment "STRATA_INCLUDE_DELETED" false fun s => flag? (trim s)
  return { eventsTable, schema, dialect, includeDeleted }

/-- The event log table. -/
def table (c : StoreConfig) : Except SqlError Table := do
  let t ← Table.named c.eventsTable
  match c.schema with
  | none => return t
  | some schema => t.withSchema schema

end StoreConfig

end EventStore
