import EventStore.Sql.Dialect

/-! Statements: a text and the values of its parameters, which have markers in the text. -/

namespace EventStore.Sql

open Json

structure Parameter where
  name : String
  value : Datum
deriving DecidableEq

structure Statement where
  text : String
  parameters : List Parameter
deriving DecidableEq

namespace Statement

def values (s : Statement) : List Datum := s.parameters.map (·.value)

def Parameter.fields : Fields [String, Datum] :=
  .cons (.required "name" .string) <| .cons (.required "value" Datum.read) .nil

def fields : Fields [String, List Parameter] :=
  .cons (.required "text" .string) <|
  .cons (.required "parameters"
    (Parameter.fields.read.map fun (name, value, _) => (⟨name, value⟩ : Parameter)).list) .nil

def read : Reader Statement := fields.read.map fun (text, parameters, _) => ⟨text, parameters⟩

def toValue (s : Statement) : Value :=
  .object
    [("text", .string s.text),
     ("parameters", .array (s.parameters.map fun p =>
       .object [("name", .string p.name), ("value", p.value.toValue)]))]

end Statement

end EventStore.Sql
