import EventStore.Event.Json

/-! Values that statements carry as parameters, and their JSON form. -/

namespace EventStore.Sql

open Json

inductive Datum where
  | null
  | text (s : String)
  | integer (z : Int64)
  | float (x : Binary64)
  | boolean (b : Bool)
  | timestamp (t : Instant)
  | bytes (l : List UInt8)
deriving DecidableEq

namespace Datum

def isNull : Datum → Bool
  | .null => true
  | _ => false

def text? : Datum → Option String
  | .text s => some s
  | _ => none

def integer? : Datum → Option Int64
  | .integer z => some z
  | _ => none

/-- A value that may be missing. -/
def ofOption {α : Type} (f : α → Datum) : Option α → Datum
  | none => .null
  | some a => f a

/-- Equality of values, where floats are compared as numbers. -/
def equal : Datum → Datum → Bool
  | .float x, .float y => x.numEq y
  | v, w => v = w

def toValue : Datum → Value
  | .null => .string "Null"
  | .text s => .object [("Text", .string s)]
  | .integer z => .object [("Integer", .integer z.toInt)]
  | .float x => .object [("Float", .number (.float x))]
  | .boolean b => .object [("Boolean", .boolean b)]
  | .timestamp t => .object [("Timestamp", t.toValue)]
  | .bytes l => .object [("Bytes", .array (l.map fun b => .integer b.toNat))]

def variants : List (String × Variant Datum) :=
  [("Null", .unit .null),
   ("Text", .content (Reader.string.map .text)),
   ("Integer", .content (Reader.int64.map .integer)),
   ("Float", .content (Reader.float.map .float)),
   ("Boolean", .content (Reader.boolean.map .boolean)),
   ("Timestamp", .content (Instant.read.map .timestamp)),
   ("Bytes", .content ((Reader.natural 255).list.map fun l => .bytes (l.map .ofNat)))]

def read : Reader Datum := Variant.read variants

end Datum

end EventStore.Sql
