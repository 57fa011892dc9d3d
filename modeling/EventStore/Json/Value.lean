import EventStore.Entries
import EventStore.Json.Number

/-! JSON values and their compact text.

Members of an object stand in the order in which they are written. Sorting orders them by key at
every level, and of members with one key it keeps the last. -/

namespace EventStore.Json

open Text

inductive Value where
  | null
  | boolean (b : Bool)
  | number (n : Number)
  | string (s : String)
  | array (items : List Value)
  | object (members : List (String × Value))

namespace Value

def integer (z : Int) : Value := .number (.integer z)

/-- A character of a string: quotes, backslashes and controls are escaped. -/
def escapedChar (c : Char) : List Char :=
  if c = '"' then ['\\', '"']
  else if c = '\\' then ['\\', '\\']
  else if c = '\n' then ['\\', 'n']
  else if c = '\r' then ['\\', 'r']
  else if c = '\t' then ['\\', 't']
  else if c = '\x08' then ['\\', 'b']
  else if c = '\x0c' then ['\\', 'f']
  else if c.toNat < 32 then '\\' :: 'u' :: fixedDigits 16 4 c.toNat
  else [c]

def stringChars (s : String) : List Char := '"' :: s.toList.flatMap escapedChar ++ ['"']

mutual

/-- The compact text of a value. -/
def chars : Value → List Char
  | .null => "null".toList
  | .boolean true => "true".toList
  | .boolean false => "false".toList
  | .number n => n.chars
  | .string s => stringChars s
  | .array l => '[' :: itemsChars l ++ [']']
  | .object l => '\x7b' :: membersChars l ++ ['\x7d']

def itemsChars : List Value → List Char
  | [] => []
  | [v] => v.chars
  | v :: w :: l => v.chars ++ ',' :: itemsChars (w :: l)

def membersChars : List (String × Value) → List Char
  | [] => []
  | [(k, v)] => stringChars k ++ ':' :: v.chars
  | (k, v) :: m :: l => stringChars k ++ ':' :: v.chars ++ ',' :: membersChars (m :: l)

end

def text (v : Value) : String := String.ofList v.chars

mutual

/-- Sorts the members of every object by key. -/
def sortKeys : Value → Value
  | .array l => .array (sortItems l)
  | .object l => .object (sortMembers [] l)
  | v => v

def sortItems : List Value → List Value
  | [] => []
  | v :: l => v.sortKeys :: sortItems l

/-- Puts sorted members into a sorted list, one after the other. -/
def sortMembers (sorted : List (String × Value)) : List (String × Value) → List (String × Value)
  | [] => sorted
  | (k, v) :: l => sortMembers (insertEntry k v.sortKeys sorted) l

end

end Value

end EventStore.Json
