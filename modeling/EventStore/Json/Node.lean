import EventStore.Json.Token
import EventStore.Json.Value

/-! A JSON text, read as far as its grammar holds.

Reading never fails. A place where the grammar is broken becomes a `broken` node, the arrays and
objects around it end there, and nothing after it is kept. So a reader that walks through the tree
in the order of the text meets a broken place where it stands, after all that was written before
it. -/

namespace EventStore.Json

inductive Node where
  | broken
  | null
  | boolean (b : Bool)
  /-- A number, or `none` for a numeral out of range. -/
  | number (n : Option Number)
  /-- A string, or `none` if its escapes spell no characters. -/
  | string (s : Option String)
  | array (items : List Node)
  /-- Members by key and value. A key is a string or a broken place. -/
  | object (members : List (Node × Node))

/-- An array or object that is still open, with its parts so far, the last one first. -/
inductive Frame where
  | array (items : List Node)
  | object (members : List (Node × Node))
  /-- An object in the middle of a member with the given key. -/
  | member (members : List (Node × Node)) (key : Node)

/-- What may come next. -/
inductive Expected where
  | value
  /-- A value or the end of the array. -/
  | item
  | key
  /-- A key or the end of the object. -/
  | member
  | colon (key : Node)
  /-- A comma or the end of the array or object, and at the outside the end of the text. -/
  | separator

/-- How far a text has been read. -/
inductive Progress where
  | reading (expected : Expected) (open_ : List Frame)
  /-- The whole value has been read. -/
  | complete (v : Node)
  /-- The value ended, broken or followed by something else. -/
  | stopped (v : Node)

namespace Progress

/-- Puts a value where one is due. -/
def put (v : Node) : List Frame → Progress
  | .array items :: l => .reading .separator (.array (v :: items) :: l)
  | .member members key :: l => .reading .separator (.object ((key, v) :: members) :: l)
  | .object members :: l => .reading .separator (.object ((v, .broken) :: members) :: l)
  | [] => .complete v

/-- Ends every open array and object after a broken value. -/
def close (v : Node) : List Frame → Node
  | [] => v
  | .array items :: l => close (.array (v :: items).reverse) l
  | .member members key :: l => close (.object ((key, v) :: members).reverse) l
  | .object members :: l => close (.object ((v, .broken) :: members).reverse) l

/-- The grammar is broken here; `v` stands in the broken place. -/
def stop (v : Node) (l : List Frame) : Progress := .stopped (close v l)

/-- Reads a token where a value is due. -/
def value (t : Token) (l : List Frame) : Progress :=
  match t with
  | .openArray => .reading .item (.array [] :: l)
  | .openObject => .reading .member (.object [] :: l)
  | .null => put .null l
  | .boolean b => put (.boolean b) l
  | .number n => put (.number n) l
  | .string s => put (.string s) l
  | .closeArray | .closeObject | .comma | .colon | .unreadable => stop .broken l

def step : Progress → Token → Progress
  | .complete v, _ => .stopped v
  | .stopped v, _ => .stopped v
  | .reading .value l, t => value t l
  | .reading .item l, t =>
    match t, l with
    | .closeArray, .array items :: l => put (.array items.reverse) l
    | t, l => value t l
  | .reading .key l, t =>
    match t with
    | .string s => .reading (.colon (.string s)) l
    | _ => stop .broken l
  | .reading .member l, t =>
    match t, l with
    | .closeObject, .object members :: l => put (.object members.reverse) l
    | .string s, l => .reading (.colon (.string s)) l
    | _, l => stop .broken l
  | .reading (.colon key) l, t =>
    match t, l with
    | .colon, .object members :: l => .reading .value (.member members key :: l)
    | _, l => stop key l
  | .reading .separator l, t =>
    match t, l with
    | .comma, .array items :: l => .reading .value (.array items :: l)
    | .closeArray, .array items :: l => put (.array items.reverse) l
    | .comma, .object members :: l => .reading .key (.object members :: l)
    | .closeObject, .object members :: l => put (.object members.reverse) l
    | _, l => stop .broken l

/-- The node read, and whether the text ended right after a whole value. -/
def result : Progress → Node × Bool
  | .complete v => (v, true)
  | .stopped v => (v, false)
  | .reading (.colon key) l => (close key l, false)
  | .reading _ l => (close .broken l, false)

end Progress

namespace Node

/-- The tree of a text, and whether nothing follows a whole value. -/
def ofTokens (l : List Token) : Node × Bool :=
  (l.foldl Progress.step (.reading .value [])).result

def ofText (s : String) : Node × Bool := ofTokens (Token.tokens s.toList)

mutual

/-- Whether no place in the tree is broken. -/
def intact : Node → Bool
  | .broken => false
  | .array l => intactItems l
  | .object l => intactMembers l
  | _ => true

def intactItems : List Node → Bool
  | [] => true
  | v :: l => v.intact && intactItems l

def intactMembers : List (Node × Node) → Bool
  | [] => true
  | (k, v) :: l => k.intact && v.intact && intactMembers l

end

mutual

/-- The tree of a value. -/
def ofValue : Value → Node
  | .null => .null
  | .boolean b => .boolean b
  | .number n => .number (some n)
  | .string s => .string (some s)
  | .array l => .array (ofItems l)
  | .object l => .object (ofMembers l)

def ofItems : List Value → List Node
  | [] => []
  | v :: l => ofValue v :: ofItems l

def ofMembers : List (String × Value) → List (Node × Node)
  | [] => []
  | (k, v) :: l => (.string (some k), ofValue v) :: ofMembers l

end

end Node

end EventStore.Json
