import EventStore.Json.Node

/-! Reading typed values from JSON trees.

A reader walks a tree in the order of its text and stops at the first fault: a place that is no
JSON, or JSON of the wrong shape. Arrays and objects may be nested only to a certain depth; what a
reader skips is not counted, and is checked for its grammar alone.

A record is an object with a member for each field, others being skipped, or an array of its fields
in order. A variant is a string with its tag, if it has no content, or an object with one member.
-/

namespace EventStore.Json

inductive Fault where
  | notJson
  | wrongShape
deriving DecidableEq, Repr

def Fault.message : Fault → String
  | .notJson => "<json>"
  | .wrongShape => "<data>"

/-- How a tree is read. -/
structure Reading where
  /-- One more than the number of arrays and objects that may still be opened. -/
  depth : Nat
  /-- Whether the content of a variant may be a record in array form. -/
  positional : Bool

/-- How text is read: at most 127 arrays and objects inside one another. -/
def Reading.ofText : Reading := ⟨128, true⟩

/-- How a variant is read from a value that was itself read before. -/
def Reading.ofValue : Reading := ⟨128, false⟩

/-- Opens an array or object. -/
def Reading.enter (r : Reading) : Except Fault Reading :=
  if r.depth ≤ 1 then .error .notJson else .ok { r with depth := r.depth - 1 }

abbrev Reader (α : Type) := Reading → Node → Except Fault α

/-- The fault of a node that is not what is wanted. A scalar is read to its end first. -/
def Node.fault : Node → Fault
  | .broken | .number none | .string none => .notJson
  | _ => .wrongShape

namespace Node

/-- Passes over a node that nobody wants. -/
def skip (v : Node) : Except Fault Unit := if v.intact then .ok () else .error .notJson

/-- The key of a member. -/
def key : Node → Except Fault String
  | .string (some s) => .ok s
  | _ => .error .notJson

mutual

/-- Reads any value. Of members with one key the last one counts, and members are sorted by key. -/
def toValue : Node → (depth : Nat) → Except Fault Value
  | .broken, _ => .error .notJson
  | .null, _ => .ok .null
  | .boolean b, _ => .ok (.boolean b)
  | .number (some n), _ => .ok (.number n)
  | .number none, _ => .error .notJson
  | .string (some s), _ => .ok (.string s)
  | .string none, _ => .error .notJson
  | .array l, depth =>
    if depth ≤ 1 then .error .notJson else (toItems l (depth - 1)).map .array
  | .object l, depth =>
    if depth ≤ 1 then .error .notJson else (toMembers [] l (depth - 1)).map .object

def toItems : List Node → (depth : Nat) → Except Fault (List Value)
  | [], _ => .ok []
  | v :: l, depth => do
    let v ← v.toValue depth
    let l ← toItems l depth
    return v :: l

def toMembers (sorted : List (String × Value)) :
    List (Node × Node) → (depth : Nat) → Except Fault (List (String × Value))
  | [], _ => .ok sorted
  | (k, v) :: l, depth => do
    let k ← k.key
    let v ← v.toValue depth
    toMembers (insertEntry k v sorted) l depth

end

end Node

namespace Reader

variable {α β : Type}

def map (f : α → β) (read : Reader α) : Reader β := fun r v => (read r v).map f

/-- Refuses the values for which a conversion fails. -/
def filterMap (f : α → Option β) (read : Reader α) : Reader β := fun r v => do
  match f (← read r v) with
  | some b => .ok b
  | none => .error .wrongShape

def null : Reader Unit
  | _, .null => .ok ()
  | _, v => .error v.fault

def boolean : Reader Bool
  | _, .boolean b => .ok b
  | _, v => .error v.fault

def string : Reader String
  | _, .string (some s) => .ok s
  | _, v => .error v.fault

def number : Reader Number
  | _, .number (some n) => .ok n
  | _, v => .error v.fault

/-- An integer between two bounds. -/
def integer (low high : Int) : Reader Int :=
  number.filterMap fun
    | .integer z => if low ≤ z ∧ z ≤ high then some z else none
    | .float _ => none

def natural (high : Nat) : Reader Nat := (integer 0 high).map Int.toNat

def int64 : Reader Int64 := (integer (-0x8000000000000000) 0x7FFFFFFFFFFFFFFF).map Int64.ofInt

def float : Reader Binary64 :=
  number.map fun
    | .integer z => .ofInt z
    | .float x => x

/-- A value, or `null` for none. -/
def optional (read : Reader α) : Reader (Option α)
  | _, .null => .ok none
  | r, v => (read r v).map some

def list (read : Reader α) : Reader (List α)
  | r, .array l => do
    let r ← r.enter
    l.mapM (read r)
  | _, v => .error v.fault

/-- An object with a value for each key. -/
def mapping (read : Reader α) : Reader (List (String × α))
  | r, .object l => do
    let r ← r.enter
    l.mapM fun (k, v) => return (← k.key, ← read r v)
  | _, v => .error v.fault

/-- An array of two. -/
def pair (first : Reader α) (second : Reader β) : Reader (α × β)
  | r, .array l => do
    let r ← r.enter
    match l with
    | [] => .error .wrongShape
    | a :: l =>
      let a ← first r a
      match l with
      | [] => .error .wrongShape
      | b :: l =>
        let b ← second r b
        if l.isEmpty then .ok (a, b) else .error .notJson
  | _, v => .error v.fault

end Reader

/-- A field of a record. -/
structure Field (α : Type) where
  name : String
  read : Reader α
  /-- The value when an object has no such member. -/
  absent : Option α := none
  /-- The value when an array ends before it. -/
  omitted : Option α := none

/-- A field that must be there. -/
def Field.required {α : Type} (name : String) (read : Reader α) : Field α := { name, read }

/-- A field that an object may lack or give as `null`. -/
def Field.optional {α : Type} (name : String) (read : Reader α) : Field (Option α) :=
  { name, read := read.optional, absent := some none }

/-- A field with a default value. -/
def Field.default {α : Type} (name : String) (read : Reader α) (value : α) : Field α :=
  { name, read, absent := some value, omitted := some value }

/-- The fields of a record in their order. -/
inductive Fields : List Type → Type 1 where
  | nil : Fields []
  | cons {α : Type} {αs : List Type} (field : Field α) (rest : Fields αs) : Fields (α :: αs)

/-- The values of the fields of a record. -/
def Tuple : List Type → Type
  | [] => Unit
  | α :: αs => α × Tuple αs

/-- The values read so far. -/
def Draft : List Type → Type
  | [] => Unit
  | α :: αs => Option α × Draft αs

def Draft.empty : (αs : List Type) → Draft αs
  | [] => ()
  | _ :: αs => (none, Draft.empty αs)

namespace Fields

/-- Reads a member into a draft; `none` when no field has that name. A field may be given once. -/
def put? {αs : List Type} (fields : Fields αs) (r : Reading) (name : String) (v : Node)
    (draft : Draft αs) : Option (Except Fault (Draft αs)) :=
  match fields, draft with
  | .nil, _ => none
  | .cons field rest, (a, draft) =>
    if name = field.name then
      some (if a.isSome then .error .wrongShape else (field.read r v).map fun a => (some a, draft))
    else (rest.put? r name v draft).map (·.map (a, ·))

/-- Reads the members of an object, skipping those that are no fields. -/
def members {αs : List Type} (fields : Fields αs) (r : Reading) :
    Draft αs → List (Node × Node) → Except Fault (Draft αs)
  | draft, [] => .ok draft
  | draft, (k, v) :: l => do
    let name ← k.key
    let draft ← match fields.put? r name v draft with
      | some result => result
      | none => v.skip.map fun _ => draft
    fields.members r draft l

/-- Fills in the fields that an object lacks. -/
def complete {αs : List Type} (fields : Fields αs) (draft : Draft αs) : Except Fault (Tuple αs) :=
  match fields, draft with
  | .nil, _ => .ok ()
  | .cons field rest, (a, draft) =>
    match a.or field.absent with
    | none => .error .wrongShape
    | some a => (rest.complete draft).map (a, ·)

/-- Reads the items of an array. -/
def items {αs : List Type} (fields : Fields αs) (r : Reading) (l : List Node) :
    Except Fault (Tuple αs) :=
  match fields, l with
  | .nil, [] => .ok ()
  | .nil, _ :: _ => .error .notJson
  | .cons field rest, v :: l => do
    let a ← field.read r v
    let t ← rest.items r l
    return (a, t)
  | .cons field rest, [] =>
    match field.omitted with
    | none => .error .wrongShape
    | some a => (rest.items r []).map (a, ·)

/-- Reads a record. -/
def read {αs : List Type} (fields : Fields αs) : Reader (Tuple αs)
  | r, .object l => do
    let r ← r.enter
    let draft ← fields.members r (Draft.empty αs) l
    fields.complete draft
  | r, .array l => do
    let r ← r.enter
    fields.items r l
  | _, v => .error v.fault

/-- Reads the record that is the content of a variant. -/
def content {αs : List Type} (fields : Fields αs) : Reader (Tuple αs)
  | r, .array l => if r.positional then fields.read r (.array l) else .error .wrongShape
  | r, v => fields.read r v

end Fields

/-- A way to write a value of a variant type. -/
inductive Variant (α : Type) where
  /-- A tag without content. -/
  | unit (a : α)
  /-- A tag with content. -/
  | content (read : Reader α)

namespace Variant

variable {α : Type}

/-- Reads the member of an object that stands for a variant. -/
def ofContent (r : Reading) (v : Node) : Variant α → Except Fault α
  | .unit a => (Reader.null r v).map fun _ => a
  | .content read => read r v

/-- Reads a value of a variant type, given by its tags. -/
def read (variants : List (String × Variant α)) : Reader α
  | r, .object l => do
    let r ← r.enter
    match l with
    | [] => .error .notJson
    | (k, v) :: l =>
      let tag ← k.key
      match variants.lookup tag with
      | none => .error .wrongShape
      | some variant =>
        let a ← variant.ofContent r v
        if l.isEmpty then .ok a else .error .notJson
  | _, .string (some tag) =>
    match variants.lookup tag with
    | some (.unit a) => .ok a
    | _ => .error .wrongShape
  | _, _ => .error .notJson

end Variant

/-- Reads a text that holds one value. What follows the value is looked at last. -/
def Reader.ofText {α : Type} (read : Reader α) (s : String) : Except Fault α :=
  let (v, whole) := Node.ofText s
  match read .ofText v with
  | .error e => .error e
  | .ok a => if whole then .ok a else .error .notJson

/-- Reads any value from a text. -/
def Value.ofText (s : String) : Except Fault Value :=
  Reader.ofText (fun r v => v.toValue r.depth) s

end EventStore.Json
