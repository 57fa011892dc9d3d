import EventStore.Entries
import EventStore.Event.Payload

/-! Events of accounts and of notes, and a few payloads that are no variants. -/

namespace EventStore.Accounts

open Json

inductive AccountEvent where
  | opened (owner : String) (balance : Int64)
  | moneyDeposited (amount : UInt32)
  | renamed (owner : String)
  | nickname (name : Option String)
  | tagged (tags : List String) (note : Option String)
  /-- Money moved in and out. -/
  | moved (received spent : Int64)
  | annotated (entries : Entries Int64)
  | closed
  | reopened
  | audited
  /-- Written, but not decoded. -/
  | secret (code : UInt8)
  /-- Refuses to be written. -/
  | unencodable
deriving DecidableEq

namespace AccountEvent

def tag : AccountEvent → String
  | .opened .. => "Opened"
  | .moneyDeposited .. => "MoneyDeposited"
  | .renamed .. => "Renamed"
  | .nickname .. => "Nickname"
  | .tagged .. => "Tagged"
  | .moved .. => "Moved"
  | .annotated .. => "Meta"
  | .closed => "Closed"
  | .reopened => "Reopened"
  | .audited => "Audited"
  | .secret .. => "Secret"
  | .unencodable => "Unencodable"

/-- The tags that are decoded. One of them belongs to no variant. -/
def tags : List String :=
  ["Opened", "MoneyDeposited", "Renamed", "Nickname", "Tagged", "Moved", "Meta", "Closed",
   "Reopened", "Audited", "Ghost"]

/-- The content of a variant; `none` for a variant that has none. -/
def content : AccountEvent → Option Value
  | .opened owner balance =>
    some (.object [("owner", .string owner), ("balance", .integer balance.toInt)])
  | .moneyDeposited amount => some (.object [("amount", .integer amount.toNat)])
  | .renamed owner => some (.string owner)
  | .nickname none => some .null
  | .nickname (some name) => some (.string name)
  | .tagged tags note =>
    some (.object [("tags", .array (tags.map .string)),
      ("note", match note with | none => .null | some s => .string s)])
  | .moved received spent => some (.array [.integer received.toInt, .integer spent.toInt])
  | .annotated entries =>
    some (.object [("entries", .object (entries.toList.map fun (k, z) => (k, .integer z.toInt)))])
  | .secret code => some (.object [("code", .integer code.toNat)])
  | .closed | .reopened | .audited | .unencodable => none

def toValue (e : AccountEvent) : Except String Value :=
  if e = .unencodable then .error "refused to encode"
  else
    match e.content with
    | none => .ok (.string e.tag)
    | some v => .ok (.object [(e.tag, v)])

def openedFields : Fields [String, Int64] :=
  .cons (.required "owner" .string) <| .cons (.required "balance" .int64) .nil

def depositFields : Fields [UInt32] :=
  .cons (.required "amount" ((Reader.natural 0xFFFFFFFF).map .ofNat)) .nil

def taggedFields : Fields [List String, Option String] :=
  .cons (.required "tags" Reader.string.list) <| .cons (.optional "note" .string) .nil

def annotatedFields : Fields [Entries Int64] :=
  .cons (.required "entries" (Reader.int64.mapping.map .ofList)) .nil

def secretFields : Fields [UInt8] :=
  .cons (.required "code" ((Reader.natural 0xFF).map .ofNat)) .nil

def variants : List (String × Variant AccountEvent) :=
  [("Opened", .content (openedFields.content.map fun (owner, balance, _) => .opened owner balance)),
   ("MoneyDeposited",
      .content (depositFields.content.map fun (amount, _) => .moneyDeposited amount)),
   ("Renamed", .content (Reader.string.map .renamed)),
   ("Nickname", .content (Reader.string.optional.map .nickname)),
   ("Tagged", .content (taggedFields.content.map fun (tags, note, _) => .tagged tags note)),
   ("Moved",
      .content ((Reader.pair .int64 .int64).map fun (received, spent) => .moved received spent)),
   ("Meta", .content (annotatedFields.content.map fun (entries, _) => .annotated entries)),
   ("Closed", .unit .closed),
   ("Reopened", .unit .reopened),
   ("Audited", .unit .audited),
   ("Secret", .content (secretFields.content.map fun (code, _) => .secret code)),
   ("Unencodable", .content (Reader.null.map fun _ => .unencodable))]

end AccountEvent

instance : Payload AccountEvent where
  eventTypes := AccountEvent.tags
  eventType := AccountEvent.tag
  toValue := AccountEvent.toValue
  read := Variant.read AccountEvent.variants

inductive NoteEvent where
  | written (text : String)
  | erased
deriving DecidableEq

namespace NoteEvent

def tag : NoteEvent → String
  | .written .. => "Written"
  | .erased => "Erased"

def toValue : NoteEvent → Value
  | .written text => .object [("Written", .object [("text", .string text)])]
  | .erased => .string "Erased"

def writtenFields : Fields [String] := .cons (.required "text" .string) .nil

def variants : List (String × Variant NoteEvent) :=
  [("Written", .content (writtenFields.content.map fun (text, _) => .written text)),
   ("Erased", .unit .erased)]

end NoteEvent

instance : Payload NoteEvent where
  eventTypes := ["Written", "Erased"]
  eventType := NoteEvent.tag
  toValue e := .ok e.toValue
  read := Variant.read NoteEvent.variants

/-- A record of two fields, which is no variant. -/
structure Pair where
  label : String
  value : Int64
deriving DecidableEq

def Pair.fields : Fields [String, Int64] :=
  .cons (.required "label" .string) <| .cons (.required "value" .int64) .nil

instance : Payload Pair where
  eventTypes := ["Pair"]
  eventType _ := "Pair"
  toValue p := .ok (.object [("label", .string p.label), ("value", .integer p.value.toInt)])
  read := Pair.fields.read.map fun (label, value, _) => ⟨label, value⟩

/-- A record of one field, whose name is taken for a tag. -/
structure Single where
  only : Int64
deriving DecidableEq

def Single.fields : Fields [Int64] := .cons (.required "only" .int64) .nil

instance : Payload Single where
  eventTypes := ["only"]
  eventType _ := "only"
  toValue p := .ok (.object [("only", .integer p.only.toInt)])
  read := Single.fields.read.map fun (only, _) => ⟨only⟩

/-- A text, which is taken for a tag. -/
structure Name where
  text : String
deriving DecidableEq

instance : Payload Name where
  eventTypes := ["Name"]
  eventType _ := "Name"
  toValue p := .ok (.string p.text)
  read := Reader.string.map .mk

end EventStore.Accounts
