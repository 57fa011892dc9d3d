import EventStore.Event.Payload

/-! Event bodies.

A codec turns a payload into a tag and a body, which are stored with the event, and back. The JSON
codec takes the payload's tag from its JSON form, which must be a string or an object with one
member; the body is the content, with the keys of objects in order. -/

namespace EventStore

open Json

/-- A payload as it is stored. -/
structure EncodedEvent where
  eventType : String
  body : String
deriving DecidableEq, Repr

inductive CodecError where
  | eventTypeNotFound (eventType : String)
  | malformed (eventType : String) (fault : Fault)
  | serialize (eventType : String) (reason : String)
deriving DecidableEq, Repr

/-- The name of a kind of error. -/
def CodecError.kind : CodecError → String
  | .eventTypeNotFound _ => "EventTypeNotFound"
  | .malformed .. => "Malformed"
  | .serialize .. => "Serialize"

def CodecError.message : CodecError → String
  | .eventTypeNotFound t => "Unknown event type: " ++ t
  | .malformed t fault => "Malformed " ++ t ++ " body: " ++ fault.message
  | .serialize t reason => "Cannot serialize " ++ t ++ ": " ++ reason

structure Codec (P : Type) where
  encode : P → Except CodecError EncodedEvent
  decode : (eventType body : String) → Except CodecError P

/-- Tag and content of the JSON form of a variant. -/
def Json.Value.splitTag? : Value → Option (String × Value)
  | .string tag => some (tag, .null)
  | .object [(tag, content)] => some (tag, content)
  | _ => none

namespace Codec

variable {P : Type} [Payload P]

/-- Encodes a payload by its JSON form. -/
def encodeJson (p : P) : Except CodecError EncodedEvent :=
  match Payload.toValue p with
  | .error reason => .error (.serialize (Payload.eventType p) reason)
  | .ok v =>
    match v.sortKeys.splitTag? with
    | none =>
      .error (.serialize (Payload.eventType p) "payload is not an externally tagged enum")
    | some (eventType, content) => .ok ⟨eventType, content.text⟩

/-- Reads a payload from a value that was read before. -/
def ofValue? (v : Value) : Option P := (Payload.read .ofValue (.ofValue v)).toOption

/-- Decodes a payload. A `null` body stands for a variant without content, and for one whose content
is `null` if there is no such variant. -/
def decodeJson (eventType body : String) : Except CodecError P :=
  if eventType ∉ Payload.eventTypes P then .error (.eventTypeNotFound eventType)
  else
    match Value.ofText body with
    | .error fault => .error (.malformed eventType fault)
    | .ok content =>
      let plain : Option P :=
        match content with
        | .null => ofValue? (.string eventType)
        | _ => none
      match plain <|> ofValue? (.object [(eventType, content)]) with
      | some p => .ok p
      | none => .error (.malformed eventType .wrongShape)

/-- The codec that stores payloads as JSON. -/
def json (P : Type) [Payload P] : Codec P := ⟨encodeJson, decodeJson⟩

end Codec

end EventStore
