import EventStore.Json.Reader

/-! Payloads of events.

A payload type knows the tags that may be decoded, the tag of each of its values, and how a value is
written to and read from JSON. A value may refuse to be written. -/

namespace EventStore

class Payload (P : Type) where
  /-- The tags that may be decoded. -/
  eventTypes : List String
  eventType : P → String
  /-- The JSON value of a payload, or the reason why it has none. -/
  toValue : P → Except String Json.Value
  read : Json.Reader P

end EventStore
