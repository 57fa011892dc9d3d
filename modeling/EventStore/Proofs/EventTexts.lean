import EventStore.Proofs.InstantText
import EventStore.Proofs.Records

/-!
# Rows and events are read back from their text

Proved here:

* `EventRow.read_toValue`, `DomainEvent.read_toValue`: the record of a row or an event is read back
  whatever is missing in it, if its version is a word and its instant can be read (`Legible`);
* `AccountEvent.legible` and the like: so are the payloads of events (`Payload.Legible`);
* `rows_and_events_reread`: rows and events are read back from their text.
-/

namespace EventStore

open Json

/-! ## Values in the envelope -/

theorem Uuid.read_toValue (r : Reading) (u : Uuid) : Uuid.read r (.ofValue u.toValue) = .ok u :=
  Reader.string_filterMap u.ofText?_text r

theorem Instant.read_toValue {t : Instant} (h : t.Regular) (r : Reading) :
    Instant.read r (.ofValue t.toValue) = .ok t :=
  Reader.string_filterMap (ofText?_text h) r

/-- An identity is checked again when it is read, and passes unchanged. -/
theorem Identity.read_toValue {kind : IdentityKind} (r : Reading) (i : Identity kind) :
    Identity.read r (.ofValue i.toValue) = .ok i :=
  Reader.string_filterMap (f := fun s => (Identity.ofText s).toOption)
    (congrArg Except.toOption i.ofText_text) r

theorem DeleteAction.read_toValue (r : Reading) (a : DeleteAction) :
    DeleteAction.read r (.ofValue a.toValue) = .ok a := by
  cases a <;> rfl

theorem versionReader_of_le {n : Nat} (h : n ≤ maxVersion) (r : Reading) :
    versionReader r (.ofValue (.integer n)) = .ok n :=
  Reader.natural_of_le r h

theorem Json.Value.whole_ofOption {α : Type} {f : α → Value} {o : Option α}
    (h : ∀ a, o = some a → (f a).Whole) : (Value.ofOption f o).Whole := by
  cases o with
  | none => trivial
  | some a => exact h a rfl

/-! ## Rows -/

/-- A row whose version is a word and whose instant can be read. -/
structure EventRow.Legible (r : EventRow) : Prop where
  version : r.version ≤ maxVersion
  occurredOn : r.occurredOn.Regular

namespace EventRow

variable {r : EventRow}

theorem whole_toValue (h : r.Legible) : r.toValue.Whole := by
  have hactor : (Value.ofOption Value.string r.actorId).Whole :=
    Value.whole_ofOption fun _ _ => trivial
  have hversion : (Value.integer r.version).Whole := Accounts.AccountEvent.whole_nat h.version
  exact ⟨trivial, trivial, trivial, trivial, trivial, hactor, trivial, hversion, trivial, trivial⟩

theorem read_toValue (h : r.Legible) : EventRow.read .ofText (.ofValue r.toValue) = .ok r := by
  have hactor : Reader.string.optional ⟨127, true⟩ (.ofValue (.ofOption .string r.actorId)) =
      .ok r.actorId :=
    Reader.optional_ofOption fun _ _ => ⟨nofun, rfl⟩
  have hfields : fields.read .ofText (.ofValue r.toValue) =
      .ok (r.aggregateType, r.aggregateId, r.eventType, r.body, r.eventId, r.actorId, r.occurredOn,
        r.version, r.deleteAction, ()) :=
    Fields.read_of_writes (by decide) (by decide +kernel) <|
      .cons rfl <| .cons rfl <| .cons rfl <| .cons rfl <| .cons (Uuid.read_toValue _ _) <|
      .cons hactor <| .cons (Instant.read_toValue h.occurredOn _) <|
      .cons (versionReader_of_le h.version _) <| .cons rfl .nil
  exact Reader.map_of_ok hfields

end EventRow

/-! ## Events -/

/-- An event whose version is a word and whose instant can be read, if it has them. -/
structure DomainEvent.Legible {P : Type} (e : DomainEvent P) : Prop where
  version : ∀ n, e.version = some n → n ≤ maxVersion
  occurredOn : ∀ t, e.occurredOn = some t → t.Regular

/-- How a payload is read inside the record of its event. -/
def Reading.inEvent : Reading := ⟨127, true⟩

/-- A payload that is read back from its value, if it has one. -/
def Payload.Legible {P : Type} [Payload P] (p : P) : Prop :=
  ∀ v, Payload.toValue p = .ok v →
    v.Whole ∧ Payload.read Reading.inEvent (.ofValue v) = .ok p

namespace DomainEvent

variable {P : Type} [Payload P] {e : DomainEvent P} {v : Value}

theorem names_fields_nodup : (fields : Fields [Option Uuid, Option AggregateId, Option Nat,
    Option ActorId, Option Instant, DeleteAction, P]).names.Nodup :=
  (by decide : ["id", "aggregate_id", "version", "actor_id", "occurred_on", "delete_action",
    "payload"].Nodup)

/-- The record of an event is read back, around a payload that is. -/
theorem read_toValue (he : e.Legible) (hp : Payload.Legible e.payload) (hv : e.toValue = .ok v) :
    DomainEvent.read .ofText (.ofValue v) = .ok e := by
  obtain ⟨payload, hpayload, rfl⟩ := except_map_eq_ok_iff.mp hv
  obtain ⟨-, hread⟩ := hp payload hpayload
  have hstring : ∀ s, Value.string s ≠ .null := nofun
  refine Reader.map_of_ok (a := (e.id, e.aggregateId, e.version, e.actorId, e.occurredOn,
    e.deleteAction, e.payload, ())) ?_
  refine Fields.read_of_writes (by decide) names_fields_nodup (.cons ?id <| .cons ?aggregateId <|
    .cons ?version <| .cons ?actorId <| .cons ?occurredOn <| .cons ?deleteAction <|
    .cons hread .nil)
  case id => exact Reader.optional_ofOption fun u _ => ⟨hstring _, Uuid.read_toValue _ u⟩
  case aggregateId | actorId =>
    exact Reader.optional_ofOption fun i _ => ⟨hstring _, Identity.read_toValue _ i⟩
  case version =>
    cases hversion : e.version with
    | none => rfl
    | some n => exact Reader.map_of_ok (versionReader_of_le (he.version n hversion) Reading.inEvent)
  case occurredOn =>
    exact Reader.optional_ofOption fun t ht =>
      ⟨hstring _, Instant.read_toValue (he.occurredOn t ht) _⟩
  case deleteAction => exact DeleteAction.read_toValue Reading.inEvent e.deleteAction

theorem whole_toValue (he : e.Legible) (hp : Payload.Legible e.payload) (hv : e.toValue = .ok v) :
    v.Whole := by
  obtain ⟨payload, hpayload, rfl⟩ := except_map_eq_ok_iff.mp hv
  obtain ⟨hwhole, -⟩ := hp payload hpayload
  have hversion : (Value.ofOption (fun v => .integer v) e.version).Whole := by
    cases hversion : e.version with
    | none => trivial
    | some n => exact Accounts.AccountEvent.whole_nat (he.version n hversion)
  exact ⟨Value.whole_ofOption fun _ _ => trivial, Value.whole_ofOption fun _ _ => trivial, hversion,
    Value.whole_ofOption fun _ _ => trivial, Value.whole_ofOption fun _ _ => trivial, trivial,
    hwhole, trivial⟩

end DomainEvent

/-! ## Payloads -/

namespace Accounts

namespace AccountEvent

variable {e : AccountEvent} {r : Reading}

theorem read_opened (hr : 1 < r.depth) (owner : String) (balance : Int64) :
    openedFields.content r (.ofValue (.object
      [("owner", .string owner), ("balance", .integer balance.toInt)])) =
        .ok (owner, balance, ()) :=
  Fields.content_of_writes hr (by decide) (.cons rfl (.cons (Reader.int64_toInt _ balance) .nil))

theorem read_tagged (hr : 2 < r.depth) (tags : List String) {note : Option String} {v : Value}
    (hnote : Reader.string.optional { r with depth := r.depth - 1 } (.ofValue v) = .ok note) :
    taggedFields.content r (.ofValue (.object
      [("tags", .array (tags.map .string)), ("note", v)])) = .ok (tags, note, ()) := by
  have htags := Reader.list_strings (r := { r with depth := r.depth - 1 }) (Nat.lt_sub_of_add_lt hr)
    tags
  exact Fields.content_of_writes (by omega) (by decide) (.cons htags (.cons hnote .nil))

/-- The content of a variant is read back as it was written. -/
theorem ofContent_of_content {c : Value} (h : e.content = some c) (hr : 2 < r.depth) :
    ∃ variant, variants.lookup e.tag = some variant ∧
      variant.ofContent r (.ofValue c) = .ok e := by
  have hopen : 1 < r.depth := by omega
  cases e with
  | opened owner balance =>
    obtain rfl := Option.some.inj h
    exact ⟨_, rfl, Reader.map_of_ok (read_opened hopen owner balance)⟩
  | moneyDeposited amount =>
    obtain rfl := Option.some.inj h
    exact ⟨_, rfl, Reader.map_of_ok (content_deposit hopen amount)⟩
  | renamed owner =>
    obtain rfl := Option.some.inj h
    exact ⟨_, rfl, rfl⟩
  | nickname name =>
    cases name <;>
    · obtain rfl := Option.some.inj h
      exact ⟨_, rfl, rfl⟩
  | tagged tags note =>
    obtain rfl := Option.some.inj h
    cases note with
    | none => exact ⟨_, rfl, Reader.map_of_ok (read_tagged hr tags rfl)⟩
    | some note => exact ⟨_, rfl, Reader.map_of_ok (read_tagged hr tags rfl)⟩
  | moved received spent =>
    obtain rfl := Option.some.inj h
    exact ⟨_, rfl, Reader.map_of_ok (Reader.pair_int64 hopen received spent)⟩
  | annotated entries =>
    obtain rfl := Option.some.inj h
    exact ⟨_, rfl, Reader.map_of_ok (content_annotated hr entries)⟩
  | secret code =>
    obtain rfl := Option.some.inj h
    exact ⟨_, rfl, Reader.map_of_ok (content_secret hopen code)⟩
  | closed | reopened | audited | unencodable => cases h

theorem legible (e : AccountEvent) : Payload.Legible e := by
  intro v hv
  rcases toValue_eq_ok hv with ⟨hcontent, hne, rfl⟩ | ⟨c, hcontent, rfl⟩
  · exact ⟨trivial, read_tag hcontent hne _⟩
  · obtain ⟨variant, hlookup, hread⟩ := ofContent_of_content (r := ⟨126, true⟩) hcontent (by decide)
    exact ⟨⟨(whole_shallow_content hcontent).1, trivial⟩,
      Variant.read_member (by decide) hlookup hread⟩

end AccountEvent

theorem NoteEvent.legible (e : NoteEvent) : Payload.Legible e := by
  intro v hv
  obtain rfl := Except.ok.inj hv
  cases e with
  | written text =>
    have hread : writtenFields.content ⟨126, true⟩ (.ofValue (.object [("text", .string text)])) =
        .ok (text, ()) :=
      Fields.content_of_writes (by decide) (by decide) (.cons rfl .nil)
    exact ⟨⟨⟨trivial, trivial⟩, trivial⟩,
      Variant.read_member (by decide) rfl (Reader.map_of_ok hread)⟩
  | erased => exact ⟨trivial, rfl⟩

theorem Pair.legible (p : Pair) : Payload.Legible p := by
  intro v hv
  obtain rfl := Except.ok.inj hv
  have hread : Pair.fields.read Reading.inEvent (.ofValue (.object
      [("label", .string p.label), ("value", .integer p.value.toInt)])) =
        .ok (p.label, p.value, ()) :=
    Fields.read_of_writes (by decide) (by decide)
      (.cons rfl (.cons (Reader.int64_toInt _ p.value) .nil))
  exact ⟨⟨trivial, AccountEvent.whole_int64 p.value, trivial⟩, Reader.map_of_ok hread⟩

theorem Single.legible (p : Single) : Payload.Legible p := by
  intro v hv
  obtain rfl := Except.ok.inj hv
  have hread : Single.fields.read Reading.inEvent (.ofValue (.object
      [("only", .integer p.only.toInt)])) = .ok (p.only, ()) :=
    Fields.read_of_writes (by decide) (by decide) (.cons (Reader.int64_toInt _ p.only) .nil)
  exact ⟨⟨AccountEvent.whole_int64 p.only, trivial⟩, Reader.map_of_ok hread⟩

theorem Name.legible (p : Name) : Payload.Legible p := by
  intro v hv
  obtain rfl := Except.ok.inj hv
  exact ⟨trivial, rfl⟩

end Accounts

/-! ## Texts -/

/-- All events with payloads of a type that have a text are read back from it. -/
def EventsReread (P : Type) [Payload P] : Prop :=
  ∀ (e : DomainEvent P) v, e.Legible → e.toValue = .ok v →
    Reader.ofText DomainEvent.read v.text = .ok e

theorem DomainEvent.ofText_text {P : Type} [Payload P] {e : DomainEvent P} {v : Value}
    (he : e.Legible) (hp : Payload.Legible e.payload) (hv : e.toValue = .ok v) :
    Reader.ofText DomainEvent.read v.text = .ok e :=
  Reader.ofText_of_read (whole_toValue he hp hv) (read_toValue he hp hv)

open Accounts in
/-- Rows are read back from their text, and so are events whose payload is, with whatever is set in
their envelope; all payloads of accounts and notes are, and those that are no variants. -/
theorem rows_and_events_reread :
    (∀ r : EventRow, r.Legible → Reader.ofText EventRow.read r.toValue.text = .ok r) ∧
    (∀ (P : Type) [Payload P] (e : DomainEvent P) v, e.Legible → Payload.Legible e.payload →
      e.toValue = .ok v → Reader.ofText DomainEvent.read v.text = .ok e) ∧
    EventsReread AccountEvent ∧ EventsReread NoteEvent ∧ EventsReread Pair ∧
      EventsReread Single ∧ EventsReread Name :=
  ⟨fun _ h => Reader.ofText_of_read (EventRow.whole_toValue h) (EventRow.read_toValue h),
    fun _ _ _ _ he hp hv => DomainEvent.ofText_text he hp hv,
    fun e _ he hv => DomainEvent.ofText_text he e.payload.legible hv,
    fun e _ he hv => DomainEvent.ofText_text he e.payload.legible hv,
    fun e _ he hv => DomainEvent.ofText_text he e.payload.legible hv,
    fun e _ he hv => DomainEvent.ofText_text he e.payload.legible hv,
    fun e _ he hv => DomainEvent.ofText_text he e.payload.legible hv⟩

/-- A row with the largest version and with characters that must be escaped. -/
def quotedRow : EventRow where
  aggregateType := "Account"
  aggregateId := "\"ann\"\n"
  eventType := "Renamed"
  body := "\\"
  eventId := ⟨0xFF⟩
  actorId := none
  occurredOn := .epoch
  version := maxVersion
  deleteAction := ""

/-- An event with `null` for its content and a part of its envelope. -/
def unnamedEvent : DomainEvent Accounts.AccountEvent where
  id := some Uuid.zero
  version := some maxVersion
  payload := .nickname none

theorem quotedRow_and_unnamedEvent_reread :
    quotedRow.Legible ∧ Reader.ofText EventRow.read quotedRow.toValue.text = .ok quotedRow ∧
      unnamedEvent.Legible ∧ ∃ v, unnamedEvent.toValue = .ok v ∧
        Reader.ofText DomainEvent.read v.text = .ok unnamedEvent := by
  have hrow : quotedRow.Legible := ⟨Nat.le_refl _, Instant.regular_of_year (by decide) (by decide)⟩
  have hevent : unnamedEvent.Legible := by
    refine ⟨fun n hn => ?_, nofun⟩
    obtain rfl := Option.some.inj hn
    exact Nat.le_refl _
  obtain ⟨hrows, -, haccounts, -⟩ := rows_and_events_reread
  exact ⟨hrow, hrows quotedRow hrow, hevent, _, rfl, haccounts unnamedEvent _ hevent rfl⟩

end EventStore
