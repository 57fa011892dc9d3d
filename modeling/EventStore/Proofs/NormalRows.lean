import EventStore.Proofs.PassedOverRows
import EventStore.Proofs.Reencoding

/-!
# Rows and events

A row may give an event in more than one way: its identities may have blanks around them, its delete
action may be missing, and its body is any text that the payload can be read from. The row that is
made of the event again says the same in the form in which the repository writes it.

Proved here, for every repository with the JSON codec:

* `normalizes_of_decodeJson`: what a body becomes if its payload is written again;
* `eventRow_of_decodes`: the row of an event that was decoded is the row it was decoded from in its
  normal form, which is decoded to the same event (`Decodes.normalized`);
* `rows_and_events_are_inverse`: so events are read back from their rows, and rows are normal forms
  of the rows that their events were read from.
-/

namespace EventStore

open Json

/-! ## The parts of a row -/

/-- A row with another body, in the form in which its other parts are written. -/
def EventRow.normalized (row : EventRow) (body : String) : EventRow :=
  { row with
    aggregateId := Text.trim row.aggregateId
    actorId := row.actorId.map Text.trim
    deleteAction := if row.deleteAction = "" then DeleteAction.none.tag else row.deleteAction
    body }

theorem DeleteAction.tag_of_ofTag? {s : String} {a : DeleteAction} (h : ofTag? s = some a) :
    a.tag = if s = "" then DeleteAction.none.tag else s := by
  unfold ofTag? at h
  split at h
  · rename_i hnone
    obtain rfl := Option.some.inj h
    rcases hnone with rfl | rfl <;> rfl
  · rename_i hother
    rw [if_neg fun hempty => hother (Or.inr hempty)]
    split at h
    · rename_i hdelete
      rw [hdelete, ← Option.some.inj h]
      rfl
    · split at h
      · rename_i hundelete
        rw [hundelete, ← Option.some.inj h]
        rfl
      · cases h

theorem text_of_rel {kind : IdentityKind} {text : Option String} {i : Option (Identity kind)}
    (h : Option.Rel (fun s i => Identity.ofText s = .ok i) text i) :
    i.map (·.text) = text.map Text.trim := by
  cases h with
  | none => rfl
  | some hid => rw [Option.map_some, Option.map_some, Mapping.text_of_ofText hid]

/-- Identities are made again of their trimmed texts. -/
theorem rel_trim {kind : IdentityKind} {text : Option String} {i : Option (Identity kind)}
    (h : Option.Rel (fun s i => Identity.ofText s = .ok i) text i) :
    Option.Rel (fun s i => Identity.ofText s = .ok i) (text.map Text.trim) i := by
  cases h with
  | none => exact .none
  | @some s i hid =>
    rw [Option.map_some, ← Mapping.text_of_ofText hid]
    exact .some i.ofText_text

/-! ## Bodies -/

namespace Codec

variable {P : Type} [Payload P] {p : P} {tag body : String}

/-- Payloads are serialized under the tag that they are read under. -/
def KeepsTags (P : Type) [Payload P] : Prop :=
  ∀ tag ∈ Payload.eventTypes P, ∀ p : P, ReadUnder tag p →
    ∃ v content, Payload.toValue p = .ok v ∧ v.sortKeys.splitTag? = some (tag, content)

/-- A body that is read as a payload, and the body that is written for that payload. -/
structure Normalizes (p : P) (tag body body' : String) : Prop where
  decode : decodeJson tag body = .ok p
  encode : encodeJson p = .ok ⟨tag, body'⟩
  /-- The new body is the compact text of its value. -/
  text : ∃ content, Value.ofText body' = .ok content ∧ body' = content.text
  /-- A body with the JSON value of one that was written becomes that one. -/
  written : ∀ (q : P) (b : String), encodeJson q = .ok ⟨tag, b⟩ →
    Value.ofText body = Value.ofText b → body' = b

/-- To decode a body is to read its value. -/
theorem decodeJson_congr {b : String} (h : Value.ofText body = Value.ofText b) :
    (decodeJson tag body : Except CodecError P) = decodeJson tag b := by
  simp only [decodeJson, h]

theorem normalizes_of_decodeJson (hfaithful : ∀ p : P, Listed p → Faithful p)
    (hkeeps : KeepsTags P) (h : decodeJson tag body = .ok p) :
    ∃ body', Normalizes p tag body body' ∧ decodeJson tag body' = .ok p := by
  obtain ⟨hlisted, hread⟩ := readUnder_of_decodeJson h
  obtain ⟨v, content, hv, hsplit⟩ := hkeeps tag hlisted p hread
  have hencode : encodeJson p = .ok ⟨tag, content.text⟩ := by
    simp only [encodeJson, hv, hsplit]
  have hp : Faithful p := hfaithful p ⟨_, hencode, hlisted⟩
  refine ⟨content.text, ⟨h, hencode, ⟨content, hp.text v tag content hv hsplit, rfl⟩, ?_⟩,
    decodeJson_of_faithful hp hencode hlisted⟩
  intro q b hq hsame
  have hqb : decodeJson tag b = .ok q :=
    decodeJson_of_faithful (hfaithful q ⟨_, hq, hlisted⟩) hq hlisted
  obtain rfl : p = q := Except.ok.inj (h.symm.trans ((decodeJson_congr hsame).trans hqb))
  exact congrArg EncodedEvent.body (Except.ok.inj (hencode.symm.trans hq))

end Codec

/-! ## Rows in normal form -/

namespace Mapping

variable {S P : Type} {m : Mapping S P} {row : EventRow} {e : DomainEvent P} {body : String}

theorem eventRow_of_decodes (h : m.Decodes row e) (htype : row.aggregateType = m.blueprint.name)
    (hencode : m.codec.encode e.payload = .ok ⟨row.eventType, body⟩) (owner : AggregateId)
    (stamp : Stamp) : m.eventRow owner stamp e = .ok (row.normalized body) := by
  obtain ⟨i, hid, howner⟩ := h.aggregateId
  simp only [eventRow, hencode, Except.map, h.id, howner, h.version, h.occurredOn,
    DomainEvent.versionNumber, Option.getD_some, text_of_ofText hid, text_of_rel h.actorId,
    DeleteAction.tag_of_ofTag? h.deleteAction, ← htype]
  rfl

theorem Decodes.normalized (h : m.Decodes row e)
    (hdecode : m.codec.decode row.eventType body = .ok e.payload) :
    m.Decodes (row.normalized body) e where
  id := h.id
  aggregateId := by
    obtain ⟨i, hid, howner⟩ := h.aggregateId
    refine ⟨i, ?_, howner⟩
    rw [EventRow.normalized, ← text_of_ofText hid]
    exact i.ofText_text
  version := h.version
  actorId := rel_trim h.actorId
  occurredOn := h.occurredOn
  deleteAction := by
    rw [EventRow.normalized, ← DeleteAction.tag_of_ofTag? h.deleteAction]
    exact DeleteAction.ofTag?_tag e.deleteAction
  payload := hdecode

variable [Payload P]

/-- An event whose payload is listed is read back from its row. And a row that an event is read from
has a normal form, in which the event is written and from which it is read again: blanks around the
identities are gone, a missing delete action is spelled out, the body is written anew, and the other
parts are the same. A row that was written is in this form already. -/
theorem rows_and_events_are_inverse (m : Mapping S P) (hjson : m.codec = Codec.json P)
    (hfaithful : ∀ p : P, Codec.Listed p → Codec.Faithful p) (hkeeps : Codec.KeepsTags P) :
    (∀ e : RecordedEvent P, Codec.Listed e.payload →
      ∃ row, m.toRow e = .ok row ∧ m.ofRow row = .ok e.event) ∧
    ∀ row e, row.aggregateType = m.blueprint.name → m.ofRow row = .ok e →
      ∃ body, (∀ owner stamp, m.eventRow owner stamp e = .ok (row.normalized body)) ∧
        m.ofRow (row.normalized body) = .ok e ∧
        Codec.Normalizes e.payload row.eventType row.body body ∧
        ∀ written, m.toRow written = .ok row → row.normalized body = row := by
  have hevents : ∀ e : RecordedEvent P, Codec.Listed e.payload →
      m.toRow e = .ok (m.rowOf e) ∧ m.ofRow (m.rowOf e) = .ok e.event := by
    intro e hlisted
    have hencodes := encodes_of_listed hjson hlisted
    have hreads := readsBack_of_listed hjson (hfaithful _ hlisted) hlisted
    exact ⟨toRow_of_encodes hencodes, ofRow_rowOf hencodes hreads⟩
  refine ⟨fun e hlisted => ⟨m.rowOf e, hevents e hlisted⟩, fun row e htype hrow => ?_⟩
  have hdecodes := ofRow_eq_ok_iff.mp hrow
  have hpayload : Codec.decodeJson row.eventType row.body = .ok e.payload := by
    have hdecode := hdecodes.payload
    rwa [hjson] at hdecode
  obtain ⟨body, hbody, hagain⟩ := Codec.normalizes_of_decodeJson hfaithful hkeeps hpayload
  have hwrite : ∀ owner stamp, m.eventRow owner stamp e = .ok (row.normalized body) :=
    eventRow_of_decodes hdecodes htype (by rw [hjson]; exact hbody.encode)
  refine ⟨body, hwrite, ?_, hbody, fun written hwritten => ?_⟩
  · exact ofRow_eq_ok_iff.mpr (hdecodes.normalized (by rw [hjson]; exact hagain))
  · -- the event that the row was written for is the one that is read from it
    have hlisted : Codec.Listed written.payload := by
      obtain ⟨encoded, hencode, rfl⟩ := except_map_eq_ok_iff.mp hwritten
      rw [hjson] at hencode
      exact ⟨encoded, hencode, (Codec.readUnder_of_decodeJson hpayload).1⟩
    obtain ⟨hto, hof⟩ := hevents written hlisted
    obtain rfl : m.rowOf written = row := Except.ok.inj (hto.symm.trans hwritten)
    obtain rfl : written.event = e := Except.ok.inj (hof.symm.trans hrow)
    exact Except.ok.inj ((hwrite _ _).symm.trans hto)

end Mapping

/-! ## The rows of an account -/

open Accounts

theorem Accounts.AccountEvent.keepsTags : Codec.KeepsTags AccountEvent := by
  intro tag htag e hread
  obtain rfl := Codec.tag_of_readUnder rfl tagged_variants hread
  obtain ⟨body, hencode⟩ := encodeJson_of_ne (e := e) fun he => by
    subst he
    exact absurd htag (by decide)
  obtain ⟨v, tag, content, hv, hsplit, hencoded⟩ := Codec.encodeJson_eq_ok hencode
  obtain rfl : e.tag = tag := congrArg EncodedEvent.eventType hencoded
  exact ⟨v, content, hv, hsplit⟩

namespace Mapping

/-- The event of `openingRow`. -/
def opening : RecordedEvent AccountEvent :=
  ⟨⟨1⟩, Life.annsId, 1, .system, .epoch, .none, .opened "Ann" 5⟩

/-- A row of this event with blanks, without a delete action, and with its members in the order of
the declaration behind one that nothing reads. -/
def looseRow : EventRow where
  aggregateType := "Account"
  aggregateId := " ann\n"
  eventType := "Opened"
  body := "\x7b \"by\": null, \"owner\": \"Ann\", \"balance\": 5 \x7d"
  eventId := ⟨1⟩
  actorId := some "SYSTEM "
  occurredOn := .epoch
  version := 1
  deleteAction := ""

/-- The row that is written of this event has none of this. -/
theorem loose_row_is_rewritten :
    annsLedger.ofRow looseRow = .ok opening.event ∧ annsLedger.toRow opening = .ok openingRow ∧
      looseRow.normalized openingRow.body = openingRow ∧
      annsLedger.ofRow openingRow = .ok opening.event := by
  obtain ⟨hevents, hrows⟩ := rows_and_events_are_inverse annsLedger rfl
    (fun p _ => AccountEvent.faithful p) AccountEvent.keepsTags
  have hread : annsLedger.ofRow looseRow = .ok opening.event := by decide +kernel
  have hlisted : Codec.Listed opening.payload :=
    AccountEvent.listed_of_mem_tags (by decide) (by decide)
  obtain ⟨row, hto, hof⟩ := hevents opening hlisted
  obtain rfl : openingRow = row :=
    Except.ok.inj ((toRow_of_encodes (encodes_of_toRow hto)).symm.trans hto)
  obtain ⟨body, hwrite, -⟩ := hrows looseRow opening.event rfl hread
  have hnormal : looseRow.normalized body = openingRow :=
    Except.ok.inj ((hwrite opening.aggregateId ⟨opening.id, opening.occurredOn⟩).symm.trans hto)
  obtain rfl : body = openingRow.body := congrArg EventRow.body hnormal
  exact ⟨hread, hto, hnormal, hof⟩

end Mapping

end EventStore
