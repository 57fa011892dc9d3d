import EventStore.Proofs.Loading

/-!
# Payloads that survive the JSON codec

Proved here:

* `decodeJson_of_faithful`: a payload that is encoded under a listed tag is decoded from what it is
  encoded as, if its serialization is faithful (`Codec.Faithful`);
* `readsBack_of_listed`: so a repository with this codec reads it back.
-/

namespace EventStore

open Json

namespace Codec

variable {P : Type} [Payload P] {p : P}

/-- A payload that is encoded, and under a tag that may be decoded. -/
def Listed (p : P) : Prop :=
  ∃ encoded, encodeJson p = .ok encoded ∧ encoded.eventType ∈ Payload.eventTypes P

/-- What the codec relies on in the serialization of a payload. -/
structure Faithful (p : P) : Prop where
  /-- The payload is read back from its value. -/
  value : ∀ v, Payload.toValue p = .ok v → ofValue? v.sortKeys = some p
  /-- Its content is read back from its text. -/
  text : ∀ v tag content, Payload.toValue p = .ok v →
    v.sortKeys.splitTag? = some (tag, content) → Value.ofText content.text = .ok content
  /-- If its content is `null`, its tag alone stands for nothing else. -/
  tag : ∀ v tag q, Payload.toValue p = .ok v → v.sortKeys = .object [(tag, .null)] →
    ofValue? (.string tag) = some q → q = p

theorem splitTag?_eq_some {v content : Value} {tag : String}
    (h : v.splitTag? = some (tag, content)) :
    (v = .string tag ∧ content = .null) ∨ v = .object [(tag, content)] := by
  unfold Value.splitTag? at h
  split at h
  · cases h
    exact Or.inl ⟨rfl, rfl⟩
  · cases h
    exact Or.inr rfl
  · cases h

theorem encodeJson_eq_ok {encoded : EncodedEvent} (h : encodeJson p = .ok encoded) :
    ∃ v tag content, Payload.toValue p = .ok v ∧ v.sortKeys.splitTag? = some (tag, content) ∧
      encoded = ⟨tag, content.text⟩ := by
  unfold encodeJson at h
  split at h
  · cases h
  · rename_i v hv
    split at h
    · cases h
    · rename_i tag content hsplit
      exact ⟨v, tag, content, hv, hsplit, (Except.ok.inj h).symm⟩

theorem decodeJson_of_faithful (hp : Faithful p) {encoded : EncodedEvent}
    (henc : encodeJson p = .ok encoded) (hlisted : encoded.eventType ∈ Payload.eventTypes P) :
    decodeJson encoded.eventType encoded.body = .ok p := by
  obtain ⟨v, tag, content, hv, hsplit, rfl⟩ := encodeJson_eq_ok henc
  have hread := hp.value v hv
  have htext := hp.text v tag content hv hsplit
  unfold decodeJson
  simp only [hlisted, not_true_eq_false, if_false, htext]
  rcases splitTag?_eq_some hsplit with ⟨hstring, rfl⟩ | hobject
  · rw [hstring] at hread
    simp only [hread, Option.orElse_eq_orElse, Option.orElse_some]
  · rw [hobject] at hread
    cases content with
    | null =>
      cases hplain : (ofValue? (.string tag) : Option P) with
      | none => simp [hread]
      | some q =>
        obtain rfl := hp.tag v tag q hv hobject hplain
        simp
    | _ => simp [hread]

end Codec

namespace Mapping

variable {S P : Type} [Payload P] {m : Mapping S P} {p : P}

theorem encodes_of_listed (hjson : m.codec = Codec.json P) (h : Codec.Listed p) : m.Encodes p := by
  obtain ⟨encoded, henc, -⟩ := h
  exact ⟨encoded, by rw [hjson]; exact henc⟩

theorem readsBack_of_listed (hjson : m.codec = Codec.json P) (hp : Codec.Faithful p)
    (h : Codec.Listed p) : m.ReadsBack p := by
  obtain ⟨encoded, henc, hlisted⟩ := h
  intro encoded' henc'
  rw [hjson] at henc' ⊢
  obtain rfl : encoded = encoded' := Except.ok.inj (henc.symm.trans henc')
  exact Codec.decodeJson_of_faithful hp henc hlisted

end Mapping

end EventStore
