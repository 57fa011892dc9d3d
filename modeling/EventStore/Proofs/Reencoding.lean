import EventStore.Proofs.AccountPayloads

/-!
# Payloads that are encoded again

Proved here:

* `roundTrips_of_faithful`: a type whose payloads are serialized faithfully, and are encoded under
  the tag that they were decoded under, goes through the JSON codec and back in both directions
  (`Codec.RoundTrips`);
* `Variant.tag_of_read`: what is read as a variant has the tag of that variant;
* `payloads_roundTrip`: so do all payloads of accounts and notes, and those that are no variants.
-/

namespace EventStore

open Json

namespace Json.Variant

variable {α : Type} {tag : α → String} {variants : List (String × Variant α)} {r : Reading} {a : α}

/-- Each variant is given by the tag of its values. -/
def Tagged (tag : α → String) (variants : List (String × Variant α)) : Prop :=
  ∀ p ∈ variants, ∀ r v a, p.2.ofContent r v = .ok a → tag a = p.1

theorem tag_of_read (htagged : Tagged tag variants) {key : String} {v : Node}
    (h : read variants r (.object [(.string (some key), v)]) = .ok a) : tag a = key := by
  rw [read] at h
  obtain ⟨r', -, h⟩ := except_bind_eq_ok_iff.mp h
  obtain ⟨tag, hkey, h⟩ := except_bind_eq_ok_iff.mp h
  obtain rfl : key = tag := Except.ok.inj hkey
  split at h
  · cases h
  · rename_i variant hlookup
    obtain ⟨b, hcontent, h⟩ := except_bind_eq_ok_iff.mp h
    obtain rfl : b = a := Except.ok.inj h
    exact htagged _ (mem_of_lookup_eq_some hlookup) r' v b hcontent

theorem tag_of_read_string (htagged : Tagged tag variants) {key : String}
    (h : read variants r (.string (some key)) = .ok a) : tag a = key := by
  rw [read] at h
  split at h
  · rename_i b hlookup
    obtain rfl : b = a := Except.ok.inj h
    exact htagged _ (mem_of_lookup_eq_some hlookup) r .null b rfl
  · cases h

end Json.Variant

namespace Codec

/-! ## Both directions -/

section Generic

variable {P : Type} [Payload P]

/-- The JSON codec reads back what it wrote, and writes again what it read, under the same tag and
with the same meaning. -/
structure RoundTrips (P : Type) [Payload P] : Prop where
  decode_encode : ∀ (p : P) encoded, encodeJson p = .ok encoded →
    encoded.eventType ∈ Payload.eventTypes P →
      decodeJson encoded.eventType encoded.body = .ok p
  encode_decode : ∀ tag body (p : P), decodeJson tag body = .ok p →
    ∃ body', encodeJson p = .ok ⟨tag, body'⟩ ∧ decodeJson tag body' = .ok p

/-- A payload that stands for a tag, or for a tag with content. -/
def ReadUnder (tag : String) (p : P) : Prop :=
  ofValue? (.string tag) = some p ∨ ∃ content, ofValue? (.object [(tag, content)]) = some p

theorem readUnder_of_decodeJson {tag body : String} {p : P} (h : decodeJson tag body = .ok p) :
    tag ∈ Payload.eventTypes P ∧ ReadUnder tag p := by
  unfold decodeJson at h
  split at h
  · cases h
  · rename_i hlisted
    refine ⟨not_not.mp hlisted, ?_⟩
    split at h
    · cases h
    · rename_i content hcontent
      dsimp only at h
      split at h
      · rename_i q hq
        obtain rfl : q = p := Except.ok.inj h
        rw [Option.orElse_eq_orElse, Option.orElse_eq_or] at hq
        rcases Option.or_eq_some_iff.mp hq with hplain | ⟨-, hobject⟩
        · split at hplain
          · exact Or.inl hplain
          · cases hplain
        · exact Or.inr ⟨content, hobject⟩
      · cases h

theorem roundTrips_of_faithful (hfaithful : ∀ p : P, Faithful p)
    (hsame : ∀ tag ∈ Payload.eventTypes P, ∀ p : P, ReadUnder tag p →
      ∃ body, encodeJson p = .ok ⟨tag, body⟩) : RoundTrips P where
  decode_encode := fun p _ henc hlisted => decodeJson_of_faithful (hfaithful p) henc hlisted
  encode_decode := by
    intro tag body p h
    obtain ⟨hlisted, hread⟩ := readUnder_of_decodeJson h
    obtain ⟨body', henc⟩ := hsame tag hlisted p hread
    exact ⟨body', henc, decodeJson_of_faithful (hfaithful p) henc hlisted⟩

theorem ofValue?_eq_some {v : Value} {p : P} (h : ofValue? v = some p) :
    Payload.read .ofValue (.ofValue v) = .ok p := by
  unfold ofValue? at h
  cases hread : (Payload.read .ofValue (.ofValue v) : Except Fault P) with
  | error e => simp [hread, Except.toOption] at h
  | ok q => simpa [hread, Except.toOption] using h

/-- A payload that is a variant is read under its own tag alone. -/
theorem tag_of_readUnder {tagOf : P → String} {variants : List (String × Variant P)}
    (hvariants : (Payload.read : Reader P) = Variant.read variants)
    (htagged : Variant.Tagged tagOf variants) {tag : String} {p : P} (h : ReadUnder tag p) :
    tagOf p = tag := by
  rcases h with h | ⟨content, h⟩
  · have hread := ofValue?_eq_some h
    rw [hvariants] at hread
    exact Variant.tag_of_read_string htagged hread
  · have hread := ofValue?_eq_some h
    rw [hvariants] at hread
    exact Variant.tag_of_read htagged hread

end Generic

end Codec

namespace Accounts

open Codec

/-! ## Events of accounts -/

namespace AccountEvent

theorem tagged_variants : Variant.Tagged tag variants := by
  intro p hp r v e h
  simp only [variants, List.mem_cons, List.not_mem_nil, or_false] at hp
  rcases hp with rfl | rfl | rfl | rfl | rfl | rfl | rfl | rfl | rfl | rfl | rfl | rfl
  all_goals
    obtain ⟨x, -, rfl⟩ := except_map_eq_ok_iff.mp h
    rfl

theorem roundTrips : RoundTrips AccountEvent := by
  refine roundTrips_of_faithful faithful fun tag htag e h => ?_
  obtain rfl := tag_of_readUnder rfl tagged_variants h
  refine encodeJson_of_ne fun he => ?_
  subst he
  exact absurd htag (by decide)

end AccountEvent

/-! ## Events of notes -/

namespace NoteEvent

theorem tagged_variants : Variant.Tagged tag variants := by
  intro p hp r v e h
  simp only [variants, List.mem_cons, List.not_mem_nil, or_false] at hp
  rcases hp with rfl | rfl
  all_goals
    obtain ⟨x, -, rfl⟩ := except_map_eq_ok_iff.mp h
    rfl

theorem faithful (e : NoteEvent) : Faithful e where
  value := by
    intro v hv
    obtain rfl := Except.ok.inj hv
    cases e with
    | written text =>
      have hcontent : writtenFields.content ⟨127, false⟩
          (.object [(.string (some "text"), .string (some text))]) = .ok (text, ()) :=
        Fields.content_one (.required "text" .string) (by decide) rfl
      have hvariant : Variant.read variants .ofValue (.object [(.string (some "Written"),
          .object [(.string (some "text"), .string (some text))])]) = .ok (.written text) :=
        Variant.read_member (by decide) rfl (Reader.map_of_ok hcontent)
      exact congrArg Except.toOption hvariant
    | erased => rfl
  text := by
    intro v tag content hv hsplit
    obtain rfl := Except.ok.inj hv
    cases e with
    | written text =>
      obtain ⟨rfl, rfl⟩ := Prod.mk.inj (Option.some.inj hsplit)
      exact Value.ofText_text_sortKeys (v := .object [("text", .string text)])
        ⟨trivial, trivial⟩ ⟨by decide, trivial, trivial⟩
    | erased =>
      obtain ⟨rfl, rfl⟩ := Prod.mk.inj (Option.some.inj hsplit)
      exact Value.ofText_text trivial trivial
  tag := by
    intro v tag q hv hobject hq
    obtain rfl := Except.ok.inj hv
    cases e <;> cases hobject

theorem encodeJson_eq (e : NoteEvent) : ∃ body, encodeJson e = .ok ⟨e.tag, body⟩ := by
  cases e <;> exact ⟨_, rfl⟩

theorem roundTrips : RoundTrips NoteEvent := by
  refine roundTrips_of_faithful faithful fun tag _ e h => ?_
  obtain rfl := tag_of_readUnder rfl tagged_variants h
  exact encodeJson_eq e

end NoteEvent

/-! ## Payloads that are no variants -/

/-- A record of two fields is not read from an object of one member. -/
theorem Pair.not_readUnder (tag : String) (htag : tag ∈ Payload.eventTypes Pair) (p : Pair) :
    ¬ReadUnder tag p := by
  obtain rfl : tag = "Pair" := List.mem_singleton.mp htag
  rintro (hread | ⟨content, hread⟩)
  · cases hread
  · obtain ⟨t, hfields, -⟩ := except_map_eq_ok_iff.mp (ofValue?_eq_some hread)
    cases hskip : (Node.ofValue content).skip <;>
      simp [Pair.fields, Fields.read, Reading.enter, Reading.ofValue, Fields.members,
        Node.ofValue, Node.ofMembers, Node.key, bind, Except.bind, Fields.put?, Field.required,
        hskip, Except.map, Fields.complete, Draft.empty] at hfields

/-- Such a record has no tag either, so it is never encoded. -/
theorem Pair.roundTrips : RoundTrips Pair where
  decode_encode := by
    intro p encoded henc
    obtain ⟨v, tag, content, hv, hsplit, -⟩ := encodeJson_eq_ok henc
    obtain rfl := Except.ok.inj hv
    cases hsplit
  encode_decode := by
    intro tag body p h
    obtain ⟨hlisted, hread⟩ := readUnder_of_decodeJson h
    exact absurd hread (Pair.not_readUnder tag hlisted p)

theorem Single.faithful (p : Single) : Faithful p where
  value := by
    intro v hv
    obtain rfl := Except.ok.inj hv
    have honly : Single.fields.read .ofValue
        (.object [(.string (some "only"), .number (some (.integer p.only.toInt)))]) =
          .ok (p.only, ()) :=
      Fields.read_one (.required "only" .int64) (by decide) (Reader.int64_toInt _ p.only)
    have hread : (Payload.read : Reader Single) .ofValue
        (.object [(.string (some "only"), .number (some (.integer p.only.toInt)))]) = .ok p :=
      Reader.map_of_ok honly
    exact congrArg Except.toOption hread
  text := by
    intro v tag content hv hsplit
    obtain rfl := Except.ok.inj hv
    obtain ⟨rfl, rfl⟩ := Prod.mk.inj (Option.some.inj hsplit)
    exact Value.ofText_text (AccountEvent.whole_int64 p.only) trivial
  tag := by
    intro v tag q hv hobject
    obtain rfl := Except.ok.inj hv
    cases hobject

theorem Single.roundTrips : RoundTrips Single := by
  refine roundTrips_of_faithful Single.faithful fun tag hlisted p _ => ?_
  obtain rfl : tag = "only" := List.mem_singleton.mp hlisted
  exact ⟨_, rfl⟩

theorem Name.faithful (p : Name) : Faithful p where
  value := by
    intro v hv
    obtain rfl := Except.ok.inj hv
    rfl
  text := by
    intro v tag content hv hsplit
    obtain rfl := Except.ok.inj hv
    obtain ⟨rfl, rfl⟩ := Prod.mk.inj (Option.some.inj hsplit)
    exact Value.ofText_text trivial trivial
  tag := by
    intro v tag q hv hobject
    obtain rfl := Except.ok.inj hv
    cases hobject

theorem Name.roundTrips : RoundTrips Name := by
  refine roundTrips_of_faithful Name.faithful fun tag _ p h => ?_
  rcases h with h | ⟨content, h⟩
  · obtain rfl : ⟨tag⟩ = p := Option.some.inj h
    exact ⟨_, rfl⟩
  · cases h

/-- All payloads go through the JSON codec and back in both directions. -/
theorem payloads_roundTrip :
    RoundTrips AccountEvent ∧ RoundTrips NoteEvent ∧ RoundTrips Pair ∧ RoundTrips Single ∧
      RoundTrips Name :=
  ⟨AccountEvent.roundTrips, NoteEvent.roundTrips, Pair.roundTrips, Single.roundTrips,
    Name.roundTrips⟩

end Accounts

end EventStore
