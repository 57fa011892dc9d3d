import EventStore.Accounts.Event
import EventStore.Proofs.Codecs
import EventStore.Proofs.TextValues

/-!
# The payloads of accounts survive the codec

Proved here:

* `sortMembers_of_sorted`, `ofList_toList`: entries in order of their keys keep that order;
* `AccountEvent.faithful`: the serialization of every account event is faithful;
* `AccountEvent.listed_of_mem_tags`: all that can be encoded are listed, but for those under tags
  that are not decoded.
-/

namespace EventStore

/-! ## Entries in order -/

theorem foldl_insert_toList {α : Type} {l : List (String × α)} {m : Entries α}
    (h : SortedKeys (m.toList ++ l)) :
    (l.foldl (fun m p => m.insert p.1 p.2) m).toList = m.toList ++ l := by
  induction l generalizing m with
  | nil => exact (List.append_nil _).symm
  | cons p l ih =>
    have hlast : (m.insert p.1 p.2).toList = m.toList ++ [p] :=
      Json.insertEntry_last fun q hq =>
        (List.pairwise_append.mp h).2.2 q hq p List.mem_cons_self
    rw [List.foldl_cons, ih (by rwa [hlast, List.append_assoc]), hlast, List.append_assoc]
    rfl

theorem Entries.eq_of_toList {α : Type} {m m' : Entries α} (h : m.toList = m'.toList) : m = m' := by
  cases m
  cases m'
  cases h
  rfl

theorem Entries.ofList_toList {α : Type} (m : Entries α) : Entries.ofList m.toList = m :=
  Entries.eq_of_toList (foldl_insert_toList m.sorted)

namespace Json

namespace Value

/-- Members in order stay where they are. -/
theorem sortMembers_of_sorted {sofar l : List (String × Value)}
    (h : ((sofar ++ l).map (·.1)).Pairwise (· < ·)) :
    sortMembers sofar l = sofar ++ l.map fun (k, v) => (k, v.sortKeys) := by
  induction l generalizing sofar with
  | nil => rw [sortMembers, List.map_nil, List.append_nil]
  | cons p l ih =>
    obtain ⟨k, v⟩ := p
    have hlast : insertEntry k v.sortKeys sofar = sofar ++ [(k, v.sortKeys)] := by
      refine insertEntry_last fun q hq => ?_
      rw [List.map_append, List.pairwise_append] at h
      exact h.2.2 q.1 (List.mem_map_of_mem hq) k (by simp)
    rw [sortMembers, hlast, ih (by simpa using h), List.append_assoc]
    rfl

theorem sortItems_map {α : Type} {f : α → Value} {l : List α}
    (h : ∀ a ∈ l, (f a).sortKeys = f a) : sortItems (l.map f) = l.map f := by
  induction l with
  | nil => rfl
  | cons a l ih =>
    rw [List.map_cons, sortItems, h a List.mem_cons_self,
      ih fun b hb => h b (List.mem_cons_of_mem _ hb)]

end Value

/-! ## Readers -/

namespace Reader

theorem map_of_ok {α β : Type} {f : α → β} {read : Reader α} {r : Reading} {v : Node} {a : α}
    (h : read r v = .ok a) : read.map f r v = .ok (f a) :=
  congrArg (Except.map f) h

theorem int64_toInt (r : Reading) (z : Int64) :
    Reader.int64 r (.number (some (.integer z.toInt))) = .ok z := by
  have hlow := z.le_toInt
  have hhigh := z.toInt_lt
  have hrange : -0x8000000000000000 ≤ z.toInt ∧ z.toInt ≤ 0x7FFFFFFFFFFFFFFF := by omega
  simp only [int64, integer, map, filterMap, number, bind, Except.bind, hrange, and_self, if_true,
    Except.map, Int64.ofInt_toInt]

theorem natural_of_le (r : Reading) {n high : Nat} (h : n ≤ high) :
    Reader.natural high r (.number (some (.integer n))) = .ok n := by
  have hrange : (0 : Int) ≤ n ∧ (n : Int) ≤ high := by omega
  simp only [natural, integer, map, filterMap, number, bind, Except.bind, hrange, and_self,
    if_true, Except.map, Int.toNat_natCast]

theorem mapM_ofItems {α : Type} (read : Reader α) (r : Reading) {f : α → Value} {l : List α}
    (h : ∀ a ∈ l, read r (.ofValue (f a)) = .ok a) :
    (Node.ofItems (l.map f)).mapM (read r) = .ok l := by
  induction l with
  | nil => rfl
  | cons a l ih =>
    rw [List.map_cons, Node.ofItems, List.mapM_cons, h a List.mem_cons_self,
      ih fun b hb => h b (List.mem_cons_of_mem _ hb)]
    rfl

theorem mapM_ofMembers {α : Type} (read : Reader α) (r : Reading) {f : α → Value}
    {l : List (String × α)} (h : ∀ p ∈ l, read r (.ofValue (f p.2)) = .ok p.2) :
    ((Node.ofMembers (l.map fun (k, a) => (k, f a))).mapM fun (k, v) =>
      return (← k.key, ← read r v)) = .ok l := by
  induction l with
  | nil => rfl
  | cons p l ih =>
    have hp := h p List.mem_cons_self
    rw [List.map_cons, Node.ofMembers, List.mapM_cons,
      ih fun q hq => h q (List.mem_cons_of_mem _ hq)]
    simp only [Node.key, bind, Except.bind, hp]
    rfl

end Reader

theorem Reading.enter_of_lt {r : Reading} (h : 1 < r.depth) :
    r.enter = .ok { r with depth := r.depth - 1 } := by
  rw [Reading.enter, if_neg (Nat.not_le.mpr h)]

namespace Reader

theorem uint32_toNat (r : Reading) (n : UInt32) :
    ((natural 0xFFFFFFFF).map UInt32.ofNat) r (.number (some (.integer n.toNat))) = .ok n := by
  have hnat := natural_of_le r (Nat.le_of_lt_succ n.toNat_lt)
  exact (map_of_ok hnat).trans (congrArg _ UInt32.ofNat_toNat)

theorem uint8_toNat (r : Reading) (n : UInt8) :
    ((natural 0xFF).map UInt8.ofNat) r (.number (some (.integer n.toNat))) = .ok n := by
  have hnat := natural_of_le r (Nat.le_of_lt_succ n.toNat_lt)
  exact (map_of_ok hnat).trans (congrArg _ UInt8.ofNat_toNat)

theorem list_strings {r : Reading} (hr : 1 < r.depth) (l : List String) :
    Reader.string.list r (.ofValue (.array (l.map .string))) = .ok l := by
  rw [Node.ofValue, list, Reading.enter_of_lt hr]
  exact mapM_ofItems Reader.string _ fun _ _ => rfl

theorem pair_int64 {r : Reading} (hr : 1 < r.depth) (y z : Int64) :
    Reader.pair .int64 .int64 r (.ofValue (.array [.integer y.toInt, .integer z.toInt])) =
      .ok (y, z) := by
  rw [Node.ofValue, Reader.pair, Reading.enter_of_lt hr]
  simp only [Node.ofItems, Value.integer, Node.ofValue, bind, Except.bind, int64_toInt]
  rfl

/-- Integers by their keys. -/
theorem entries_int64 {r : Reading} (hr : 1 < r.depth) (m : Entries Int64) :
    (Reader.int64.mapping.map Entries.ofList) r
      (.ofValue (.object (m.toList.map fun (k, z) => (k, .integer z.toInt)))) = .ok m := by
  have hlist : Reader.int64.mapping r
      (.ofValue (.object (m.toList.map fun (k, z) => (k, .integer z.toInt)))) = .ok m.toList := by
    rw [Node.ofValue, mapping, Reading.enter_of_lt hr]
    exact mapM_ofMembers Reader.int64 _ (f := fun z => .integer z.toInt)
      fun p _ => int64_toInt _ p.2
  exact (map_of_ok hlist).trans (congrArg _ m.ofList_toList)

end Reader

namespace Fields

variable {α β : Type} {αs : List Type}

theorem put?_head (field : Field α) (rest : Fields αs) {r : Reading} {v : Node} {a : α}
    (h : field.read r v = .ok a) (draft : Draft αs) :
    (Fields.cons field rest).put? r field.name v (none, draft) = some (.ok (some a, draft)) := by
  rw [put?, if_pos rfl, h]
  rfl

theorem put?_tail {field : Field α} {name : String} (hne : name ≠ field.name) (rest : Fields αs)
    (r : Reading) (v : Node) (a : Option α) (draft : Draft αs) :
    (Fields.cons field rest).put? r name v (a, draft) =
      (rest.put? r name v draft).map (·.map (a, ·)) := by
  rw [put?, if_neg hne]
  rfl

/-- The record of one field. -/
theorem read_one (field : Field α) {r : Reading} {v : Node} {a : α} (hr : 1 < r.depth)
    (h : field.read { r with depth := r.depth - 1 } v = .ok a) :
    (Fields.cons field .nil).read r (.object [(.string (some field.name), v)]) = .ok (a, ()) := by
  have hput : (Fields.cons field .nil).put? { r with depth := r.depth - 1 } field.name v
      (Draft.empty [α]) = some (.ok (some a, ())) :=
    put?_head field .nil h ()
  simp only [read, Reading.enter_of_lt hr, members, Node.key, bind, Except.bind, hput]
  rfl

theorem content_one (field : Field α) {r : Reading} {v : Node} {a : α} (hr : 1 < r.depth)
    (h : field.read { r with depth := r.depth - 1 } v = .ok a) :
    (Fields.cons field .nil).content r (.object [(.string (some field.name), v)]) =
      .ok (a, ()) :=
  read_one field hr h

/-- The record of two fields, the second one first. -/
theorem content_two (first : Field α) (second : Field β) (hne : second.name ≠ first.name)
    {r : Reading} {u v : Node} {a : α} {b : β} (hr : 1 < r.depth)
    (hu : first.read { r with depth := r.depth - 1 } u = .ok a)
    (hv : second.read { r with depth := r.depth - 1 } v = .ok b) :
    (Fields.cons first (.cons second .nil)).content r
      (.object [(.string (some second.name), v), (.string (some first.name), u)]) =
        .ok (a, b, ()) := by
  have hsecond : (Fields.cons first (.cons second .nil)).put? { r with depth := r.depth - 1 }
      second.name v (Draft.empty [α, β]) = some (.ok (none, some b, ())) :=
    (put?_tail hne _ _ v none (Draft.empty [β])).trans
      (congrArg (Option.map _) (put?_head second .nil hv ()))
  have hfirst : (Fields.cons first (.cons second .nil)).put? { r with depth := r.depth - 1 }
      first.name u (none, some b, ()) = some (.ok (some a, some b, ())) :=
    put?_head first _ hu _
  simp only [content, read, Reading.enter_of_lt hr, members, Node.key, bind, Except.bind, hsecond,
    hfirst]
  rfl

end Fields

/-- A variant is read from an object with the content under its tag. -/
theorem Variant.read_member {α : Type} {variants : List (String × Variant α)} {key : String}
    {variant : Variant α} {r : Reading} {v : Node} {a : α} (hr : 1 < r.depth)
    (hlookup : variants.lookup key = some variant)
    (h : variant.ofContent { r with depth := r.depth - 1 } v = .ok a) :
    Variant.read variants r (.object [(.string (some key), v)]) = .ok a := by
  rw [Variant.read, Reading.enter_of_lt hr]
  simp only [bind, Except.bind, Node.key, hlookup]
  exact congrArg (Except.bind · fun a => .ok a) h

end Json

namespace Accounts

open Json Codec

namespace AccountEvent

/-- How the content of a variant is read from a value. -/
def reading : Reading := ⟨127, false⟩

theorem one_lt_depth_reading : 1 < reading.depth := by decide

theorem content_opened (owner : String) (balance : Int64) :
    openedFields.content reading (.ofValue (Value.object
      [("owner", .string owner), ("balance", .integer balance.toInt)]).sortKeys) =
        .ok (owner, balance, ()) :=
  Fields.content_two (.required "owner" .string) (.required "balance" .int64) (by decide)
    (u := .string (some owner)) one_lt_depth_reading rfl (Reader.int64_toInt _ balance)

theorem content_deposit {r : Reading} (hr : 1 < r.depth) (amount : UInt32) :
    depositFields.content r (.ofValue (.object [("amount", .integer amount.toNat)])) =
      .ok (amount, ()) :=
  Fields.content_one (.required "amount" ((Reader.natural 0xFFFFFFFF).map UInt32.ofNat)) hr
    (Reader.uint32_toNat _ amount)

theorem content_tagged (tags : List String) {note : Option String} {v : Value}
    (hv : v.sortKeys = v)
    (hnote : (Field.optional "note" .string).read ⟨126, false⟩ (.ofValue v) = .ok note) :
    taggedFields.content reading (.ofValue (Value.object
      [("tags", .array (tags.map .string)), ("note", v)]).sortKeys) = .ok (tags, note, ()) := by
  have htags : (Field.required "tags" Reader.string.list).read ⟨126, false⟩
      (.array (Node.ofItems (tags.map .string))) = .ok tags :=
    Reader.list_strings (by decide) tags
  have hitems : Value.sortItems (tags.map .string) = tags.map .string :=
    Value.sortItems_map fun _ _ => rfl
  have hsort : (Value.object [("tags", .array (tags.map .string)), ("note", v)]).sortKeys =
      .object [("note", v.sortKeys), ("tags", .array (Value.sortItems (tags.map .string)))] := rfl
  rw [hsort, hv, hitems]
  exact Fields.content_two _ _ (by decide) one_lt_depth_reading htags hnote

theorem content_annotated {r : Reading} (hr : 2 < r.depth) (entries : Entries Int64) :
    annotatedFields.content r (.ofValue (.object
      [("entries", .object (entries.toList.map fun (k, z) => (k, .integer z.toInt)))])) =
        .ok (entries, ()) := by
  have hentries := Reader.entries_int64 (r := { r with depth := r.depth - 1 })
    (Nat.lt_sub_of_add_lt hr) entries
  exact Fields.content_one (.required "entries" (Reader.int64.mapping.map Entries.ofList))
    (by omega) hentries

/-- Entries stand in the order of their keys already. -/
theorem sortKeys_annotated (entries : Entries Int64) :
    (Value.object [("entries", .object
      (entries.toList.map fun (k, z) => (k, .integer z.toInt)))]).sortKeys =
        .object [("entries", .object
          (entries.toList.map fun (k, z) => (k, .integer z.toInt)))] := by
  have hmembers : Value.sortMembers [] (entries.toList.map fun (k, z) => (k, .integer z.toInt)) =
      entries.toList.map fun (k, z) => (k, .integer z.toInt) := by
    rw [Value.sortMembers_of_sorted]
    · simp [Value.integer, Value.sortKeys]
    · simpa [List.pairwise_map] using (show entries.toList.Pairwise _ from entries.sorted)
  show Value.object [("entries", .object (Value.sortMembers [] _))] = _
  rw [hmembers]

theorem content_secret {r : Reading} (hr : 1 < r.depth) (code : UInt8) :
    secretFields.content r (.ofValue (.object [("code", .integer code.toNat)])) =
      .ok (code, ()) :=
  Fields.content_one (.required "code" ((Reader.natural 0xFF).map UInt8.ofNat)) hr
    (Reader.uint8_toNat _ code)

/-- The content of a variant is read back. -/
theorem ofContent_content {e : AccountEvent} {c : Value} (h : e.content = some c) :
    ∃ variant, variants.lookup e.tag = some variant ∧
      variant.ofContent reading (.ofValue c.sortKeys) = .ok e := by
  cases e with
  | opened owner balance =>
    obtain rfl := Option.some.inj h
    exact ⟨_, rfl, congrArg (Except.map _) (content_opened owner balance)⟩
  | moneyDeposited amount =>
    obtain rfl := Option.some.inj h
    exact ⟨_, rfl, congrArg (Except.map _) (content_deposit one_lt_depth_reading amount)⟩
  | renamed owner =>
    obtain rfl := Option.some.inj h
    exact ⟨_, rfl, rfl⟩
  | nickname name =>
    cases name with
    | none =>
      obtain rfl := Option.some.inj h
      exact ⟨_, rfl, rfl⟩
    | some name =>
      obtain rfl := Option.some.inj h
      exact ⟨_, rfl, rfl⟩
  | tagged tags note =>
    cases note with
    | none =>
      obtain rfl := Option.some.inj h
      exact ⟨_, rfl, congrArg (Except.map _) (content_tagged tags rfl rfl)⟩
    | some s =>
      obtain rfl := Option.some.inj h
      exact ⟨_, rfl, congrArg (Except.map _) (content_tagged tags rfl rfl)⟩
  | moved received spent =>
    obtain rfl := Option.some.inj h
    have hpair := Reader.pair_int64 one_lt_depth_reading received spent
    exact ⟨_, rfl, congrArg (Except.map _) hpair⟩
  | annotated entries =>
    obtain rfl := Option.some.inj h
    rw [sortKeys_annotated]
    exact ⟨_, rfl, congrArg (Except.map _) (content_annotated (by decide) entries)⟩
  | secret code =>
    obtain rfl := Option.some.inj h
    exact ⟨_, rfl, congrArg (Except.map _) (content_secret one_lt_depth_reading code)⟩
  | closed | reopened | audited | unencodable => cases h

theorem whole_int64 (z : Int64) : (Value.integer z.toInt).Whole := by
  have hlow := z.le_toInt
  have hhigh := z.toInt_lt
  have hword : maxWord = 0xFFFFFFFFFFFFFFFF := rfl
  exact ⟨hlow, by omega⟩

theorem whole_nat {n : Nat} (h : n ≤ maxWord) : (Value.integer n).Whole :=
  ⟨by omega, by omega⟩

/-- The content of a variant has whole numbers only, and is flat. -/
theorem whole_shallow_content {e : AccountEvent} {c : Value} (h : e.content = some c) :
    c.Whole ∧ c.Shallow 128 := by
  cases e with
  | opened owner balance =>
    obtain rfl := Option.some.inj h
    exact ⟨⟨trivial, whole_int64 balance, trivial⟩, by decide, trivial, trivial, trivial⟩
  | moneyDeposited amount =>
    obtain rfl := Option.some.inj h
    have hamount : amount.toNat ≤ maxWord :=
      Nat.le_of_lt (Nat.lt_trans amount.toNat_lt (by decide))
    exact ⟨⟨whole_nat hamount, trivial⟩, by decide, trivial, trivial⟩
  | renamed owner =>
    obtain rfl := Option.some.inj h
    exact ⟨trivial, trivial⟩
  | nickname name =>
    cases name with
    | none =>
      obtain rfl := Option.some.inj h
      exact ⟨trivial, trivial⟩
    | some name =>
      obtain rfl := Option.some.inj h
      exact ⟨trivial, trivial⟩
  | tagged tags note =>
    have hwhole : Value.WholeItems (tags.map .string) := Value.wholeItems_iff.mpr fun v hv => by
      obtain ⟨s, -, rfl⟩ := List.mem_map.mp hv
      trivial
    have hshallow : Value.ShallowItems (tags.map .string) 126 :=
      Value.shallowItems_iff.mpr fun v hv => by
        obtain ⟨s, -, rfl⟩ := List.mem_map.mp hv
        trivial
    cases note with
    | none =>
      obtain rfl := Option.some.inj h
      exact ⟨⟨hwhole, trivial, trivial⟩, by decide, ⟨by decide, hshallow⟩, trivial, trivial⟩
    | some s =>
      obtain rfl := Option.some.inj h
      exact ⟨⟨hwhole, trivial, trivial⟩, by decide, ⟨by decide, hshallow⟩, trivial, trivial⟩
  | moved received spent =>
    obtain rfl := Option.some.inj h
    exact ⟨⟨whole_int64 received, whole_int64 spent, trivial⟩, by decide, trivial, trivial, trivial⟩
  | annotated entries =>
    obtain rfl := Option.some.inj h
    refine ⟨⟨Value.wholeMembers_iff.mpr ?_, trivial⟩, by decide,
      ⟨by decide, Value.shallowMembers_iff.mpr ?_⟩, trivial⟩
    · intro p hp
      obtain ⟨q, -, rfl⟩ := List.mem_map.mp hp
      exact whole_int64 q.2
    · intro p hp
      obtain ⟨q, -, rfl⟩ := List.mem_map.mp hp
      trivial
  | secret code =>
    obtain rfl := Option.some.inj h
    have hcode : code.toNat ≤ maxWord := Nat.le_of_lt (Nat.lt_trans code.toNat_lt (by decide))
    exact ⟨⟨whole_nat hcode, trivial⟩, by decide, trivial, trivial⟩
  | closed | reopened | audited | unencodable => cases h

theorem toValue_of_none {e : AccountEvent} (hne : e ≠ .unencodable) (h : e.content = none) :
    toValue e = .ok (.string e.tag) := by
  rw [toValue, if_neg hne, h]

theorem toValue_of_some {e : AccountEvent} {c : Value} (hne : e ≠ .unencodable)
    (h : e.content = some c) : toValue e = .ok (.object [(e.tag, c)]) := by
  rw [toValue, if_neg hne, h]

theorem toValue_eq_ok {e : AccountEvent} {v : Value} (h : toValue e = .ok v) :
    (e.content = none ∧ e ≠ .unencodable ∧ v = .string e.tag) ∨
      ∃ c, e.content = some c ∧ v = .object [(e.tag, c)] := by
  by_cases hne : e = .unencodable
  · subst hne
    cases h
  · cases hcontent : e.content with
    | none =>
      rw [toValue_of_none hne hcontent] at h
      exact Or.inl ⟨rfl, hne, (Except.ok.inj h).symm⟩
    | some c =>
      rw [toValue_of_some hne hcontent] at h
      exact Or.inr ⟨c, rfl, (Except.ok.inj h).symm⟩

theorem sortKeys_member (tag : String) (c : Value) :
    (Value.object [(tag, c)]).sortKeys = .object [(tag, c.sortKeys)] := rfl

/-- A tag without content is read back. -/
theorem read_tag {e : AccountEvent} (hcontent : e.content = none) (hne : e ≠ .unencodable)
    (r : Reading) : Variant.read variants r (.string (some e.tag)) = .ok e := by
  cases e with
  | closed | reopened | audited => rfl
  | unencodable => exact absurd rfl hne
  | nickname name => cases name <;> cases hcontent
  | _ => cases hcontent

theorem ofValue?_object {e : AccountEvent} {c : Value} (hcontent : e.content = some c) :
    ofValue? (.object [(e.tag, c.sortKeys)]) = some e := by
  obtain ⟨variant, hlookup, hread⟩ := ofContent_content hcontent
  have hvariant : Variant.read variants .ofValue
      (.object [(.string (some e.tag), .ofValue c.sortKeys)]) = .ok e :=
    Variant.read_member (by decide) hlookup hread
  exact congrArg Except.toOption hvariant

/-- Only one tag has the content `null`, and it does not stand alone. -/
theorem ofValue?_of_null {e : AccountEvent} {c : Value} (hcontent : e.content = some c)
    (hnull : c.sortKeys = .null) : (ofValue? (.string e.tag) : Option AccountEvent) = none := by
  cases e with
  | nickname name => rfl
  | closed | reopened | audited | unencodable => cases hcontent
  | _ =>
    obtain rfl := Option.some.inj hcontent
    cases hnull

/-- Every account event but the one that refuses is encoded under its own tag. -/
theorem encodeJson_of_ne {e : AccountEvent} (hne : e ≠ .unencodable) :
    ∃ body, encodeJson e = .ok ⟨e.tag, body⟩ := by
  cases hcontent : e.content with
  | none =>
    have hvalue : Payload.toValue e = .ok (.string e.tag) := toValue_of_none hne hcontent
    exact ⟨Value.null.text, by rw [encodeJson, hvalue]; rfl⟩
  | some c =>
    have hvalue : Payload.toValue e = .ok (.object [(e.tag, c)]) := toValue_of_some hne hcontent
    exact ⟨c.sortKeys.text, by rw [encodeJson, hvalue]; rfl⟩

theorem listed_of_mem_tags {e : AccountEvent} (hne : e ≠ .unencodable) (htag : e.tag ∈ tags) :
    Listed e := by
  obtain ⟨body, henc⟩ := encodeJson_of_ne hne
  exact ⟨_, henc, htag⟩

/-- The serialization of every account event is faithful. -/
theorem faithful (e : AccountEvent) : Faithful e where
  value := by
    intro v hv
    rcases toValue_eq_ok hv with ⟨hcontent, hne, rfl⟩ | ⟨c, hcontent, rfl⟩
    · exact congrArg Except.toOption (read_tag hcontent hne .ofValue)
    · exact ofValue?_object hcontent
  text := by
    intro v tag content hv hsplit
    rcases toValue_eq_ok hv with ⟨-, -, rfl⟩ | ⟨c, hcontent, rfl⟩
    · cases hsplit
      exact Value.ofText_text trivial trivial
    · cases hsplit
      obtain ⟨hwhole, hshallow⟩ := whole_shallow_content hcontent
      exact Value.ofText_text_sortKeys hwhole hshallow
  tag := by
    intro v tag q hv hobject hq
    rcases toValue_eq_ok hv with ⟨-, -, rfl⟩ | ⟨c, hcontent, rfl⟩
    · cases hobject
    · rw [sortKeys_member] at hobject
      obtain ⟨rfl, hnull⟩ : e.tag = tag ∧ c.sortKeys = .null := by simpa using hobject
      rw [ofValue?_of_null hcontent hnull] at hq
      cases hq

end AccountEvent

end Accounts

end EventStore
