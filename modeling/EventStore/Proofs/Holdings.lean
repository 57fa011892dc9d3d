import EventStore.Proofs.Streams
import EventStore.Proofs.Writers

/-!
# What a writer's aggregate knows of the log

An aggregate in the hands of a writer has accepted events, of which the first ones may be stored
(`Held.saved`) and the others are not (`Held.unsaved`). `Held.Sound` says how it stands to the rows
of the log: its stream begins with what it replayed and then what it saved, and its versions go on
from there.

Proved here: everything that can be done to an aggregate keeps it sound, if the ids of new events
are fresh and their versions are not given.
-/

namespace EventStore

/-- A change that gives no id and no version, and gets an id that has not been made before. -/
def Change.Plain {P : Type} (made : List Uuid) : Change P → Prop
  | .apply stamp e _ _ => stamp.id ∉ made ∧ e.id = none ∧ e.version = none
  | .raise stamp _ => stamp.id ∉ made
  | .clear => False

theorem Change.Plain.proposal {S P : Type} {made : List Uuid} {c : Change P} (hc : c.Plain made)
    {a : Aggregate S P} {e : RecordedEvent P} (he : c.proposal? a = some e) :
    e.id ∉ made ∧ c.made = [e.id] ∧ e.version = a.version + 1 := by
  cases c with
  | apply stamp f actor time =>
    obtain ⟨hid, hnone, hversion⟩ := hc
    obtain rfl := Option.some.inj he
    simp [Aggregate.complete, hnone, hversion, hid, Change.made]
  | raise stamp payload =>
    obtain rfl := Option.some.inj he
    exact ⟨hc, rfl, rfl⟩
  | clear => exact hc.elim

variable {S P : Type} {m : Mapping S P} {h : Held S P} {rows l : List EventRow} {made : List Uuid}

namespace Held

/-- The accepted events that are stored. -/
def saved (h : Held S P) (rows : List EventRow) : List (RecordedEvent P) :=
  h.life.accepted.filter fun e => e.id ∈ rows.map (·.eventId)

/-- The accepted events that are not stored. -/
def unsaved (h : Held S P) (rows : List EventRow) : List (RecordedEvent P) :=
  h.life.accepted.filter fun e => e.id ∉ rows.map (·.eventId)

def stream (m : Mapping S P) (h : Held S P) : StreamKey := m.streamOf h.life.aggregate.id

/-- The ids of the accepted events. -/
def ids (h : Held S P) : List Uuid := h.life.accepted.map (·.id)

structure Sound (m : Mapping S P) (h : Held S P) (rows : List EventRow) (made : List Uuid) :
    Prop where
  version : h.life.aggregate.version = h.replayed.length + h.life.accepted.length
  versions : h.life.accepted.map (·.version) =
    List.range' (h.replayed.length + 1) h.life.accepted.length
  owner : ∀ e ∈ h.life.accepted, e.aggregateId = h.life.aggregate.id
  ids : h.ids.Nodup
  made : ∀ id ∈ h.ids, id ∈ made
  /-- What is stored was accepted before what is not. -/
  split : h.saved rows ++ h.unsaved rows = h.life.accepted
  /-- Nothing else is stored in between, or before. -/
  base : h.replayed ++ (h.saved rows).map m.rowOf <+: inStream (h.stream m) rows
  /-- What is no longer queued is stored. -/
  queued : ∃ done, done ++ h.life.aggregate.pending = h.life.accepted ∧
    ∀ e ∈ done, e.id ∈ rows.map (·.eventId)

/-! ## Constructed and loaded -/

theorem sound_of_nothing {a : Aggregate S P} {replayed : List EventRow}
    (hversion : a.version = replayed.length) (hpending : a.pending = [])
    (hbase : replayed <+: inStream (m.streamOf a.id) rows) :
    Sound m ⟨⟨a, []⟩, replayed⟩ rows made where
  version := hversion
  versions := rfl
  owner := by simp
  ids := by simp [Held.ids]
  made := by simp [Held.ids]
  split := rfl
  base := by simpa [saved, stream] using hbase
  queued := ⟨[], by simpa using hpending, by simp⟩

theorem sound_fresh (m : Mapping S P) (id : AggregateId) (state : S) :
    Sound m ⟨⟨.fresh id state, []⟩, []⟩ rows made :=
  sound_of_nothing rfl rfl (List.nil_prefix)

theorem sound_loaded (hrows : Numbered rows) {id : AggregateId} {options : LoadOptions}
    {a : Aggregate S P}
    (hreplay : m.replayRows id options (m.history id options rows) = .ok (some a)) :
    Sound m ⟨⟨a, []⟩, m.history id options rows⟩ rows made := by
  obtain ⟨rfl, hversion, hpending⟩ :=
    Mapping.replayRows_eq_some (Mapping.versions_history hrows) hreplay
  exact sound_of_nothing hversion hpending (Mapping.history_prefix hrows)

/-! ## Changed -/

theorem Sound.mono_made (hs : Sound m h rows made) {made' : List Uuid}
    (hsub : ∀ id ∈ made, id ∈ made') : Sound m h rows made' :=
  { hs with made := fun id hid => hsub id (hs.made id hid) }

/-- An event with a fresh id and the next version. -/
theorem Sound.accept (hs : Sound m h rows made) (hknown : ∀ r ∈ rows, r.eventId ∈ made)
    {e : RecordedEvent P} (haccepts : h.life.aggregate.Accepts e.event)
    (hfresh : e.id ∉ made) (hversion : e.version = h.life.aggregate.version + 1) :
    Sound m { h with life := h.life.accept m.blueprint e } rows (e.id :: made) := by
  have howner : e.aggregateId = h.life.aggregate.id := Option.some.inj haccepts.1
  have hstored : e.id ∉ rows.map (·.eventId) := by
    intro hmem
    obtain ⟨r, hr, hid⟩ := List.mem_map.mp hmem
    exact hfresh (hid ▸ hknown r hr)
  have hsaved : saved { h with life := h.life.accept m.blueprint e } rows = h.saved rows := by
    rw [saved, Life.accept, List.filter_append,
      List.filter_cons_of_neg (by simpa using hstored), List.filter_nil, List.append_nil]
    rfl
  have hunsaved : unsaved { h with life := h.life.accept m.blueprint e } rows =
      h.unsaved rows ++ [e] := by
    rw [unsaved, Life.accept, List.filter_append,
      List.filter_cons_of_pos (by simpa using hstored), List.filter_nil]
    rfl
  constructor
  · show e.version = h.replayed.length + (h.life.accepted ++ [e]).length
    rw [hversion, hs.version, List.length_append, List.length_singleton, Nat.add_assoc]
  · show (h.life.accepted ++ [e]).map (·.version) =
      List.range' (h.replayed.length + 1) (h.life.accepted ++ [e]).length
    have hnext : e.version = h.replayed.length + 1 + h.life.accepted.length := by
      rw [hversion, hs.version]
      omega
    rw [List.map_append, hs.versions, List.length_append, List.length_singleton,
      List.range'_1_concat, List.map_cons, List.map_nil, hnext]
  · intro x hx
    rcases List.mem_append.mp hx with hx | hx
    · exact hs.owner x hx
    · rw [List.mem_singleton.mp hx]
      exact howner
  · show ((h.life.accepted ++ [e]).map (·.id)).Nodup
    rw [List.map_append]
    have hconcat := hs.ids.concat fun hmem => hfresh (hs.made e.id hmem)
    rwa [List.concat_eq_append] at hconcat
  · intro id hid
    have hid : id ∈ (h.life.accepted ++ [e]).map (·.id) := hid
    rw [List.map_append] at hid
    rcases List.mem_append.mp hid with hid | hid
    · exact List.mem_cons_of_mem _ (hs.made id hid)
    · rw [List.mem_singleton.mp hid]
      exact List.mem_cons_self
  · rw [hsaved, hunsaved, ← List.append_assoc, hs.split]
    rfl
  · rw [hsaved]
    exact hs.base
  · obtain ⟨done, hdone, hall⟩ := hs.queued
    refine ⟨done, ?_, hall⟩
    show done ++ (h.life.aggregate.pending ++ [e]) = h.life.accepted ++ [e]
    rw [← List.append_assoc, hdone]

theorem Sound.change (hs : Sound m h rows made) (hknown : ∀ r ∈ rows, r.eventId ∈ made)
    {c : Change P} (hc : c.Plain made) :
    Sound m { h with life := h.life.after m.blueprint c } rows (c.made ++ made) := by
  have hsub : ∀ id ∈ made, id ∈ c.made ++ made := fun id hid => List.mem_append_right _ hid
  rcases Life.after_cases m.blueprint h.life c with ⟨e, he, hacc, heq⟩ | ⟨e, -, -, heq⟩ | ⟨rfl, -⟩
  · obtain ⟨hfresh, hmade, hversion⟩ := hc.proposal he
    rw [heq, hmade]
    exact hs.accept hknown hacc hfresh hversion
  · rw [heq]
    exact hs.mono_made hsub
  · exact hc.elim

/-- The id of a new event has not been made before. -/
theorem mem_ids_change {c : Change P} (hc : c.Plain made) (b : Blueprint S P) {id : Uuid}
    (hid : id ∈ ids { h with life := h.life.after b c }) : id ∈ h.ids ∨ id ∉ made := by
  rcases Life.after_cases b h.life c with ⟨e, he, -, heq⟩ | ⟨e, -, -, heq⟩ | ⟨rfl, -⟩
  · rw [heq] at hid
    have hid : id ∈ (h.life.accepted ++ [e]).map (·.id) := hid
    rw [List.map_append] at hid
    rcases List.mem_append.mp hid with hid | hid
    · exact Or.inl hid
    · rw [List.mem_singleton.mp hid]
      exact Or.inr (hc.proposal he).1
  · rw [heq] at hid
    exact Or.inl hid
  · exact hc.elim

/-- A queue is cleared when all that was accepted is stored. -/
theorem Sound.clear (hs : Sound m h rows made)
    (hall : ∀ e ∈ h.life.accepted, e.id ∈ rows.map (·.eventId)) :
    Sound m { h with life := h.life.after m.blueprint .clear } rows made := by
  rw [Life.after_clear]
  exact { hs with queued := ⟨h.life.accepted, List.append_nil _, hall⟩ }

/-! ## Others append -/

theorem saved_append_of_unrelated (rows : List EventRow) (hl : ∀ r ∈ l, r.eventId ∉ h.ids) :
    h.saved (rows ++ l) = h.saved rows ∧ h.unsaved (rows ++ l) = h.unsaved rows := by
  have hmem : ∀ e ∈ h.life.accepted,
      e.id ∈ (rows ++ l).map (·.eventId) ↔ e.id ∈ rows.map (·.eventId) := by
    intro e he
    rw [List.map_append, List.mem_append, or_iff_left_iff_imp]
    intro hel
    obtain ⟨r, hr, hid⟩ := List.mem_map.mp hel
    exact absurd (hid ▸ List.mem_map_of_mem he) (hl r hr)
  constructor
  · exact List.filter_congr fun e he => by simp only [hmem e he]
  · exact List.filter_congr fun e he => by simp only [hmem e he]

theorem Sound.of_unrelated (hs : Sound m h rows made) (hl : ∀ r ∈ l, r.eventId ∉ h.ids) :
    Sound m h (rows ++ l) made := by
  obtain ⟨hsaved, hunsaved⟩ := saved_append_of_unrelated rows hl
  obtain ⟨done, hdone, hall⟩ := hs.queued
  refine { hs with split := ?_, base := ?_, queued := ⟨done, hdone, fun e he => ?_⟩ }
  · rw [hsaved, hunsaved]
    exact hs.split
  · rw [hsaved, inStream_append]
    exact hs.base.trans (List.prefix_append _ _)
  · rw [List.map_append]
    exact List.mem_append_left _ (hall e he)

/-! ## Its own append -/

theorem mem_stored_of_mem_append (hall : ∀ e ∈ h.unsaved rows, e.id ∈ l.map (·.eventId))
    {e : RecordedEvent P} (he : e ∈ h.life.accepted) : e.id ∈ (rows ++ l).map (·.eventId) := by
  rw [List.map_append, List.mem_append]
  by_cases hmem : e.id ∈ rows.map (·.eventId)
  · exact Or.inl hmem
  · exact Or.inr (hall e (List.mem_filter.mpr ⟨he, by simpa using hmem⟩))

/-- All that was accepted is stored, and if some of it was not before, it comes right after what
was. -/
theorem Sound.of_appended (hs : Sound m h rows made)
    (hall : ∀ e ∈ h.unsaved rows, e.id ∈ l.map (·.eventId))
    (hnext : h.unsaved rows ≠ [] →
      inStream (h.stream m) rows = h.replayed ++ (h.saved rows).map m.rowOf ∧
        inStream (h.stream m) l = (h.unsaved rows).map m.rowOf) :
    Sound m h (rows ++ l) made := by
  have hstored : ∀ e ∈ h.life.accepted, e.id ∈ (rows ++ l).map (·.eventId) :=
    fun e he => mem_stored_of_mem_append hall he
  have hsaved : h.saved (rows ++ l) = h.life.accepted :=
    List.filter_eq_self.mpr fun e he => decide_eq_true (hstored e he)
  have hunsaved : h.unsaved (rows ++ l) = [] :=
    List.filter_eq_nil_iff.mpr fun e he hnot => of_decide_eq_true hnot (hstored e he)
  refine { hs with split := ?_, base := ?_, queued := ?_ }
  · rw [hsaved, hunsaved, List.append_nil]
  · rw [hsaved, inStream_append, ← hs.split, List.map_append]
    by_cases hne : h.unsaved rows = []
    · rw [hne, List.map_nil, List.append_nil]
      exact hs.base.trans (List.prefix_append _ _)
    · obtain ⟨hrows, hl⟩ := hnext hne
      exact ⟨[], by rw [List.append_nil, hrows, hl, List.append_assoc]⟩
  · obtain ⟨done, hdone, hall⟩ := hs.queued
    refine ⟨done, hdone, fun e he => ?_⟩
    rw [List.map_append]
    exact List.mem_append_left _ (hall e he)

/-! ## Batches -/

/-- What is not stored goes on from what is. -/
theorem Sound.versions_unsaved (hs : Sound m h rows made) :
    (h.unsaved rows).map (·.version) =
      List.range' (h.replayed.length + (h.saved rows).length + 1) (h.unsaved rows).length := by
  have hall := hs.versions
  rw [← hs.split, List.map_append, List.length_append, ← List.range'_append_1] at hall
  have hrest := (List.append_inj hall (by simp)).2
  rw [hrest]
  congr 1
  omega

theorem Sound.stream_of_mem (hs : Sound m h rows made) {e : RecordedEvent P}
    (he : e ∈ h.life.accepted) : (m.rowOf e).stream = h.stream m := by
  rw [Mapping.rowOf_stream, hs.owner e he, stream]

theorem mem_of_mem_unsaved {e : RecordedEvent P} (he : e ∈ h.unsaved rows) :
    e ∈ h.life.accepted :=
  List.mem_of_mem_filter he

/-- Where the slot of the first event that is not stored is free, nothing else is in the stream. -/
theorem Sound.base_eq (hs : Sound m h rows made) (hrows : Numbered rows)
    (hne : h.unsaved rows ≠ [])
    (hfree : ∀ e ∈ h.unsaved rows, (m.rowOf e).slot ∉ rows.map (·.slot)) :
    inStream (h.stream m) rows = h.replayed ++ (h.saved rows).map m.rowOf := by
  obtain ⟨e, rest, hunsaved⟩ := List.exists_cons_of_ne_nil hne
  have he : e ∈ h.unsaved rows := by simp [hunsaved]
  have hversions := hs.versions_unsaved
  rw [hunsaved] at hversions
  have hversion : e.version = h.replayed.length + (h.saved rows).length + 1 :=
    (List.cons.inj hversions).1
  have hlength : (inStream (h.stream m) rows).length < e.version := by
    refine Nat.lt_of_not_le fun hle => hfree e he ?_
    have hmem : e ∈ h.life.accepted := mem_of_mem_unsaved he
    have hslot : (m.rowOf e).slot = ⟨h.stream m, e.version⟩ := by
      rw [EventRow.slot, hs.stream_of_mem hmem, Mapping.rowOf_version]
    rw [hslot]
    exact slot_mem_of_le hrows (by omega) hle
  refine (hs.base.eq_of_length_le ?_).symm
  rw [List.length_append, List.length_map]
  omega

theorem Sound.newRows_pending (hs : Sound m h rows made) :
    newRows rows (h.life.aggregate.pending.map m.rowOf) = (h.unsaved rows).map m.rowOf := by
  obtain ⟨done, hdone, hall⟩ := hs.queued
  have hnone : done.filter (fun e => e.id ∉ rows.map (·.eventId)) = [] :=
    List.filter_eq_nil_iff.mpr fun e he hnot => of_decide_eq_true hnot (hall e he)
  rw [unsaved, ← hdone, List.filter_append, hnone, List.nil_append, newRows, List.filter_map]
  rfl

variable {held : List (Held S P)}

theorem newRows_batch (hsound : ∀ h ∈ held, Sound m h rows made) :
    newRows rows ((held.flatMap fun h => h.life.aggregate.pending).map m.rowOf) =
      held.flatMap fun h => (h.unsaved rows).map m.rowOf := by
  have hparts : ∀ h ∈ held, newRows rows (h.life.aggregate.pending.map m.rowOf) =
      (h.unsaved rows).map m.rowOf := fun h hh => (hsound h hh).newRows_pending
  rw [List.map_flatMap, newRows, List.filter_flatMap]
  exact List.flatMap_congr hparts

theorem Sound.inStream_unsaved (hs : Sound m h rows made) (k : StreamKey) :
    inStream k ((h.unsaved rows).map m.rowOf) =
      if h.stream m = k then (h.unsaved rows).map m.rowOf else [] := by
  have hall : ∀ r ∈ (h.unsaved rows).map m.rowOf, r.stream = h.stream m := by
    intro r hr
    obtain ⟨e, he, rfl⟩ := List.mem_map.mp hr
    exact hs.stream_of_mem (mem_of_mem_unsaved he)
  split
  · rename_i hk
    exact inStream_eq_self fun r hr => (hall r hr).trans hk
  · rename_i hk
    exact inStream_eq_nil fun r hr hrk => hk ((hall r hr).symm.trans hrk)

/-- The first event that is not stored goes to the slot after the last one of its stream. -/
theorem Sound.next_slot_mem (hs : Sound m h rows made) (hrows : Numbered rows)
    (hne : h.unsaved rows ≠ [])
    (hfree : ∀ e ∈ h.unsaved rows, (m.rowOf e).slot ∉ rows.map (·.slot)) :
    (⟨h.stream m, (inStream (h.stream m) rows).length + 1⟩ : Slot) ∈
      ((h.unsaved rows).map m.rowOf).map (·.slot) := by
  have hlength : (inStream (h.stream m) rows).length =
      h.replayed.length + (h.saved rows).length := by
    rw [hs.base_eq hrows hne hfree, List.length_append, List.length_map]
  obtain ⟨e, rest, hunsaved⟩ := List.exists_cons_of_ne_nil hne
  have hversions := hs.versions_unsaved
  rw [hunsaved] at hversions
  have hversion : e.version = h.replayed.length + (h.saved rows).length + 1 :=
    (List.cons.inj hversions).1
  have he : e ∈ h.unsaved rows := by simp [hunsaved]
  refine List.mem_map.mpr ⟨m.rowOf e, List.mem_map_of_mem he, ?_⟩
  rw [EventRow.slot, hs.stream_of_mem (mem_of_mem_unsaved he), Mapping.rowOf_version, hversion,
    hlength]

/-- Of a batch that fits, all new rows of a stream come from one aggregate. -/
theorem inStream_newRows (hrows : Numbered rows) (hsound : ∀ h ∈ held, Sound m h rows made)
    (hfits : Fits rows ((held.flatMap fun h => h.life.aggregate.pending).map m.rowOf))
    (hh : h ∈ held) (hne : h.unsaved rows ≠ []) :
    inStream (h.stream m) rows = h.replayed ++ (h.saved rows).map m.rowOf ∧
      inStream (h.stream m)
        (newRows rows ((held.flatMap fun h => h.life.aggregate.pending).map m.rowOf)) =
          (h.unsaved rows).map m.rowOf := by
  have hnew := newRows_batch hsound
  have hfree : ∀ x ∈ held, ∀ e ∈ x.unsaved rows, (m.rowOf e).slot ∉ rows.map (·.slot) := by
    intro x hx e he
    refine hfits.free _ ?_
    rw [hnew]
    exact List.mem_flatMap.mpr ⟨x, hx, List.mem_map_of_mem he⟩
  refine ⟨(hsound h hh).base_eq hrows hne (hfree h hh), ?_⟩
  have hself : inStream (h.stream m) ((h.unsaved rows).map m.rowOf) =
      (h.unsaved rows).map m.rowOf := by
    rw [(hsound h hh).inStream_unsaved, if_pos rfl]
  -- Two aggregates of this stream would both take the slot after the last one.
  have hone : held.Pairwise fun x y => inStream (h.stream m) ((x.unsaved rows).map m.rowOf) = [] ∨
      inStream (h.stream m) ((y.unsaved rows).map m.rowOf) = [] := by
    have hslots := hfits.slots
    rw [hnew, List.map_flatMap, List.nodup_flatMap] at hslots
    refine hslots.2.imp_of_mem fun {x y} hx hy hdisjoint => ?_
    have hnext : ∀ z ∈ held, inStream (h.stream m) ((z.unsaved rows).map m.rowOf) ≠ [] →
        (⟨h.stream m, (inStream (h.stream m) rows).length + 1⟩ : Slot) ∈
          ((z.unsaved rows).map m.rowOf).map (·.slot) := by
      intro z hz hzne
      rw [(hsound z hz).inStream_unsaved] at hzne
      split at hzne
      · rename_i hzk
        rw [← hzk]
        exact (hsound z hz).next_slot_mem hrows (by simpa using hzne) (hfree z hz)
      · exact absurd rfl hzne
    by_contra hboth
    rw [not_or] at hboth
    exact hdisjoint (hnext x hx hboth.1) (hnext y hy hboth.2)
  rw [hnew, inStream, List.filter_flatMap]
  exact (flatMap_eq_of_mem hone hh (by simpa [hself] using hne)).trans hself

theorem exists_of_mem_newRows (hsound : ∀ h ∈ held, Sound m h rows made) {r : EventRow}
    (hr : r ∈ newRows rows ((held.flatMap fun h => h.life.aggregate.pending).map m.rowOf)) :
    ∃ h ∈ held, h.stream m = r.stream ∧ r ∈ (h.unsaved rows).map m.rowOf := by
  rw [newRows_batch hsound] at hr
  obtain ⟨h, hh, hr⟩ := List.mem_flatMap.mp hr
  obtain ⟨e, he, rfl⟩ := List.mem_map.mp hr
  exact ⟨h, hh, ((hsound h hh).stream_of_mem (mem_of_mem_unsaved he)).symm, hr⟩

theorem numbered_newRows (hrows : Numbered rows) (hsound : ∀ h ∈ held, Sound m h rows made)
    (hfits : Fits rows ((held.flatMap fun h => h.life.aggregate.pending).map m.rowOf)) :
    Numbered (rows ++
      newRows rows ((held.flatMap fun h => h.life.aggregate.pending).map m.rowOf)) := by
  refine numbered_append hrows fun k => ?_
  by_cases hnone : inStream k
      (newRows rows ((held.flatMap fun h => h.life.aggregate.pending).map m.rowOf)) = []
  · rw [hnone]
    rfl
  · obtain ⟨r, hr⟩ := List.exists_mem_of_ne_nil _ hnone
    obtain ⟨hmem, rfl⟩ := mem_inStream.mp hr
    obtain ⟨h, hh, hstream, hunsaved⟩ := exists_of_mem_newRows hsound hmem
    have hne : h.unsaved rows ≠ [] := by
      rintro heq
      rw [heq] at hunsaved
      cases hunsaved
    obtain ⟨hbase, hnew⟩ := inStream_newRows hrows hsound hfits hh hne
    rw [← hstream, hbase, hnew, List.map_map]
    have hversions := (hsound h hh).versions_unsaved
    rw [List.length_append, List.length_map, List.length_map]
    exact hversions

end Held

end EventStore
