import EventStore.Proofs.Dispatch
import EventStore.Proofs.Streams

/-!
# What was saved is loaded

Proved here, for events whose payloads are encoded and read back (`Mapping.Restores`):

* `replayRows_map`: their rows, in any order, replay to what the events lead to;
* `exists_sorted`: rows of one aggregate with unique slots have such an order;
* `fits_of_follows`: events with fresh ids that follow what is stored fit into the log.
-/

namespace EventStore

open Aggregate

/-- To load all events of an aggregate, deleted or not. -/
def LoadOptions.whole : LoadOptions := { includeDeleted := true }

namespace Mapping

variable {S P : Type} {m : Mapping S P} {id : AggregateId} {state : S} {rows : List EventRow}
  {events sorted : List (RecordedEvent P)}

/-- A payload that is encoded and read back. -/
def Restores (m : Mapping S P) (p : P) : Prop := m.Encodes p ∧ m.ReadsBack p

/-! ## Loads -/

theorem history_whole : m.history id .whole rows = inStream (m.streamOf id) rows := by
  rw [history_eq_filter]
  simp [LoadOptions.whole]

theorem replayRows_map (hcreate : m.blueprint.create id = some state)
    (hrestores : ∀ e ∈ events, m.Restores e.payload) (hperm : events.Perm sorted)
    (hfollows : (fresh id state : Aggregate S P).Follows (sorted.map (·.event))) :
    m.replayRows id .whole (events.map m.rowOf) =
      .ok (if events = [] then none
        else some ((sorted.map (·.event)).foldl (advance m.blueprint) (fresh id state))) := by
  have hevents : (events.map m.rowOf).mapM m.ofRow = .ok (events.map (·.event)) := by
    rw [List.mapM_map]
    exact mapM_eq_ok fun e he => ofRow_rowOf (hrestores e he).1 (hrestores e he).2
  have hreplay := replay_of_perm hcreate (hperm.map (·.event)) hfollows
  unfold replayRows
  rw [hevents]
  cases events with
  | nil => rfl
  | cons e l =>
    rw [List.map_cons] at hreplay
    simp [hreplay, LoadOptions.whole]

/-- The stored events of an aggregate in the order of their versions. -/
theorem exists_sorted (howner : ∀ e ∈ events, e.aggregateId = id)
    (hunique : ((events.map m.rowOf).map (·.slot)).Nodup) (state : S) :
    ∃ sorted, events.Perm sorted ∧
      (fresh id state : Aggregate S P).Follows (sorted.map (·.event)) := by
  have hperm := (List.mergeSort_perm events fun e f => decide (e.version ≤ f.version)).symm
  refine ⟨_, hperm, follows_fresh ?_ ?_⟩
  · intro e he
    obtain ⟨x, hx, rfl⟩ := List.mem_map.mp he
    exact congrArg some (howner x (hperm.mem_iff.mpr hx))
  · have hdistinct : (events.map (·.version)).Nodup := by
      refine List.pairwise_map.mpr ((List.pairwise_map.mp (List.pairwise_map.mp hunique)).imp_of_mem
        fun {e f} he hf hslots hversion => hslots ?_)
      rw [EventRow.slot, EventRow.slot, rowOf_stream, rowOf_stream, howner e he, howner f hf,
        rowOf_version, rowOf_version, hversion]
    exact List.pairwise_map.mpr (pairwise_lt_mergeSort_key hdistinct)

/-! ## Saves -/

/-- Events that follow what is stored of their aggregate fit into the log, if their ids are new. -/
theorem fits_of_follows {a : Aggregate S P} {stored accepted : List (RecordedEvent P)}
    (hstored : ∀ r ∈ inStream (m.streamOf a.id) rows, ∃ e ∈ stored, m.rowOf e = r)
    (hfollows : a.Follows ((stored ++ accepted).map (·.event)))
    (hids : (accepted.map (·.id)).Nodup)
    (hnew : ∀ e ∈ accepted, e.id ∉ rows.map (·.eventId)) :
    Fits rows (accepted.map m.rowOf) ∧
      newRows rows (accepted.map m.rowOf) = accepted.map m.rowOf := by
  have howner : ∀ e ∈ accepted, e.aggregateId = a.id := fun e he =>
    Option.some.inj (hfollows.accepts e.event
      (List.mem_map_of_mem (List.mem_append_right _ he))).1
  have hslot : ∀ e ∈ accepted, (m.rowOf e).slot = ⟨m.streamOf a.id, e.version⟩ := fun e he => by
    rw [EventRow.slot, rowOf_stream, howner e he, rowOf_version]
  have hincreasing := List.pairwise_append.mp (List.pairwise_map.mp hfollows.increasing)
  have hall : newRows rows (accepted.map m.rowOf) = accepted.map m.rowOf := by
    refine newRows_eq_self fun r hr => ?_
    obtain ⟨e, he, rfl⟩ := List.mem_map.mp hr
    exact hnew e he
  refine ⟨⟨?_, ?_, ?_, ?_⟩, hall⟩
  · rw [List.map_map]
    exact hids
  · intro r hr r' hr' hid
    obtain ⟨e, he, rfl⟩ := List.mem_map.mp hr
    exact absurd (List.mem_map.mpr ⟨r', hr', hid⟩) (hnew e he)
  · rw [hall]
    intro r hr hfree
    obtain ⟨e, he, rfl⟩ := List.mem_map.mp hr
    obtain ⟨r', hr', hslots⟩ := List.mem_map.mp hfree
    rw [hslot e he] at hslots
    obtain ⟨x, hx, rfl⟩ := hstored r' (mem_inStream.mpr ⟨hr', congrArg Slot.stream hslots⟩)
    have hlt : x.version < e.version := hincreasing.2.2 x hx e he
    exact Nat.ne_of_lt hlt (congrArg Slot.version hslots)
  · rw [hall, List.map_map]
    refine List.pairwise_map.mpr (hincreasing.2.1.imp_of_mem fun {e f} he hf hlt hslots => ?_)
    have hslots : (m.rowOf e).slot = (m.rowOf f).slot := hslots
    rw [hslot e he, hslot f hf] at hslots
    exact Nat.ne_of_lt hlt (congrArg Slot.version hslots)

end Mapping

end EventStore
