import EventStore.Proofs.MemoryLog

/-!
# A memory in use

A memory is appended to, read and cleared, in any order; appends may fail. Beside it goes the list
of rows that were accepted since it was last cleared.

Proved here:

* `Keeps.consistent`: streams, index and counter agree with one another where they describe one log;
* `Holds.append_again`: a batch that was accepted may be appended again;
* `holds_after`: each use of a memory keeps that log;
* `consistent_run`: so they agree after any uses.
-/

namespace EventStore

namespace MemoryStore

/-- Streams, index and counter agree, and all rows are those that were accepted. -/
structure Consistent (s : MemoryStore) (accepted : List EventRow) : Prop where
  streamKeys : (s.streams.map (·.1)).Nodup
  indexKeys : (s.index.map (·.1)).Nodup
  /-- A row is in the stream that it belongs to and that the index gives for it, and in no other. -/
  mem_arrivals_iff : ∀ a ∈ s.stored, ∀ k,
    a ∈ s.arrivals k ↔ a.row.stream = k ∧ s.slotOf? a.row.eventId = some ⟨k, a.row.version⟩
  /-- The index has an event id exactly if a row with it is stored, and gives its slot. -/
  slotOf?_eq_some_iff : ∀ id slot, s.slotOf? id = some slot ↔
    ∃ a ∈ s.arrivals slot.stream, a.row.eventId = id ∧ a.row.slot = slot
  unique : Unique (s.stored.map (·.row))
  numbers : (s.stored.map (·.number)).Nodup
  increasing : ∀ k, (s.arrivals k).Pairwise fun a b => a.number < b.number
  below : ∀ a ∈ s.stored, a.number < s.next
  rows_eq : s.rows = accepted
  length_eq_rows : s.length = s.rows.length
  length_eq_stored : s.length = s.stored.length

variable {s : MemoryStore} {log : List Arrival}

theorem Keeps.mem_stored (h : s.Keeps log) {a : Arrival} : a ∈ s.stored ↔ a ∈ log :=
  h.stored_perm.mem_iff

theorem Keeps.consistent (h : s.Keeps log) : s.Consistent (log.map (·.row)) where
  streamKeys := h.keys
  indexKeys := h.index_keys
  mem_arrivals_iff := by
    intro a ha k
    rw [h.mem_stored] at ha
    rw [h.arrivals_eq, List.mem_filter, decide_eq_true_eq, h.slotOf?_eq_some_iff]
    constructor
    · rintro ⟨-, rfl⟩
      exact ⟨rfl, a, ha, rfl, rfl⟩
    · exact fun hk => ⟨ha, hk.1⟩
  slotOf?_eq_some_iff := by
    intro id slot
    rw [h.slotOf?_eq_some_iff, h.arrivals_eq]
    constructor
    · rintro ⟨a, ha, hid, rfl⟩
      exact ⟨a, List.mem_filter.mpr ⟨ha, decide_eq_true rfl⟩, hid, rfl⟩
    · rintro ⟨a, ha, hid, hslot⟩
      exact ⟨a, List.mem_of_mem_filter ha, hid, hslot⟩
  unique := (Holds.unique ⟨log, h, rfl⟩).of_perm (h.stored_perm.map _).symm
  numbers := by
    have hlog : (log.map (·.number)).Nodup :=
      List.pairwise_map.mpr (h.increasing.imp Nat.ne_of_lt)
    exact (h.stored_perm.map _).symm.nodup hlog
  increasing := by
    intro k
    rw [h.arrivals_eq]
    exact h.increasing.filter _
  below := fun a ha => h.below a (h.mem_stored.mp ha)
  rows_eq := h.rows_eq
  length_eq_rows := by simp [MemoryStore.length, h.index, h.rows_eq]
  length_eq_stored := by
    rw [h.stored_perm.length_eq]
    simp [MemoryStore.length, h.index]

/-! ## Appends that are repeated -/

section Again

variable {rows l : List EventRow}

theorem newRows_append_newRows (rows l : List EventRow) :
    newRows (rows ++ newRows rows l) l = [] := by
  refine List.filter_eq_nil_iff.mpr fun r hr => ?_
  rw [decide_eq_true_eq, not_not, List.map_append, List.mem_append]
  by_cases hmem : r.eventId ∈ rows.map (·.eventId)
  · exact Or.inl hmem
  · exact Or.inr (List.mem_map.mpr ⟨r, mem_newRows.mpr ⟨hr, hmem⟩, rfl⟩)

theorem fits_again (h : Fits rows l) : Fits (rows ++ newRows rows l) l where
  ids := h.ids
  owned := by
    intro r hr r' hr' hid
    rcases List.mem_append.mp hr' with hr' | hr'
    · exact h.owned r hr r' hr' hid
    · rw [List.inj_on_of_nodup_map h.ids (mem_newRows.mp hr').1 hr hid]
  free := by
    rw [newRows_append_newRows]
    exact nofun
  slots := by
    rw [newRows_append_newRows]
    exact List.nodup_nil

/-- A batch that was accepted is accepted again, and then changes nothing. -/
theorem Holds.append_again {s' : MemoryStore} (h : s.Holds rows) (happend : s.append l = .ok s') :
    s'.append l = .ok s' := by
  obtain ⟨hfits, log, hkeeps, hrows⟩ := h.of_append_eq_ok happend
  have hnew : newRows (log.map (·.row)) l = [] := by rw [hrows, newRows_append_newRows]
  have hunstored : s'.unstored l = .ok [] :=
    hkeeps.unstored_eq_ok_iff.mpr ⟨hrows ▸ fits_again hfits, hnew.symm⟩
  rw [append, hunstored]
  rfl

end Again

/-! ## Uses -/

/-- What may be done to a memory. -/
inductive Use where
  | append (l : List EventRow)
  | read (f : EventFilter)
  | clear

/-- A memory in use, and the rows that it has accepted since it was last cleared. -/
structure InUse where
  store : MemoryStore := {}
  accepted : List EventRow := []

namespace InUse

/-- A batch is accepted as a whole or not at all; what is stored already is not accepted again. -/
def after (u : InUse) : Use → InUse
  | .append l =>
    match storage.append l u.store with
    | (.ok _, store) => ⟨store, u.accepted ++ newRows u.accepted l⟩
    | (.error _, store) => { u with store }
  | .read f => { u with store := (storage.read f u.store).2 }
  | .clear => ⟨u.store.clear, []⟩

def run (u : InUse) (uses : List Use) : InUse := uses.foldl after u

theorem holds_after {u : InUse} (h : u.store.Holds u.accepted) (use : Use) :
    (u.after use).store.Holds (u.after use).accepted := by
  cases use with
  | append l =>
    by_cases hfits : Fits u.accepted l
    · obtain ⟨s, happend, hholds⟩ := h.append_of_fits hfits
      rw [after, storage_append_of_ok happend]
      exact hholds
    · obtain ⟨e, happend, -⟩ := h.append_of_not_fits hfits
      rw [after, storage_append_of_error happend]
      exact h
  | read f => exact h
  | clear => exact ⟨[], keeps_clear _, rfl⟩

theorem holds_run {u : InUse} (h : u.store.Holds u.accepted) (uses : List Use) :
    (u.run uses).store.Holds (u.run uses).accepted := by
  induction uses generalizing u with
  | nil => exact h
  | cons use uses ih => exact ih (holds_after h use)

/-- After any uses a memory holds its rows. -/
theorem holds_rows (uses : List Use) :
    (({} : InUse).run uses).store.Holds (({} : InUse).run uses).store.rows := by
  have hholds := holds_run (u := {}) holds_empty uses
  rwa [← hholds.rows_eq] at hholds

/-- After any uses, streams, index and counter agree, and the rows are those that were accepted
since the last clear, in the order in which they were. -/
theorem consistent_run (uses : List Use) :
    (({} : InUse).run uses).store.Consistent (({} : InUse).run uses).accepted := by
  obtain ⟨log, hkeeps, hrows⟩ := holds_run (u := {}) holds_empty uses
  rw [← hrows]
  exact hkeeps.consistent

end InUse

end MemoryStore

end EventStore
