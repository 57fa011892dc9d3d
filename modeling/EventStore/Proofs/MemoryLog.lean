import EventStore.Proofs.Lists
import EventStore.Storage.Memory
import Mathlib.Data.List.Perm.Basic
import Mathlib.Data.List.Lattice

/-!
# The log that a memory keeps

A memory holds its rows three times over: by stream, numbered, and by event id in the index.
`Keeps s log` says that all of them describe one list of arrivals, in which no event id and no slot
occurs twice.

Proved here:

* `Keeps.read_eq`: to read is to filter the list;
* `Keeps.unstored_eq_ok_iff`: a batch is refused unless it `Fits`;
* `Keeps.foldl_push`: its new rows go to the end of the list;
* `Holds.append_of_fits`, `Holds.of_append_eq_ok`: the same for the rows alone.
-/

namespace EventStore

/-! ## Batches against stored rows -/

/-- The rows of a batch whose event ids are not stored. -/
def newRows (rows l : List EventRow) : List EventRow :=
  l.filter fun r => r.eventId ∉ rows.map (·.eventId)

/-- A batch that may be appended: its event ids are distinct, those that are stored are stored in
the same slots, and the new rows go to slots that are free and distinct. -/
structure Fits (rows l : List EventRow) : Prop where
  ids : (l.map (·.eventId)).Nodup
  owned : ∀ r ∈ l, ∀ r' ∈ rows, r'.eventId = r.eventId → r'.slot = r.slot
  free : ∀ r ∈ newRows rows l, r.slot ∉ rows.map (·.slot)
  slots : ((newRows rows l).map (·.slot)).Nodup

theorem mem_newRows {rows l : List EventRow} {r : EventRow} :
    r ∈ newRows rows l ↔ r ∈ l ∧ r.eventId ∉ rows.map (·.eventId) := by
  simp only [newRows, List.mem_filter, decide_eq_true_eq]

theorem newRows_cons_of_mem {rows l : List EventRow} {r : EventRow}
    (h : r.eventId ∈ rows.map (·.eventId)) : newRows rows (r :: l) = newRows rows l :=
  List.filter_cons_of_neg (by simpa using h)

theorem newRows_cons_of_not_mem {rows l : List EventRow} {r : EventRow}
    (h : r.eventId ∉ rows.map (·.eventId)) : newRows rows (r :: l) = r :: newRows rows l :=
  List.filter_cons_of_pos (by simpa using h)

theorem newRows_eq_self {rows l : List EventRow}
    (h : ∀ r ∈ l, r.eventId ∉ rows.map (·.eventId)) : newRows rows l = l :=
  List.filter_eq_self.mpr fun r hr => by simpa using h r hr

/-- Rows of which no two share an event id or a slot. -/
structure Unique (rows : List EventRow) : Prop where
  ids : (rows.map (·.eventId)).Nodup
  slots : (rows.map (·.slot)).Nodup

theorem unique_append {rows l : List EventRow} :
    Unique (rows ++ l) ↔ Unique rows ∧ Unique l ∧
      (∀ r ∈ l, r.eventId ∉ rows.map (·.eventId)) ∧ ∀ r ∈ l, r.slot ∉ rows.map (·.slot) := by
  constructor
  · rintro ⟨hids, hslots⟩
    rw [List.map_append] at hids hslots
    obtain ⟨hi, hi', hid⟩ := List.nodup_append'.mp hids
    obtain ⟨hs, hs', hsd⟩ := List.nodup_append'.mp hslots
    exact ⟨⟨hi, hs⟩, ⟨hi', hs'⟩, fun r hr hm => hid hm (List.mem_map_of_mem hr),
      fun r hr hm => hsd hm (List.mem_map_of_mem hr)⟩
  · rintro ⟨hrows, hl, hid, hslot⟩
    constructor
    · rw [List.map_append]
      refine List.nodup_append'.mpr ⟨hrows.ids, hl.ids, fun i hi hi' => ?_⟩
      obtain ⟨r, hr, rfl⟩ := List.mem_map.mp hi'
      exact hid r hr hi
    · rw [List.map_append]
      refine List.nodup_append'.mpr ⟨hrows.slots, hl.slots, fun i hi hi' => ?_⟩
      obtain ⟨r, hr, rfl⟩ := List.mem_map.mp hi'
      exact hslot r hr hi

theorem Unique.left {rows l : List EventRow} (h : Unique (rows ++ l)) : Unique rows :=
  (unique_append.mp h).1

theorem Unique.of_perm {rows rows' : List EventRow} (h : Unique rows) (hperm : rows.Perm rows') :
    Unique rows' :=
  ⟨(hperm.map _).nodup h.ids, (hperm.map _).nodup h.slots⟩

/-- A batch that fits leaves event ids and slots unique. -/
theorem Unique.append_newRows {rows l : List EventRow} (h : Unique rows) (hfits : Fits rows l) :
    Unique (rows ++ newRows rows l) :=
  unique_append.mpr ⟨h, ⟨hfits.ids.sublist (List.filter_sublist.map _), hfits.slots⟩,
    fun _ hr => (mem_newRows.mp hr).2, hfits.free⟩

namespace MemoryStore

/-! ## What is kept -/

/-- Streams and index describe the arrivals of `log`, which stand in the order of their numbers. -/
structure Keeps (s : MemoryStore) (log : List Arrival) : Prop where
  increasing : log.Pairwise fun a b => a.number < b.number
  below : ∀ a ∈ log, a.number < s.next
  keys : (s.streams.map (·.1)).Nodup
  stream : ∀ k l, (k, l) ∈ s.streams → l = log.filter fun a => a.row.stream = k
  covered : ∀ a ∈ log, a.row.stream ∈ s.streams.map (·.1)
  index : s.index = (log.map fun a => (a.row.eventId, a.row.slot)).reverse
  ids : (log.map (·.row.eventId)).Nodup
  slots : (log.map (·.row.slot)).Nodup

variable {s : MemoryStore} {log : List Arrival}

theorem keeps_empty : ({} : MemoryStore).Keeps [] := by
  constructor <;> simp

theorem keeps_clear (s : MemoryStore) : s.clear.Keeps [] := by
  constructor <;> simp [clear]

/-! ## Looking up -/

theorem Keeps.arrivals_eq (h : s.Keeps log) (k : StreamKey) :
    s.arrivals k = log.filter fun a => a.row.stream = k := by
  unfold arrivals
  cases hk : s.streams.lookup k with
  | some l => exact h.stream k l (mem_of_lookup_eq_some hk)
  | none =>
    symm
    rw [Option.getD_none, List.filter_eq_nil_iff]
    intro a ha hak
    obtain ⟨⟨k', l⟩, hl, heq⟩ := List.mem_map.mp (h.covered a ha)
    have hk' : k' = k := by simpa using heq.trans (by simpa using hak)
    rw [lookup_eq_some_of_mem h.keys (hk' ▸ hl)] at hk
    cases hk

theorem Keeps.occupied_iff (h : s.Keeps log) (slot : Slot) :
    s.occupied slot ↔ slot ∈ log.map (·.row.slot) := by
  simp only [occupied, h.arrivals_eq, List.any_filter, List.any_eq_true, List.mem_map,
    Bool.and_eq_true, decide_eq_true_eq]
  constructor
  · rintro ⟨a, ha, hs, hv⟩
    exact ⟨a, ha, by rw [EventRow.slot, hs, hv]⟩
  · rintro ⟨a, ha, rfl⟩
    exact ⟨a, ha, rfl, rfl⟩

theorem Keeps.index_keys (h : s.Keeps log) : (s.index.map (·.1)).Nodup := by
  rw [h.index, List.map_reverse, List.map_map, List.nodup_reverse]
  exact h.ids

theorem Keeps.slotOf?_eq_some_iff (h : s.Keeps log) (id : Uuid) (slot : Slot) :
    s.slotOf? id = some slot ↔ ∃ a ∈ log, a.row.eventId = id ∧ a.row.slot = slot := by
  have hmem : (id, slot) ∈ s.index ↔ ∃ a ∈ log, a.row.eventId = id ∧ a.row.slot = slot := by
    simp [h.index]
  rw [← hmem]
  exact ⟨mem_of_lookup_eq_some, lookup_eq_some_of_mem h.index_keys⟩

theorem Keeps.slotOf?_eq_none_iff (h : s.Keeps log) (id : Uuid) :
    s.slotOf? id = none ↔ id ∉ log.map (·.row.eventId) := by
  rw [Option.eq_none_iff_forall_ne_some]
  simp only [ne_eq, h.slotOf?_eq_some_iff, List.mem_map]
  constructor
  · rintro hnone ⟨a, ha, hid⟩
    exact hnone a.row.slot ⟨a, ha, hid, rfl⟩
  · rintro hnone slot ⟨a, ha, hid, -⟩
    exact hnone ⟨a, ha, hid⟩

/-! ## Reading -/

theorem Keeps.nodup (h : s.Keeps log) : log.Nodup :=
  h.increasing.imp fun hlt heq => by rw [heq] at hlt; exact Nat.lt_irrefl _ hlt

/-- The streams together hold each arrival once. -/
theorem Keeps.flatMap_streams_perm (h : s.Keeps log) (p : Arrival → Bool) :
    (s.streams.flatMap fun q => q.2.filter p).Perm (log.filter p) := by
  refine (List.perm_ext_iff_of_nodup ?_ (h.nodup.filter p)).mpr fun a => ?_
  · refine List.nodup_flatMap.mpr ⟨fun q hq => ?_, ?_⟩
    · rw [h.stream q.1 q.2 hq]
      exact (h.nodup.filter _).filter _
    · refine (List.pairwise_map.mp h.keys).imp_of_mem fun {q q'} hq hq' hne => ?_
      intro a ha ha'
      dsimp only at ha ha'
      rw [h.stream q.1 q.2 hq] at ha
      rw [h.stream q'.1 q'.2 hq'] at ha'
      simp only [List.mem_filter, decide_eq_true_eq] at ha ha'
      exact hne (ha.1.2.symm.trans ha'.1.2)
  · simp only [List.mem_flatMap, List.mem_filter]
    constructor
    · rintro ⟨q, hq, ha, hp⟩
      rw [h.stream q.1 q.2 hq] at ha
      exact ⟨(List.mem_filter.mp ha).1, hp⟩
    · rintro ⟨ha, hp⟩
      obtain ⟨q, hq, hk⟩ := List.mem_map.mp (h.covered a ha)
      refine ⟨q, hq, ?_, hp⟩
      rw [h.stream q.1 q.2 hq]
      simp [ha, hk]

theorem inArrivalOrder_of_perm {l sorted : List Arrival} (hperm : l.Perm sorted)
    (hsorted : sorted.Pairwise fun a b => a.number < b.number) :
    inArrivalOrder l = sorted.map (·.row) := by
  rw [inArrivalOrder, mergeSort_key_eq_of_perm hperm hsorted]

/-- All arrivals, stream by stream. -/
def stored (s : MemoryStore) : List Arrival := s.streams.flatMap (·.2)

theorem Keeps.stored_perm (h : s.Keeps log) : s.stored.Perm log := by
  simpa [stored] using h.flatMap_streams_perm fun _ => true

theorem Keeps.rows_eq (h : s.Keeps log) : s.rows = log.map (·.row) :=
  inArrivalOrder_of_perm h.stored_perm h.increasing

theorem Keeps.read_eq (h : s.Keeps log) (f : EventFilter) :
    s.read f = (log.map (·.row)).filter f.accepts := by
  unfold read
  split
  · rename_i hempty
    symm
    rw [List.filter_eq_nil_iff]
    intro r _ hr
    cases hids : f.aggregateIds with
    | none => simp [EventFilter.isEmptySelection, hids] at hempty
    | some ids =>
      simp only [EventFilter.isEmptySelection, hids] at hempty
      simp only [EventFilter.accepts, hids] at hr
      cases ids <;> simp_all
  · rw [inArrivalOrder_of_perm (h.flatMap_streams_perm fun a => f.accepts a.row)
      (h.increasing.filter _), List.filter_map]
    rfl

/-! ## Storing a row -/

theorem mem_addArrival {k k' : StreamKey} {a : Arrival} {l : List Arrival}
    {streams : List (StreamKey × List Arrival)} (hkeys : (streams.map (·.1)).Nodup) :
    (k', l) ∈ addArrival k a streams ↔
      k' = k ∧ l = (streams.lookup k).getD [] ++ [a] ∨ k' ≠ k ∧ (k', l) ∈ streams := by
  induction streams with
  | nil => simp [addArrival]
  | cons q streams ih =>
    obtain ⟨c, m⟩ := q
    obtain ⟨hc, hkeys⟩ := List.nodup_cons.mp hkeys
    by_cases hk : k = c
    · subst hk
      have hne : (k', l) ∈ streams → k' ≠ k := by
        rintro hl rfl
        exact hc (List.mem_map.mpr ⟨_, hl, rfl⟩)
      simp only [addArrival, ↓reduceIte, List.mem_cons, Prod.mk.injEq, List.lookup_cons_self,
        Option.getD_some]
      grind
    · have hlookup : ((c, m) :: streams).lookup k = streams.lookup k := by
        rw [List.lookup_cons, beq_eq_false_iff_ne.mpr hk]
      simp only [addArrival, hk, ↓reduceIte, List.mem_cons, Prod.mk.injEq, hlookup, ih hkeys]
      grind

theorem keys_addArrival (k : StreamKey) (a : Arrival) (streams : List (StreamKey × List Arrival)) :
    (addArrival k a streams).map (·.1) =
      if k ∈ streams.map (·.1) then streams.map (·.1) else streams.map (·.1) ++ [k] := by
  induction streams with
  | nil => simp [addArrival]
  | cons q streams ih =>
    obtain ⟨c, m⟩ := q
    by_cases hk : k = c
    · simp [addArrival, hk]
    · simp only [addArrival, hk, ↓reduceIte, List.map_cons, ih, List.mem_cons, false_or]
      split <;> rfl

theorem keys_addArrival_nodup {k : StreamKey} {a : Arrival}
    {streams : List (StreamKey × List Arrival)} (hkeys : (streams.map (·.1)).Nodup) :
    ((addArrival k a streams).map (·.1)).Nodup := by
  rw [keys_addArrival]
  split
  · exact hkeys
  · rename_i hk
    simpa using hkeys.concat hk

/-- A row with an event id and a slot of its own comes last. -/
theorem Keeps.push (h : s.Keeps log) {r : EventRow} (hid : r.eventId ∉ log.map (·.row.eventId))
    (hslot : r.slot ∉ log.map (·.row.slot)) : (s.push r).Keeps (log ++ [⟨s.next, r⟩]) where
  increasing := by
    refine List.pairwise_append.mpr ⟨h.increasing, List.pairwise_singleton _ _, fun a ha b hb => ?_⟩
    rw [List.mem_singleton.mp hb]
    exact h.below a ha
  below := by
    intro a ha
    rcases List.mem_append.mp ha with ha | ha
    · exact Nat.lt_succ_of_lt (h.below a ha)
    · rw [List.mem_singleton.mp ha]
      exact Nat.lt_succ_self _
  keys := keys_addArrival_nodup h.keys
  stream := by
    intro k l hl
    rw [List.filter_append]
    rcases (mem_addArrival h.keys).mp hl with ⟨rfl, rfl⟩ | ⟨hk, hl⟩
    · have harrivals := h.arrivals_eq r.stream
      rw [arrivals] at harrivals
      rw [harrivals, List.filter_cons_of_pos (by simp), List.filter_nil]
    · rw [List.filter_cons_of_neg (by simpa using fun e => hk e.symm), List.filter_nil,
        List.append_nil]
      exact h.stream k l hl
  covered := by
    intro a ha
    have hkeys := keys_addArrival r.stream ⟨s.next, r⟩ s.streams
    rcases List.mem_append.mp ha with ha | ha
    · have := h.covered a ha
      rw [MemoryStore.push, hkeys]
      split <;> simp [this]
    · rw [List.mem_singleton.mp ha, MemoryStore.push, hkeys]
      split <;> simp_all
  index := by simp [MemoryStore.push, h.index]
  ids := by simpa using h.ids.concat hid
  slots := by simpa using h.slots.concat hslot

/-! ## Appending a batch -/

/-- A row is fresh, or a replay of the stored row with its event id, or clashes with that row. -/
private theorem fits_cons_of_mem {rows l : List EventRow} {r : EventRow}
    (hmem : r.eventId ∈ rows.map (·.eventId)) :
    Fits rows (r :: l) ↔ Fits rows l ∧ r.eventId ∉ l.map (·.eventId) ∧
      ∀ r' ∈ rows, r'.eventId = r.eventId → r'.slot = r.slot := by
  have hnew := newRows_cons_of_mem (l := l) hmem
  constructor
  · rintro ⟨hids, howned, hfree, hslots⟩
    rw [hnew] at hfree hslots
    obtain ⟨hr, hids⟩ := List.nodup_cons.mp hids
    exact ⟨⟨hids, fun x hx => howned x (List.mem_cons_of_mem _ hx), hfree, hslots⟩, hr,
      howned r List.mem_cons_self⟩
  · rintro ⟨⟨hids, howned, hfree, hslots⟩, hr, hown⟩
    refine ⟨List.nodup_cons.mpr ⟨hr, hids⟩, fun x hx => ?_, hnew ▸ hfree, hnew ▸ hslots⟩
    rcases List.mem_cons.mp hx with rfl | hx
    · exact hown
    · exact howned x hx

private theorem fits_cons_of_not_mem {rows l : List EventRow} {r : EventRow}
    (hmem : r.eventId ∉ rows.map (·.eventId)) :
    Fits rows (r :: l) ↔ Fits rows l ∧ r.eventId ∉ l.map (·.eventId) ∧
      r.slot ∉ rows.map (·.slot) ∧ r.slot ∉ (newRows rows l).map (·.slot) := by
  have hnew := newRows_cons_of_not_mem (l := l) hmem
  constructor
  · rintro ⟨hids, howned, hfree, hslots⟩
    rw [hnew] at hfree hslots
    obtain ⟨hr, hids⟩ := List.nodup_cons.mp hids
    obtain ⟨hs, hslots⟩ := List.nodup_cons.mp hslots
    exact ⟨⟨hids, fun x hx => howned x (List.mem_cons_of_mem _ hx),
      fun x hx => hfree x (List.mem_cons_of_mem _ hx), hslots⟩, hr,
      hfree r List.mem_cons_self, hs⟩
  · rintro ⟨⟨hids, howned, hfree, hslots⟩, hr, hf, hs⟩
    refine ⟨List.nodup_cons.mpr ⟨hr, hids⟩, fun x hx => ?_, fun x hx => ?_, ?_⟩
    · rcases List.mem_cons.mp hx with rfl | hx
      · exact fun r' hr' he => absurd (he ▸ List.mem_map_of_mem hr') hmem
      · exact howned x hx
    · rw [hnew] at hx
      rcases List.mem_cons.mp hx with rfl | hx
      · exact hf
      · exact hfree x hx
    · rw [hnew]
      exact List.nodup_cons.mpr ⟨hs, hslots⟩

/-- What the check of a batch comes to, given the event ids and the slots of its rows so far. -/
theorem Keeps.unstoredAfter_eq_ok_iff (h : s.Keeps log) {ids : List Uuid} {slots : List Slot}
    {l l' : List EventRow} :
    s.unstoredAfter ids slots l = .ok l' ↔
      Fits (log.map (·.row)) l ∧ (∀ r ∈ l, r.eventId ∉ ids) ∧
        (∀ r ∈ newRows (log.map (·.row)) l, r.slot ∉ slots) ∧
        l' = newRows (log.map (·.row)) l := by
  induction l generalizing ids slots l' with
  | nil =>
    have hfits : Fits (log.map (·.row)) [] :=
      ⟨by simp, by simp, by simp [newRows], by simp [newRows]⟩
    simp [unstoredAfter, hfits, newRows, eq_comm]
  | cons r l ih =>
    rw [unstoredAfter]
    by_cases hids : r.eventId ∈ ids
    · simp [hids]
    rw [if_neg hids]
    cases hslot : s.slotOf? r.eventId with
    | some slot =>
      obtain ⟨a, ha, hid, rfl⟩ := (h.slotOf?_eq_some_iff _ _).mp hslot
      have hmem : r.eventId ∈ (log.map (·.row)).map (·.eventId) := by
        simpa using ⟨a, ha, hid⟩
      have hown : a.row.slot = r.slot ↔
          ∀ r' ∈ log.map (·.row), r'.eventId = r.eventId → r'.slot = r.slot := by
        constructor
        · rintro heq r' hr' hid'
          obtain ⟨a', ha', rfl⟩ := List.mem_map.mp hr'
          have := (h.slotOf?_eq_some_iff _ _).mpr ⟨a', ha', hid', rfl⟩
          rw [hslot] at this
          exact (Option.some.inj this).symm.trans heq
        · exact fun hall => hall a.row (List.mem_map_of_mem ha) hid
      rw [fits_cons_of_mem hmem, newRows_cons_of_mem hmem, ← hown]
      dsimp only
      split
      · rw [ih]
        grind
      · grind
    | none =>
      have hmem : r.eventId ∉ (log.map (·.row)).map (·.eventId) := by
        simpa using (h.slotOf?_eq_none_iff _).mp hslot
      rw [fits_cons_of_not_mem hmem, newRows_cons_of_not_mem hmem]
      dsimp only
      split
      · rename_i hoccupied
        rw [h.occupied_iff] at hoccupied
        grind
      · rename_i hfree
        rw [h.occupied_iff] at hfree
        simp only [except_map_eq_ok_iff, ih]
        grind

theorem Keeps.unstored_eq_ok_iff (h : s.Keeps log) {l l' : List EventRow} :
    s.unstored l = .ok l' ↔ Fits (log.map (·.row)) l ∧ l' = newRows (log.map (·.row)) l := by
  rw [unstored, h.unstoredAfter_eq_ok_iff]
  simp

theorem isClash_of_unstoredAfter_eq_error {ids : List Uuid} {slots : List Slot} {l : List EventRow}
    {e : StorageError} (h : s.unstoredAfter ids slots l = .error e) : e.isClash := by
  induction l generalizing ids slots with
  | nil => simp [unstoredAfter] at h
  | cons r l ih =>
    rw [unstoredAfter] at h
    split at h
    · cases h
      rfl
    · split at h
      · split at h
        · exact ih h
        · cases h
          rfl
      · split at h
        · cases h
          rfl
        · cases hrest : s.unstoredAfter (r.eventId :: ids) (r.slot :: slots) l with
          | ok m => rw [hrest] at h; cases h
          | error x => rw [hrest] at h; cases h; exact ih hrest

/-- Rows with event ids and slots of their own come last, in their order. -/
theorem Keeps.foldl_push (h : s.Keeps log) {l : List EventRow}
    (hunique : Unique (log.map (·.row) ++ l)) :
    ∃ log', (l.foldl MemoryStore.push s).Keeps log' ∧ log'.map (·.row) = log.map (·.row) ++ l := by
  induction l generalizing s log with
  | nil => exact ⟨log, h, by simp⟩
  | cons r l ih =>
    rw [List.append_cons] at hunique
    obtain ⟨-, -, hid, hslot⟩ := unique_append.mp hunique.left
    have hpush : (s.push r).Keeps (log ++ [⟨s.next, r⟩]) :=
      h.push (by simpa using hid r List.mem_cons_self) (by simpa using hslot r List.mem_cons_self)
    obtain ⟨log', hkeeps, hrows⟩ := ih hpush (by simpa using hunique)
    exact ⟨log', hkeeps, by simpa using hrows⟩

/-! ## Rows alone -/

/-- The rows that a memory holds, in the order of their arrival. -/
def Holds (s : MemoryStore) (rows : List EventRow) : Prop :=
  ∃ log, s.Keeps log ∧ log.map (·.row) = rows

variable {rows l : List EventRow}

theorem holds_empty : ({} : MemoryStore).Holds [] := ⟨[], keeps_empty, rfl⟩

theorem Holds.unique (h : s.Holds rows) : Unique rows := by
  obtain ⟨log, hkeeps, rfl⟩ := h
  exact ⟨by simpa [Function.comp_def] using hkeeps.ids,
    by simpa [Function.comp_def] using hkeeps.slots⟩

theorem Holds.rows_eq (h : s.Holds rows) : s.rows = rows := by
  obtain ⟨log, hkeeps, rfl⟩ := h
  exact hkeeps.rows_eq

theorem Holds.read_eq (h : s.Holds rows) (f : EventFilter) : s.read f = rows.filter f.accepts := by
  obtain ⟨log, hkeeps, rfl⟩ := h
  exact hkeeps.read_eq f

/-- A batch that fits is stored, without the rows that are stored already. -/
theorem Holds.append_of_fits (h : s.Holds rows) (hfits : Fits rows l) :
    ∃ s', s.append l = .ok s' ∧ s'.Holds (rows ++ newRows rows l) := by
  have hunique := h.unique.append_newRows hfits
  obtain ⟨log, hkeeps, rfl⟩ := h
  obtain ⟨log', hkeeps', hrows⟩ := hkeeps.foldl_push hunique
  refine ⟨_, ?_, log', hkeeps', hrows⟩
  rw [append, hkeeps.unstored_eq_ok_iff.mpr ⟨hfits, rfl⟩]
  rfl

theorem Holds.append_of_not_fits (h : s.Holds rows) (hfits : ¬ Fits rows l) :
    ∃ e, s.append l = .error e ∧ e.isClash := by
  obtain ⟨log, hkeeps, rfl⟩ := h
  cases hl : s.unstored l with
  | ok l' => exact absurd (hkeeps.unstored_eq_ok_iff.mp hl).1 hfits
  | error e => exact ⟨e, by rw [append, hl]; rfl, isClash_of_unstoredAfter_eq_error hl⟩

theorem Holds.of_append_eq_ok (h : s.Holds rows) {s' : MemoryStore}
    (happend : s.append l = .ok s') :
    Fits rows l ∧ s'.Holds (rows ++ newRows rows l) := by
  by_cases hfits : Fits rows l
  · obtain ⟨s₁, hs₁, hholds⟩ := h.append_of_fits hfits
    obtain rfl : s₁ = s' := Except.ok.inj (hs₁.symm.trans happend)
    exact ⟨hfits, hholds⟩
  · obtain ⟨e, he, -⟩ := h.append_of_not_fits hfits
    rw [he] at happend
    cases happend

/-- Rows without a clash can be held: they are stored one after the other. -/
theorem holds_foldl_push (h : Unique rows) : (rows.foldl push {}).Holds rows := by
  obtain ⟨log, hkeeps, hrows⟩ := keeps_empty.foldl_push (l := rows) (by simpa using h)
  exact ⟨log, hkeeps, by simpa using hrows⟩

theorem storage_append_of_ok {s' : MemoryStore} (h : s.append l = .ok s') :
    storage.append l s = (.ok (), s') := by
  show ((StorageM.ofExcept (s.append l) >>= fun s' => set s') : StorageM MemoryStore Unit) s = _
  rw [h]
  rfl

theorem storage_append_of_error {e : StorageError} (h : s.append l = .error e) :
    storage.append l s = (.error e, s) := by
  show ((StorageM.ofExcept (s.append l) >>= fun s' => set s') : StorageM MemoryStore Unit) s = _
  rw [h]
  rfl

end MemoryStore

end EventStore
