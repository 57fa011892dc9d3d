import EventStore.Proofs.AcceptedBatches
import EventStore.Proofs.AppendAtomicity

/-!
# Batches that repeat an event

A memory checks a batch against itself before it looks at what is stored, and so refuses a batch
that has one event id twice. A table finds out from the database that a batch clashes, and then
takes away all rows that are stored already, of which there may be several with one event id.

Proved here, for every table of an ideal database:

* `newRows_once`: if the repeated event ids are stored, the new rows have event ids that occur once;
* `joins_iff`: a batch joins the rows exactly if its repeated rows are replays and the others fit;
* `append_cases`: so a batch that can be written is accepted in this case only;
* `repeats_are_taken_for_replays`: hence a memory refuses all batches that repeat an event id, and a
  table accepts those whose repeated rows are all stored.
-/

namespace EventStore

/-- The rows of a batch whose event ids occur in it once. -/
def once (l : List EventRow) : List EventRow :=
  l.filter fun r => (l.map (·.eventId)).count r.eventId = 1

/-- A batch each of whose repeated rows is a replay, and whose other rows fit. -/
structure RepeatsStored (rows l : List EventRow) : Prop where
  repeated : ∀ r ∈ l, 1 < (l.map (·.eventId)).count r.eventId → Replays rows r
  rest : Fits rows (once l)

variable {rows l : List EventRow} {r : EventRow}

/-! ## Rows that occur once -/

theorem count_eventId_pos (hr : r ∈ l) : 0 < (l.map (·.eventId)).count r.eventId :=
  List.count_pos_iff.mpr (List.mem_map_of_mem hr)

theorem nodup_once (l : List EventRow) : ((once l).map (·.eventId)).Nodup := by
  rw [List.nodup_iff_count_le_one]
  intro id
  by_cases hid : id ∈ (once l).map (·.eventId)
  · obtain ⟨r, hr, rfl⟩ := List.mem_map.mp hid
    have hone := (List.mem_filter.mp hr).2
    have hle : ((once l).map (·.eventId)).count r.eventId ≤ (l.map (·.eventId)).count r.eventId :=
      (List.filter_sublist.map _).count_le _
    simp only [decide_eq_true_eq] at hone
    omega
  · rw [List.count_eq_zero.mpr hid]
    omega

/-- Rows with repeated event ids are not new if those event ids are stored. -/
theorem newRows_once (h : ∀ r ∈ l, 1 < (l.map (·.eventId)).count r.eventId →
    r.eventId ∈ rows.map (·.eventId)) : newRows rows (once l) = newRows rows l := by
  rw [newRows, once, List.filter_filter, newRows]
  refine List.filter_congr fun r hr => ?_
  by_cases hid : r.eventId ∈ rows.map (·.eventId)
  · simp [hid]
  · have hpos := count_eventId_pos hr
    have hnot : ¬ 1 < (l.map (·.eventId)).count r.eventId := fun hmany => hid (h r hr hmany)
    have hone : (l.map (·.eventId)).count r.eventId = 1 := by omega
    simp [hone]

/-! ## What a table accepts -/

open TableStore

theorem TableStore.Joins.eventId_mem (h : Joins rows l)
    (hmany : 1 < (l.map (·.eventId)).count r.eventId) : r.eventId ∈ rows.map (·.eventId) := by
  by_contra hid
  obtain ⟨-, hnew, -, -⟩ := unique_append.mp h.unique
  have hids : (newRows rows l).map (·.eventId) =
      (l.map (·.eventId)).filter fun i => i ∉ rows.map (·.eventId) := by
    rw [List.filter_map]
    rfl
  have hcount := List.nodup_iff_count_le_one.mp hnew.ids r.eventId
  rw [hids, List.count_filter (by simpa using hid)] at hcount
  omega

theorem joins_iff (hrows : Unique rows) : Joins rows l ↔ RepeatsStored rows l := by
  constructor
  · intro h
    refine ⟨fun r hr hmany => replays_of_mem (h.owned r hr) (h.eventId_mem hmany), ?_⟩
    have hunique := h.unique
    rw [← newRows_once fun _ _ => h.eventId_mem] at hunique
    exact Joins.fits ⟨fun r hr => h.owned r (List.mem_filter.mp hr).1, hunique⟩ (nodup_once l)
  · rintro ⟨hrepeated, hrest⟩
    refine ⟨fun r hr r' hr' hid => ?_, ?_⟩
    · by_cases hmany : 1 < (l.map (·.eventId)).count r.eventId
      · obtain ⟨r'', hr'', hid', hslot⟩ := hrepeated r hr hmany
        rwa [List.inj_on_of_nodup_map hrows.ids hr' hr'' (hid.trans hid'.symm)]
      · have hone : r ∈ once l := by
          have := count_eventId_pos hr
          exact List.mem_filter.mpr ⟨hr, by simp only [decide_eq_true_eq]; omega⟩
        exact hrest.owned r hone r' hr' hid
    · rw [← newRows_once fun r hr hmany => (hrepeated r hr hmany).eventId_mem]
      exact hrows.append_newRows hrest

namespace TableStore

open Sql

variable {σ : Type} {s : TableStore} {x : Executor σ} {table : σ → List EventRow} {k : Collation}

/-- A batch is stored if it can be written, its repeated rows are replays and the others fit, and is
refused otherwise. -/
theorem append_cases (hs : Reads s.dialect) (hx : Ideal s x table k) (hrows : Unique rows) {d : σ}
    (hd : (table d).Perm rows) (l : List EventRow) :
    (∃ d', s.append x l d = (.ok (), d') ∧ (∀ r ∈ l, r.Storable) ∧ RepeatsStored rows l ∧
      (table d').Perm (rows ++ newRows rows (once l))) ∨
    (∃ e d', s.append x l d = (.error e, d') ∧ ¬ ((∀ r ∈ l, r.Storable) ∧ RepeatsStored rows l) ∧
      (table d').Perm rows) := by
  by_cases hl : ∀ r ∈ l, r.Storable
  · by_cases hjoins : Joins rows l
    · obtain ⟨d', happend, htable⟩ := append_of_joins hs hx hd hrows hl hjoins
      rw [← newRows_once fun _ _ => hjoins.eventId_mem] at htable
      exact Or.inl ⟨d', happend, hl, (joins_iff hrows).mp hjoins, htable⟩
    · obtain ⟨e, d', happend, -, htable⟩ := append_of_not_joins hs hx hd hrows hl hjoins
      exact Or.inr ⟨e, d', happend, fun h => hjoins ((joins_iff hrows).mpr h.2), htable⟩
  · have hne : l ≠ [] := by
      rintro rfl
      exact hl (by simp)
    cases hstatements : s.insertStatements l with
    | ok statements => exact absurd (storable_of_insertStatements hstatements) hl
    | error e =>
      have happend : s.append x l d = (.error e, d) := by
        rw [append, if_neg (by simpa using hne), hstatements]
        rfl
      exact Or.inr ⟨e, d, happend, fun h => hl h.1, hd⟩

/-- A batch that has an event id twice is refused by a memory, which it leaves as it is. A table
accepts it exactly if it can be written, all rows whose event ids are repeated are stored already in
their slots, and the other rows fit; then it stores the new ones of these, and otherwise nothing. -/
theorem repeats_are_taken_for_replays (hs : Reads s.dialect) (hx : Ideal s x table k)
    {m : MemoryStore} (hm : m.Holds rows) {d : σ} (hd : (table d).Perm rows)
    (hrepeats : ¬ (l.map (·.eventId)).Nodup) :
    let inTable := (s.storage x).append l d
    let inMemory := MemoryStore.storage.append l m
    (∃ e, inMemory = (.error e, m)) ∧
      (inTable.1 = .ok () ↔ (∀ r ∈ l, r.Storable) ∧ RepeatsStored rows l) ∧
      (inTable.1 = .ok () → (table inTable.2).Perm (rows ++ newRows rows (once l))) ∧
      ∀ e, inTable.1 = .error e → (table inTable.2).Perm rows := by
  intro inTable inMemory
  obtain ⟨e, hmemory, -⟩ := hm.append_of_not_fits fun hfits => hrepeats hfits.ids
  refine ⟨⟨e, MemoryStore.storage_append_of_error hmemory⟩, ?_⟩
  rcases append_cases hs hx hm.unique hd l with
    ⟨d', happend, hl, hstored, htable⟩ | ⟨e, d', happend, hnot, htable⟩
  · have hinTable : inTable = (.ok (), d') := happend
    rw [hinTable]
    exact ⟨iff_of_true rfl ⟨hl, hstored⟩, fun _ => htable, nofun⟩
  · have hinTable : inTable = (.error e, d') := happend
    rw [hinTable]
    exact ⟨iff_of_false nofun hnot, nofun, fun _ _ => htable⟩

/-- The second version of an aggregate is twice in a batch, and is not stored. -/
theorem new_event_is_refused_twice :
    let rows := [firstRow]
    let l := [secondRow, firstRow, secondRow]
    let m := rows.foldl MemoryStore.push {}
    Reads eventsTable.dialect ∧ Ideal eventsTable idealDatabase id plainCollation ∧
      m.Holds rows ∧ ¬ (l.map (·.eventId)).Nodup ∧
      (∃ e, MemoryStore.storage.append l m = (.error e, m)) ∧
      ∃ e d, (eventsTable.storage idealDatabase).append l rows = (.error e, d) ∧ d.Perm rows := by
  intro rows l m
  have hs : Reads eventsTable.dialect := reads_dialect .generic
  have hx := ideal_idealDatabase eventsTable
  have hm : m.Holds rows := MemoryStore.holds_foldl_push ⟨by decide, by decide⟩
  have hrepeats : ¬ (l.map (·.eventId)).Nodup := by decide
  obtain ⟨hmemory, haccepted, -, hrefused⟩ :=
    repeats_are_taken_for_replays hs hx hm (d := rows) (List.Perm.refl _) hrepeats
  refine ⟨hs, hx, hm, hrepeats, hmemory, ?_⟩
  have hnot : ¬ RepeatsStored rows l := fun h =>
    absurd (h.repeated secondRow (by decide) (by decide)) (by decide)
  cases hresult : (eventsTable.storage idealDatabase).append l rows with
  | mk result d =>
    rw [hresult] at haccepted hrefused
    cases result with
    | ok _ => exact absurd (haccepted.mp rfl).2 hnot
    | error e => exact ⟨e, d, rfl, hrefused e rfl⟩

/-- A table accepts a batch with the first version twice, which is stored already, and adds the
second version to it. A memory refuses the same batch. -/
theorem repeated_event_is_accepted :
    let rows := [firstRow]
    let l := [firstRow, firstRow, secondRow]
    let m := rows.foldl MemoryStore.push {}
    Ideal eventsTable idealDatabase id plainCollation ∧ ¬ (l.map (·.eventId)).Nodup ∧
      (∃ d, (eventsTable.storage idealDatabase).append l rows = (.ok (), d) ∧
        d.Perm [firstRow, secondRow]) ∧
      ∃ e, MemoryStore.storage.append l m = (.error e, m) := by
  intro rows l m
  have hx := ideal_idealDatabase eventsTable
  have hrows : Unique rows := ⟨by decide, by decide⟩
  have hrepeats : ¬ (l.map (·.eventId)).Nodup := by decide
  have hl : ∀ r ∈ l, r.Storable := by decide
  have hjoins : Joins rows l := ⟨by decide, ⟨by decide, by decide⟩⟩
  obtain ⟨d, happend, htable⟩ :=
    append_of_joins (reads_dialect .generic) hx (List.Perm.refl _) hrows hl hjoins
  obtain ⟨e, hmemory, -⟩ := (MemoryStore.holds_foldl_push hrows).append_of_not_fits fun hfits =>
    hrepeats hfits.ids
  exact ⟨hx, hrepeats, ⟨d, happend, htable⟩, e, MemoryStore.storage_append_of_error hmemory⟩

end TableStore

end EventStore
