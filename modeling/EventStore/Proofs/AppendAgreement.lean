import EventStore.Proofs.IdealDatabase
import EventStore.Proofs.Runs

/-!
# A table and a memory append alike

Proved here, for every table of an ideal database and every batch:

* `mem_readBack`: after a clash the storage reads back the rows of the streams of its batch;
* `pendingRows_of_joins`, `not_unique_of_pendingRows`: if the batch `Joins` the rows, then those it
  finds still to be inserted are the new ones, and if it does not, then they clash again;
* `append_of_joins`, `append_of_not_joins`: so an append stores the new rows of a batch that joins
  the rows, and fails otherwise;
* `append_of_fits`, `append_of_not_fits`: among batches that repeat no event id these are those that
  fit;
* `append_agrees`: a memory with the same rows decides alike, and ends with the same rows.
-/

namespace EventStore.TableStore

open Sql

variable {rows stored l p : List EventRow}

/-! ## Reading back -/

/-- The aggregates of one type that a batch has rows of. -/
theorem mem_idsOfType {aggregateType id : String} :
    id ∈ (Entries.ofList (((l.filter (·.aggregateType = aggregateType)).map
      (·.aggregateId)).map (·, ()))).toList.map (·.1) ↔
      ∃ r ∈ l, r.aggregateType = aggregateType ∧ r.aggregateId = id := by
  rw [mem_keys_ofList, List.map_map]
  simp [and_assoc]

theorem accepts_streamFilters_iff (r : EventRow) :
    (∃ f ∈ streamFilters l, f.accepts r) ↔ ∃ r' ∈ l, r'.stream = r.stream := by
  have hstream : ∀ r' : EventRow, r'.stream = r.stream ↔
      r'.aggregateType = r.aggregateType ∧ r'.aggregateId = r.aggregateId := by
    simp [EventRow.stream]
  constructor
  · rintro ⟨f, hf, haccepts⟩
    obtain ⟨aggregateType, -, rfl⟩ := List.mem_map.mp hf
    simp only [EventFilter.accepts, Option.all_some, Option.all_none, Bool.and_true,
      Bool.and_eq_true, decide_eq_true_eq] at haccepts
    obtain ⟨rfl, hid⟩ := haccepts
    obtain ⟨r', hr', hsame⟩ := mem_idsOfType.mp hid
    exact ⟨r', hr', (hstream r').mpr hsame⟩
  · rintro ⟨r', hr', hsame⟩
    obtain ⟨htype, hid⟩ := (hstream r').mp hsame
    have htypes : r'.aggregateType ∈ (l.map (·.aggregateType)).eraseDups :=
      List.mem_eraseDups.mpr (List.mem_map_of_mem hr')
    refine ⟨_, List.mem_map.mpr ⟨_, htypes, rfl⟩, ?_⟩
    simp only [EventFilter.accepts, Option.all_some, Option.all_none, Bool.and_true,
      Bool.and_eq_true, decide_eq_true_eq]
    exact ⟨htype.symm, mem_idsOfType.mpr ⟨r', hr', rfl, hid⟩⟩

theorem maxVersion_of_mem_streamFilters {f : EventFilter} (h : f ∈ streamFilters l) :
    f.maxVersion = none := by
  obtain ⟨_, -, rfl⟩ := List.mem_map.mp h
  rfl

theorem isEmptySelection_of_mem_streamFilters {f : EventFilter} (h : f ∈ streamFilters l) :
    f.isEmptySelection = false := by
  obtain ⟨aggregateType, htype, rfl⟩ := List.mem_map.mp h
  obtain ⟨r, hr, rfl⟩ := List.mem_map.mp (List.mem_eraseDups.mp htype)
  have hmem := mem_idsOfType.mpr ⟨r, hr, rfl, rfl⟩
  unfold EventFilter.isEmptySelection
  rw [decide_eq_false_iff_not]
  intro hnil
  rw [Option.some.inj hnil] at hmem
  cases hmem

variable {σ : Type} {s : TableStore} {x : Executor σ} {table : σ → List EventRow} {k : Collation}

theorem read_of_mem_streamFilters (hs : Reads s.dialect) {f : EventFilter}
    (hf : f ∈ streamFilters l) (x : Executor σ) :
    ∃ statement, s.selectStatement f = .ok statement ∧ s.read x f = x.queryEvents statement := by
  have hsome := isEmptySelection_of_mem_streamFilters hf
  have hstatement := selectStatement_eq hs hsome (maxVersion_of_mem_streamFilters hf)
  refine ⟨_, hstatement, ?_⟩
  unfold selectStatement at hstatement
  rw [TableStore.read, hsome, if_neg (by simp), run, hstatement]

theorem meets_of_mem_streamFilters (hk : Exact k) {f : EventFilter} (hf : f ∈ streamFilters l)
    (r : EventRow) : k.meets r.value (s.select f) = f.accepts r :=
  (hk.meets_select f r).trans (acceptsCells_eq (Or.inl (maxVersion_of_mem_streamFilters hf)))

theorem read_ideal (hs : Reads s.dialect) (hx : Ideal s x table k) {d : σ}
    (hd : (table d).Perm rows) {f : EventFilter} (hf : f ∈ streamFilters l) :
    ∃ out d', s.read x f d = (.ok out, d') ∧ out.Perm (rows.filter f.accepts) ∧
      (table d').Perm rows := by
  obtain ⟨statement, hstatement, hread⟩ := read_of_mem_streamFilters hs hf x
  obtain ⟨out, d', hquery, hd', hout⟩ := hx.answers (d := d) hstatement
  simp only [meets_of_mem_streamFilters hx.exact hf] at hout
  exact ⟨out, d', by rw [hread, hquery], hout.trans (hd.filter _), hd'.trans hd⟩

/-- The rows that are read for the streams of a batch. -/
theorem mem_flatten_of_reads {outs : List (List EventRow)}
    (h : List.Forall₂ (fun (f : EventFilter) out => out.Perm (rows.filter f.accepts))
      (streamFilters l) outs) (r : EventRow) :
    r ∈ outs.flatten ↔ r ∈ rows ∧ ∃ r' ∈ l, r'.stream = r.stream := by
  rw [← accepts_streamFilters_iff]
  generalize streamFilters l = fs at h
  induction h with
  | nil => simp
  | cons hout _ ih =>
    rw [List.flatten_cons, List.mem_append, ih, hout.mem_iff, List.mem_filter]
    simp only [List.exists_mem_cons_iff]
    rw [← and_or_left]

/-- What is read back: the stored rows of the streams of a batch. -/
theorem mem_readBack (hs : Reads s.dialect) (hx : Ideal s x table k) {d : σ}
    (hd : (table d).Perm rows) :
    ∃ outs d', (streamFilters l).mapM (s.read x) d = (.ok outs, d') ∧ (table d').Perm rows ∧
      ∀ r, r ∈ outs.flatten ↔ r ∈ rows ∧ ∃ r' ∈ l, r'.stream = r.stream := by
  obtain ⟨outs, d', hread, hall, hd'⟩ := mapM_of_ok (P := fun d => (table d).Perm rows)
    (R := fun f (out : List EventRow) => out.Perm (rows.filter f.accepts)) (streamFilters l)
    (fun f hf d hd => read_ideal hs hx hd hf) d hd
  exact ⟨outs, d', hread, hd', mem_flatten_of_reads hall⟩

/-! ## What is still to be inserted -/

/-- The last stored row with the event id of a row. -/
def storedAs (stored : List EventRow) (r : EventRow) : Option EventRow :=
  stored.reverse.find? (·.eventId = r.eventId)

theorem storedAs_eq_some {r r' : EventRow} (h : storedAs stored r = some r') :
    r' ∈ stored ∧ r'.eventId = r.eventId :=
  ⟨List.mem_reverse.mp (List.mem_of_find?_eq_some h), by simpa using List.find?_some h⟩

theorem storedAs_isNone_iff {r : EventRow} :
    (storedAs stored r).isNone ↔ ∀ r' ∈ stored, r'.eventId ≠ r.eventId := by
  simp [storedAs]

theorem pendingRows_eq (stored l : List EventRow) :
    pendingRows stored l =
      if l.all fun r => (storedAs stored r).all fun r' => r'.slot = r.slot then
        if (l.filter fun r => (storedAs stored r).isNone).length = l.length then none
        else some (l.filter fun r => (storedAs stored r).isNone)
      else none := rfl

theorem pendingRows_eq_some (h : pendingRows stored l = some p) :
    (∀ r ∈ l, ∀ r', storedAs stored r = some r' → r'.slot = r.slot) ∧
      p = l.filter fun r => (storedAs stored r).isNone := by
  rw [pendingRows_eq] at h
  split at h
  · rename_i hall
    split at h
    · cases h
    · refine ⟨fun r hr r' hr' => ?_, (Option.some.inj h).symm⟩
      have := List.all_eq_true.mp hall r hr
      rw [hr'] at this
      simpa using this
  · cases h

/-- A batch whose event ids are stored, if at all, in the slots of its rows, and whose new rows clash
with no stored row and with none of each other. It may repeat event ids that are stored. -/
structure Joins (rows l : List EventRow) : Prop where
  owned : ∀ r ∈ l, ∀ r' ∈ rows, r'.eventId = r.eventId → r'.slot = r.slot
  unique : Unique (rows ++ newRows rows l)

theorem joins_of_fits (hrows : Unique rows) (h : Fits rows l) : Joins rows l :=
  ⟨h.owned, hrows.append_newRows h⟩

theorem Joins.fits (h : Joins rows l) (hids : (l.map (·.eventId)).Nodup) : Fits rows l := by
  obtain ⟨-, hnew, -, hfree⟩ := unique_append.mp h.unique
  exact ⟨hids, h.owned, hfree, hnew.slots⟩

theorem pendingRows_of_joins (hjoins : Joins rows l) (hclash : ¬ Unique (rows ++ l))
    (hstored : ∀ r, r ∈ stored ↔ r ∈ rows ∧ ∃ r' ∈ l, r'.stream = r.stream) :
    pendingRows stored l = some (newRows rows l) := by
  have hnew : (l.filter fun r => (storedAs stored r).isNone) = newRows rows l := by
    refine List.filter_congr fun r hr => ?_
    rw [Bool.eq_iff_iff, storedAs_isNone_iff, decide_eq_true_eq, List.mem_map]
    constructor
    · rintro hnone ⟨r', hr', hid⟩
      -- A stored row with this event id has this slot, so it is in a stream that was read back.
      have hslot := hjoins.owned r hr r' hr' hid
      exact hnone r' ((hstored r').mpr ⟨hr', r, hr, (congrArg Slot.stream hslot).symm⟩) hid
    · rintro hnone r' hr' hid
      exact hnone ⟨r', ((hstored r').mp hr').1, hid⟩
  have hlength : (newRows rows l).length ≠ l.length := by
    intro hlen
    have hall : newRows rows l = l := List.filter_sublist.eq_of_length hlen
    have hunique := hjoins.unique
    rw [hall] at hunique
    exact hclash hunique
  rw [pendingRows_eq, hnew, if_neg hlength, if_pos]
  refine List.all_eq_true.mpr fun r hr => ?_
  cases hfind : storedAs stored r with
  | none => rfl
  | some r' =>
    obtain ⟨hmem, hid⟩ := storedAs_eq_some hfind
    simpa using hjoins.owned r hr r' ((hstored r').mp hmem).1 hid

theorem not_unique_of_pendingRows (hrows : Unique rows) (hjoins : ¬ Joins rows l)
    (hstored : ∀ r ∈ stored, r ∈ rows) (h : pendingRows stored l = some p) :
    ¬ Unique (rows ++ p) := by
  obtain ⟨hsame, rfl⟩ := pendingRows_eq_some h
  intro hunique
  obtain ⟨-, hp, hpids, hpslots⟩ := unique_append.mp hunique
  -- A row whose event id is not stored is still to be inserted.
  have hpending : ∀ r ∈ newRows rows l, (storedAs stored r).isNone := by
    intro r hr
    rw [storedAs_isNone_iff]
    exact fun r' hr' hid => (mem_newRows.mp hr).2 (List.mem_map.mpr ⟨r', hstored r' hr', hid⟩)
  have heq : newRows rows l = newRows rows (l.filter fun r => (storedAs stored r).isNone) := by
    rw [newRows, newRows, List.filter_filter]
    refine List.filter_congr fun r hr => ?_
    by_cases hmem : r.eventId ∈ rows.map (·.eventId)
    · simp [hmem]
    · rw [hpending r (mem_newRows.mpr ⟨hr, hmem⟩), Bool.and_true]
  refine hjoins ⟨fun r hr r' hr' hid => ?_, ?_⟩
  · cases hfind : storedAs stored r with
    | none =>
      have hmem : r ∈ l.filter fun r => (storedAs stored r).isNone :=
        List.mem_filter.mpr ⟨hr, by rw [hfind]; rfl⟩
      exact absurd (List.mem_map.mpr ⟨r', hr', hid⟩) (hpids r hmem)
    | some r'' =>
      obtain ⟨hmem, hid'⟩ := storedAs_eq_some hfind
      obtain rfl : r'' = r' :=
        List.inj_on_of_nodup_map hrows.ids (hstored r'' hmem) hr' (hid'.trans hid.symm)
      exact hsame r hr r'' hfind
  · rw [heq, newRows_eq_self hpids]
    exact hunique

/-! ## The append -/

section Append

variable (hx : Ideal s x table k) {d : σ} (hd : (table d).Perm rows) (hl : ∀ r ∈ l, r.Storable)

include hx hd hl

theorem insert_of_unique (hunique : Unique (rows ++ l)) :
    ∃ d', s.insert x l d = (.ok (), d') ∧ (table d').Perm (rows ++ l) := by
  obtain ⟨statements, hstatements, hbuild⟩ := build_insertions (s := s) hl
  have hd' : (table d ++ l).Perm (rows ++ l) := hd.append_right l
  obtain ⟨d', hrun, htable⟩ := hx.stores hbuild (brings_insertions hl) (hunique.of_perm hd'.symm)
  refine ⟨d', ?_, htable.trans hd'⟩
  rw [insert, hstatements]
  exact hrun

theorem insert_of_not_unique (hrows : Unique rows) (hunique : ¬ Unique (rows ++ l)) :
    ∃ e d', s.insert x l d = (.error e, d') ∧ e.isClash ∧ (table d').Perm rows := by
  obtain ⟨statements, hstatements, hbuild⟩ := build_insertions (s := s) hl
  have hd' : (table d ++ l).Perm (rows ++ l) := hd.append_right l
  obtain ⟨e, d', hrun, hclash, htable⟩ := hx.refuses hbuild (brings_insertions hl)
    (hrows.of_perm hd.symm) fun h => hunique (h.of_perm hd')
  refine ⟨e, d', ?_, hclash, htable.trans hd⟩
  rw [insert, hstatements]
  exact hrun

end Append

/-- The insertion of the whole batch, and what is done after a clash. -/
theorem append_eq (hl : ∀ r ∈ l, r.Storable) (hne : l ≠ []) :
    s.append x l = tryCatch (s.insert x l) fun e =>
      if e.isClash then do
        let pending ← s.unstored x l e
        if pending.isEmpty then pure () else s.insert x pending
      else throw e := by
  obtain ⟨statements, hstatements, -⟩ := build_insertions (s := s) hl
  unfold append insert
  rw [if_neg (by simpa using hne), hstatements]
  rfl

theorem unstored_eq {d d' : σ} {outs : List (List EventRow)} {e : StorageError}
    (hread : (streamFilters l).mapM (s.read x) d = (.ok outs, d')) :
    s.unstored x l e d =
      (match pendingRows outs.flatten l with
        | some pending => .ok pending
        | none => .error e, d') := by
  rw [unstored, bind_of_ok hread]
  cases pendingRows outs.flatten l <;> rfl

section Append

variable (hs : Reads s.dialect) (hx : Ideal s x table k) {d : σ} (hd : (table d).Perm rows)
  (hrows : Unique rows) (hl : ∀ r ∈ l, r.Storable)

include hs hx hd hrows hl

/-- The new rows of a batch that joins the rows are stored, at once or after a clash. -/
theorem append_of_joins (hjoins : Joins rows l) :
    ∃ d', s.append x l d = (.ok (), d') ∧ (table d').Perm (rows ++ newRows rows l) := by
  by_cases hne : l = []
  · subst hne
    exact ⟨d, rfl, by simpa [newRows] using hd⟩
  rw [append_eq hl hne]
  by_cases hunique : Unique (rows ++ l)
  · obtain ⟨d', hrun, htable⟩ := insert_of_unique hx hd hl hunique
    obtain ⟨-, -, hids, -⟩ := unique_append.mp hunique
    exact ⟨d', tryCatch_of_ok hrun, by rwa [newRows_eq_self hids]⟩
  · obtain ⟨e, d₁, hrun, hclash, hd₁⟩ := insert_of_not_unique hx hd hl hrows hunique
    obtain ⟨outs, d₂, hread, hd₂, hmem⟩ := mem_readBack (l := l) hs hx hd₁
    have hpending := pendingRows_of_joins hjoins hunique hmem
    have hunstored : s.unstored x l e d₁ = (.ok (newRows rows l), d₂) := by
      rw [unstored_eq hread, hpending]
    rw [tryCatch_of_error hrun, if_pos hclash, bind_of_ok hunstored]
    by_cases hnil : newRows rows l = []
    · exact ⟨d₂, by rw [hnil]; rfl, by simpa [hnil] using hd₂⟩
    · rw [if_neg (by simpa using hnil)]
      exact insert_of_unique hx hd₂ (fun r hr => hl r (mem_newRows.mp hr).1) hjoins.unique

/-- Any other batch is refused as a whole. -/
theorem append_of_not_joins (hjoins : ¬ Joins rows l) :
    ∃ e d', s.append x l d = (.error e, d') ∧ e.isClash ∧ (table d').Perm rows := by
  have hne : l ≠ [] := by
    rintro rfl
    exact hjoins ⟨by simp, by simpa [newRows] using hrows⟩
  have hunique : ¬ Unique (rows ++ l) := by
    intro h
    obtain ⟨-, -, hfresh, -⟩ := unique_append.mp h
    refine hjoins ⟨fun r hr r' hr' hid => ?_, by rwa [newRows_eq_self hfresh]⟩
    exact absurd (List.mem_map.mpr ⟨r', hr', hid⟩) (hfresh r hr)
  rw [append_eq hl hne]
  obtain ⟨e, d₁, hrun, hclash, hd₁⟩ := insert_of_not_unique hx hd hl hrows hunique
  obtain ⟨outs, d₂, hread, hd₂, hmem⟩ := mem_readBack (l := l) hs hx hd₁
  rw [tryCatch_of_error hrun, if_pos hclash]
  have hunstored := unstored_eq (s := s) (e := e) hread
  cases hpending : pendingRows outs.flatten l with
  | none =>
    rw [hpending] at hunstored
    exact ⟨e, d₂, bind_of_error hunstored, hclash, hd₂⟩
  | some p =>
    rw [hpending] at hunstored
    have hagain := not_unique_of_pendingRows hrows hjoins (fun r hr => ((hmem r).mp hr).1) hpending
    have hpne : p ≠ [] := by
      rintro rfl
      exact hagain (by simpa using hrows)
    have hp : ∀ r ∈ p, r.Storable := by
      rw [(pendingRows_eq_some hpending).2]
      exact fun r hr => hl r (List.mem_filter.mp hr).1
    rw [bind_of_ok hunstored, if_neg (by simpa using hpne)]
    exact insert_of_not_unique hx hd₂ hp hrows hagain

theorem append_of_fits (hfits : Fits rows l) :
    ∃ d', s.append x l d = (.ok (), d') ∧ (table d').Perm (rows ++ newRows rows l) :=
  append_of_joins hs hx hd hrows hl (joins_of_fits hrows hfits)

theorem append_of_not_fits (hids : (l.map (·.eventId)).Nodup) (hfits : ¬ Fits rows l) :
    ∃ e d', s.append x l d = (.error e, d') ∧ e.isClash ∧ (table d').Perm rows :=
  append_of_not_joins hs hx hd hrows hl fun hjoins => hfits (hjoins.fits hids)

end Append

/-- A table and a memory that hold the same rows accept the same batches. Then both hold the new
rows of the batch too; a batch that is refused leaves both as they were. -/
theorem append_agrees (hs : Reads s.dialect) (hx : Ideal s x table k) {m : MemoryStore}
    (hm : m.Holds rows) {d : σ} (hd : (table d).Perm rows) (hl : ∀ r ∈ l, r.Storable)
    (hids : (l.map (·.eventId)).Nodup) :
    let inTable := (s.storage x).append l d
    let inMemory := MemoryStore.storage.append l m
    (inTable.1 = .ok () ↔ inMemory.1 = .ok ()) ∧
      (inMemory.1 = .ok () → (table inTable.2).Perm (rows ++ newRows rows l) ∧
        inMemory.2.Holds (rows ++ newRows rows l)) ∧
      (inMemory.1 ≠ .ok () → (table inTable.2).Perm rows ∧ inMemory.2 = m) := by
  intro inTable inMemory
  by_cases hfits : Fits rows l
  · obtain ⟨d', happend, htable⟩ := append_of_fits hs hx hd hm.unique hl hfits
    obtain ⟨m', hmemory, hholds⟩ := hm.append_of_fits hfits
    have hinTable : inTable = (.ok (), d') := happend
    have hinMemory : inMemory = (.ok (), m') := MemoryStore.storage_append_of_ok hmemory
    rw [hinTable, hinMemory]
    exact ⟨Iff.rfl, fun _ => ⟨htable, hholds⟩, fun h => absurd rfl h⟩
  · obtain ⟨e, d', happend, -, htable⟩ := append_of_not_fits hs hx hd hm.unique hl hids hfits
    obtain ⟨e', hmemory, -⟩ := hm.append_of_not_fits hfits
    have hinTable : inTable = (.error e, d') := happend
    have hinMemory : inMemory = (.error e', m) := MemoryStore.storage_append_of_error hmemory
    rw [hinTable, hinMemory]
    exact ⟨by simp, nofun, fun _ => ⟨htable, rfl⟩⟩

/-- The table that the events are usually kept in. -/
def eventsTable : TableStore := ⟨.generic, ⟨none, .named ⟨"Events", by decide, by decide⟩ none⟩⟩

/-- The first version of an aggregate. -/
def firstRow : EventRow where
  aggregateType := "Account"
  aggregateId := "ann"
  eventType := "AccountOpened"
  body := "null"
  eventId := ⟨1⟩
  actorId := none
  occurredOn := .epoch
  version := 1
  deleteAction := "None"

/-- The second version of the aggregate. -/
def secondRow : EventRow := { firstRow with eventId := ⟨2⟩, version := 2 }

/-- A batch whose first row is stored already: both storages add the second one. -/
theorem append_agrees_on_replay :
    let rows := [firstRow]
    let l := [firstRow, secondRow]
    let m := rows.foldl MemoryStore.push {}
    Reads eventsTable.dialect ∧ Ideal eventsTable idealDatabase id plainCollation ∧
      m.Holds rows ∧ (∀ r ∈ l, r.Storable) ∧ (l.map (·.eventId)).Nodup ∧
      let inTable := (eventsTable.storage idealDatabase).append l rows
      let inMemory := MemoryStore.storage.append l m
      (inTable.1 = .ok () ↔ inMemory.1 = .ok ()) ∧
        (inMemory.1 = .ok () → (id inTable.2).Perm (rows ++ newRows rows l) ∧
          inMemory.2.Holds (rows ++ newRows rows l)) ∧
        (inMemory.1 ≠ .ok () → (id inTable.2).Perm rows ∧ inMemory.2 = m) := by
  intro rows l m
  have hs : Reads eventsTable.dialect := reads_dialect .generic
  have hx := ideal_idealDatabase eventsTable
  have hm : m.Holds rows := MemoryStore.holds_foldl_push ⟨by decide, by decide⟩
  have hl : ∀ r ∈ l, r.Storable := by
    intro r hr
    rcases List.mem_cons.mp hr with rfl | hr
    · decide
    · rw [List.mem_singleton.mp hr]
      decide
  have hids : (l.map (·.eventId)).Nodup := by decide
  exact ⟨hs, hx, hm, hl, hids, append_agrees hs hx hm (List.Perm.refl _) hl hids⟩

end EventStore.TableStore
