import EventStore.Proofs.Grouping
import EventStore.Proofs.MemoryRuns
import EventStore.Proofs.Writers

/-!
# Loads of many aggregates

Many aggregates are loaded by one read, whose rows are grouped, and a single one by a read of its
own. Whatever rows a memory holds, the groups are the rows of the single reads.

Proved here, for every type of aggregates:

* `replayRows_eq_map`: the rows of a single load are replayed as a group of them is;
* `exists_ofMany_iff`, `gathers_ofMany`: so many aggregates can be rebuilt if each of them can, and
  come in the order of their first rows;
* `replayRows_withoutDeleted`, `aggregatesOfRows_withoutDeleted`: deleted aggregates are left out at
  the end;
* `FromSaves.identified`: saves write no row without the identity of an aggregate;
* `bulk_loads_agree`: hence loads of many aggregates agree with those of each, and a load of all with
  the load of those that are stored.
-/

namespace EventStore

namespace Mapping

variable {S P : Type} {m : Mapping S P} {options : LoadOptions} {rows : List EventRow}
  {ids : List AggregateId} {id : AggregateId} {a : Aggregate S P} {l : List (Aggregate S P)}

/-! ## One aggregate -/

/-- Rows that there are are replayed as a group, and a deleted aggregate may be held back. -/
theorem replayRows_eq_map (hrows : rows ≠ []) : m.replayRows id options rows =
    (m.rebuildRows id.text rows).map fun a => if keeps options a then some a else none := by
  unfold replayRows rebuildRows
  cases hevents : rows.mapM m.ofRow with
  | error e => rfl
  | ok events =>
    cases events with
    | nil => exact absurd (List.forall₂_nil_right_iff.mp (forall₂_of_mapM hevents)) hrows
    | cons e events =>
      simp only [bind, Except.bind, rebuild, Identity.ofText_text]
      cases Aggregate.replay m.blueprint id (e :: events) <;> rfl

theorem replayRows_eq_some_iff_keeps : m.replayRows id options rows = .ok (some a) ↔
    rows ≠ [] ∧ m.rebuildRows id.text rows = .ok a ∧ keeps options a := by
  by_cases hrows : rows = []
  · simp [hrows, replayRows, pure, Except.pure]
  · rw [replayRows_eq_map hrows, except_map_eq_ok_iff]
    constructor
    · rintro ⟨b, hb, hkept⟩
      obtain ⟨hkeeps, rfl⟩ := Option.ite_none_right_eq_some.mp hkept |>.imp_right Option.some.inj
      exact ⟨hrows, hb, hkeeps⟩
    · rintro ⟨-, ha, hkeeps⟩
      exact ⟨a, ha, if_pos hkeeps⟩

theorem id_of_replayRows (h : m.replayRows id options rows = .ok (some a)) : a.id = id := by
  obtain ⟨-, hrebuild, -⟩ := replayRows_eq_some_iff_keeps.mp h
  exact Identity.ext ((id_of_rebuildRows hrebuild).trans id.trim_text)

/-! ## Many aggregates -/

/-- The filter of a load of some aggregates. -/
def filterMany (m : Mapping S P) (ids : List AggregateId) (options : LoadOptions) : EventFilter :=
  { m.filter options with aggregateIds := some (ids.map (·.text)) }

/-- The place of the first row of an aggregate up to the ceiling of a load, among all rows. -/
def firstPlace (m : Mapping S P) (options : LoadOptions) (rows : List EventRow) (id : AggregateId) :
    Nat :=
  rows.findIdx fun row => m.selects options row && row.aggregateId = id.text

/-- The aggregates that single loads give of those that are asked for, each once, in the order of
their first rows up to the ceiling. -/
structure Gathers (m : Mapping S P) (options : LoadOptions) (rows : List EventRow)
    (load : AggregateId → Except RepositoryError (Option (Aggregate S P)))
    (ids : List AggregateId) (l : List (Aggregate S P)) : Prop where
  found : ∀ id ∈ ids, ∀ a, load id = .ok (some a) ↔ a ∈ l ∧ a.id = id
  asked : ∀ a ∈ l, a.id ∈ ids
  once : (l.map (·.id)).Nodup
  ordered : l.Pairwise fun a b => m.firstPlace options rows a.id < m.firstPlace options rows b.id

theorem accepts_filterMany (row : EventRow) : (m.filterMany ids options).accepts row =
    (m.selects options row && row.aggregateId ∈ ids.map (·.text) : Bool) := by
  have haccepts : (m.filterMany ids options).accepts row =
      (row.aggregateType = m.blueprint.name && row.aggregateId ∈ ids.map (·.text) &&
        options.maxVersion.all fun version => row.version ≤ version : Bool) := rfl
  rw [haccepts, selects, Bool.and_right_comm]

theorem accepts_filter (row : EventRow) :
    (m.filter options).accepts row = m.selects options row := by
  have haccepts : (m.filter options).accepts row =
      (row.aggregateType = m.blueprint.name && true &&
        options.maxVersion.all fun version => row.version ≤ version : Bool) := rfl
  rw [haccepts, selects, Bool.and_true]

/-- The rows of a load of many, in the order of their arrival. -/
def rowsOfMany (m : Mapping S P) (ids : List AggregateId) (options : LoadOptions)
    (rows : List EventRow) : List EventRow :=
  rows.filter (m.filterMany ids options).accepts

theorem mem_rowsOfMany {row : EventRow} : row ∈ m.rowsOfMany ids options rows ↔
    row ∈ rows ∧ m.selects options row ∧ ∃ id ∈ ids, id.text = row.aggregateId := by
  rw [rowsOfMany, List.mem_filter, accepts_filterMany, Bool.and_eq_true, decide_eq_true_eq,
    List.mem_map]

/-- Each row is selected and occurs once, so no row is passed over. -/
theorem replayed_rowsOfMany (hrows : (rows.map (·.eventId)).Nodup) :
    m.replayed options (m.rowsOfMany ids options rows) = m.rowsOfMany ids options rows := by
  have hselects : ∀ row ∈ m.rowsOfMany ids options rows, m.selects options row :=
    fun row hrow => (mem_rowsOfMany.mp hrow).2.1
  rw [replayed, List.filter_eq_self.mpr hselects]
  exact firstOccurrences_eq_self (hrows.sublist (List.filter_sublist.map _)) (by simp)

/-- The rows of an aggregate among those of a load of many are those of its own load. -/
theorem ofAggregate_rowsOfMany (hid : id ∈ ids) :
    ofAggregate id.text (m.rowsOfMany ids options rows) = m.history id options rows := by
  have hone : m.history id options rows = m.rowsOfMany [id] options rows := rfl
  rw [hone, ofAggregate, rowsOfMany, List.filter_filter]
  refine List.filter_congr fun row _ => ?_
  rw [accepts_filterMany, accepts_filterMany, Bool.eq_iff_iff]
  have hmem : row.aggregateId = id.text → ∃ id' ∈ ids, id'.text = row.aggregateId :=
    fun heq => ⟨id, hid, heq.symm⟩
  simp only [Bool.and_eq_true, decide_eq_true_eq, List.mem_map, List.mem_singleton,
    exists_eq_left]
  grind

/-- The aggregates of a load of many are those that are asked for and have rows. -/
theorem mem_aggregateId_rowsOfMany {k : String} :
    k ∈ ((m.rowsOfMany ids options rows).map (·.aggregateId)).eraseDups ↔
      ∃ id ∈ ids, id.text = k ∧ m.history id options rows ≠ [] := by
  rw [List.mem_eraseDups, List.mem_map]
  constructor
  · rintro ⟨row, hrow, rfl⟩
    obtain ⟨-, -, id, hid, hsame⟩ := mem_rowsOfMany.mp hrow
    refine ⟨id, hid, hsame, ?_⟩
    rw [← ofAggregate_rowsOfMany hid]
    exact List.ne_nil_of_mem (List.mem_filter.mpr ⟨hrow, by simpa using hsame.symm⟩)
  · rintro ⟨id, hid, rfl, hne⟩
    rw [← ofAggregate_rowsOfMany hid] at hne
    obtain ⟨row, hrow⟩ := List.exists_mem_of_ne_nil _ hne
    obtain ⟨hrow, hsame⟩ := List.mem_filter.mp hrow
    exact ⟨row, hrow, by simpa using hsame⟩

section Many

variable (hrows : (rows.map (·.eventId)).Nodup)

include hrows

/-- Many aggregates can be rebuilt exactly if each of them can. -/
theorem exists_ofMany_iff :
    (∃ l, m.aggregatesOfRows options (m.rowsOfMany ids options rows) = .ok l) ↔
      ∀ id ∈ ids, ∃ a, m.replayRows id options (m.history id options rows) = .ok a := by
  have hgroups : (∃ l, m.aggregatesOfRows options (m.rowsOfMany ids options rows) = .ok l) ↔
      ∀ k ∈ ((m.rowsOfMany ids options rows).map (·.aggregateId)).eraseDups,
        ∃ a, m.rebuildRows k (ofAggregate k (m.rowsOfMany ids options rows)) = .ok a := by
    rw [← exists_mapM_iff]
    simp only [aggregatesOfRows_eq_ok_iff, replayed_rowsOfMany hrows]
    exact ⟨fun ⟨_, as, has, _⟩ => ⟨as, has⟩, fun ⟨as, has⟩ => ⟨_, as, has, rfl⟩⟩
  rw [hgroups]
  constructor
  · intro hall id hid
    by_cases hnone : m.history id options rows = []
    · exact ⟨none, by rw [hnone]; rfl⟩
    · obtain ⟨a, ha⟩ := hall id.text (mem_aggregateId_rowsOfMany.mpr ⟨id, hid, rfl, hnone⟩)
      rw [ofAggregate_rowsOfMany hid] at ha
      exact ⟨_, by rw [replayRows_eq_map hnone, ha]; rfl⟩
  · intro hall k hk
    obtain ⟨id, hid, rfl, hne⟩ := mem_aggregateId_rowsOfMany.mp hk
    obtain ⟨a, ha⟩ := hall id hid
    rw [replayRows_eq_map hne] at ha
    obtain ⟨b, hb, -⟩ := except_map_eq_ok_iff.mp ha
    exact ⟨b, ofAggregate_rowsOfMany hid ▸ hb⟩

/-- An aggregate is among those of a load of many if it is asked for and its own load gives it. -/
theorem mem_ofMany_iff
    (h : m.aggregatesOfRows options (m.rowsOfMany ids options rows) = .ok l) :
    a ∈ l ↔ a.id ∈ ids ∧ m.replayRows a.id options (m.history a.id options rows) = .ok (some a) := by
  obtain ⟨as, has, rfl⟩ := aggregatesOfRows_eq_ok_iff.mp h
  rw [replayed_rowsOfMany hrows] at has
  rw [List.mem_filter, mem_of_mapM has, replayRows_eq_some_iff_keeps]
  constructor
  · rintro ⟨⟨k, hk, ha⟩, hkeeps⟩
    obtain ⟨id, hid, rfl, hne⟩ := mem_aggregateId_rowsOfMany.mp hk
    obtain rfl : a.id = id := Identity.ext ((id_of_rebuildRows ha).trans id.trim_text)
    rw [ofAggregate_rowsOfMany hid] at ha
    exact ⟨hid, hne, ha, hkeeps⟩
  · rintro ⟨hid, hne, ha, hkeeps⟩
    refine ⟨⟨a.id.text, mem_aggregateId_rowsOfMany.mpr ⟨a.id, hid, rfl, hne⟩, ?_⟩, hkeeps⟩
    rw [ofAggregate_rowsOfMany hid]
    exact ha

/-- The aggregates of a load of many come in the order of their first rows. -/
theorem firstPlace_ofMany
    (h : m.aggregatesOfRows options (m.rowsOfMany ids options rows) = .ok l) :
    l.Pairwise fun a b => m.firstPlace options rows a.id < m.firstPlace options rows b.id := by
  obtain ⟨as, has, rfl⟩ := aggregatesOfRows_eq_ok_iff.mp h
  rw [replayed_rowsOfMany hrows] at has
  have htext : ∀ k ∈ ((m.rowsOfMany ids options rows).map (·.aggregateId)).eraseDups,
      ∀ a, m.rebuildRows k (ofAggregate k (m.rowsOfMany ids options rows)) = .ok a →
        a.id.text = k := by
    intro k hk a ha
    obtain ⟨id, -, rfl, -⟩ := mem_aggregateId_rowsOfMany.mp hk
    exact (id_of_rebuildRows ha).trans id.trim_text
  have htexts : as.map (·.id.text) = _ :=
    (map_eq_map_of_mapM (k := id) htext has).trans (List.map_id _)
  have hplace : ∀ a ∈ as, (rows.findIdx fun row =>
      (m.filterMany ids options).accepts row && row.aggregateId = a.id.text) =
        m.firstPlace options rows a.id := by
    intro a ha
    obtain ⟨id, hid, hsame, -⟩ := mem_aggregateId_rowsOfMany.mp (htexts ▸ List.mem_map_of_mem ha)
    congr 1
    funext row
    rw [accepts_filterMany, Bool.eq_iff_iff]
    have hmem : row.aggregateId = a.id.text → ∃ id ∈ ids, id.text = row.aggregateId :=
      fun heq => ⟨id, hid, hsame.trans heq.symm⟩
    simp only [Bool.and_eq_true, decide_eq_true_eq, List.mem_map]
    grind
  have hkeys := pairwise_eraseDups_findIdx (m.filterMany ids options).accepts
    (·.aggregateId) rows
  rw [← rowsOfMany, ← htexts, List.pairwise_map] at hkeys
  refine (hkeys.imp_of_mem fun ha hb hlt => ?_).filter _
  rwa [hplace _ ha, hplace _ hb] at hlt

/-- A load of many gives what single loads give. -/
theorem gathers_ofMany
    (h : m.aggregatesOfRows options (m.rowsOfMany ids options rows) = .ok l) :
    m.Gathers options rows (fun id => m.replayRows id options (m.history id options rows)) ids l := by
  have hmem := fun a => mem_ofMany_iff (a := a) hrows h
  have hplaces := firstPlace_ofMany hrows h
  refine ⟨fun id hid a => ⟨fun ha => ?_, ?_⟩, fun a ha => ((hmem a).mp ha).1, ?_, hplaces⟩
  · obtain rfl : a.id = id := id_of_replayRows ha
    exact ⟨(hmem a).mpr ⟨hid, ha⟩, rfl⟩
  · rintro ⟨ha, rfl⟩
    exact ((hmem a).mp ha).2
  · rw [List.Nodup, List.pairwise_map]
    exact hplaces.imp fun hlt heq => absurd (heq ▸ hlt) (Nat.lt_irrefl _)

end Many

/-! ## Deleted aggregates -/

theorem replayRows_withoutDeleted (rows : List EventRow) :
    m.replayRows id { options with includeDeleted := false } rows =
      (m.replayRows id { options with includeDeleted := true } rows).map
        (Option.filter fun a => !a.isDeleted) := by
  by_cases hrows : rows = []
  · rw [hrows]
    rfl
  · rw [replayRows_eq_map hrows, replayRows_eq_map hrows]
    cases m.rebuildRows id.text rows with
    | error e => rfl
    | ok a => cases hdeleted : a.isDeleted <;> simp [Except.map, keeps, hdeleted, Option.filter]

/-- Without the deleted aggregates a load gives what it gives with them, less these. -/
theorem aggregatesOfRows_withoutDeleted (rows : List EventRow) :
    m.aggregatesOfRows { options with includeDeleted := false } rows =
      (m.aggregatesOfRows { options with includeDeleted := true } rows).map
        fun l => l.filter fun a => !a.isDeleted := by
  unfold aggregatesOfRows
  have hselects : m.selects { options with includeDeleted := false } =
      m.selects { options with includeDeleted := true } := rfl
  rw [hselects]
  simp only [bind, Except.bind, pure, Except.pure]
  split
  · rfl
  · split
    · rfl
    · simp [Except.map]

end Mapping

/-! ## Loads from a memory -/

namespace MemoryStore

variable {S P π : Type} {m : Mapping S P} {publisher : Publisher P π} {s : MemoryStore}
  {rows : List EventRow} {options : LoadOptions} {bus : π}

theorem loadFiltered_eq (hs : s.Holds rows) (f : EventFilter) :
    (m.inMemory publisher).loadFiltered f options (s, bus) =
      (m.aggregatesOfRows options (rows.filter f.accepts), (s, bus)) := by
  have hread : (Repository.stored ((m.inMemory publisher).storage.read f) :
      RepositoryM _ π (List EventRow)) (s, bus) = (.ok (rows.filter f.accepts), (s, bus)) := by
    rw [← hs.read_eq]
    rfl
  unfold Repository.loadFiltered
  rw [bind_of_ok hread]
  show Repository.ofExcept (m.aggregatesOfRows options (rows.filter f.accepts)) (s, bus) = _
  cases m.aggregatesOfRows options (rows.filter f.accepts) <;> rfl

/-! ## Memories that are written to by saves -/

/-- The rows of a memory are those of saves, of any repositories over it and with any publishers,
whether the saves succeeded or not. -/
inductive FromSaves : MemoryStore → Prop where
  | empty : FromSaves {}
  | save {S P π : Type} (m : Mapping S P) (publisher : Publisher P π) (l : List (Aggregate S P))
      (bus : π) {s : MemoryStore} (h : FromSaves s) :
      FromSaves ((m.inMemory publisher).saveAll (l, (s, bus))).2.2.1
  | clear {s : MemoryStore} (h : FromSaves s) : FromSaves s.clear

/-- A save leaves the memory as it was, or appends its batch. -/
theorem store_saveAll (m : Mapping S P) (publisher : Publisher P π) (l : List (Aggregate S P))
    (s : MemoryStore) (bus : π) :
    let r := m.inMemory publisher
    (r.saveAll (l, (s, bus))).2.2.1 = s ∨
      s.append (r.batch l) = .ok (r.saveAll (l, (s, bus))).2.2.1 := by
  intro r
  rcases Repository.appendPending_cases (r := r) rfl l s bus with
    ⟨e, h⟩ | ⟨-, h⟩ | ⟨s', -, happend, -, h⟩
  · exact Or.inl (by rw [Repository.saveAll_of_refused h])
  · exact Or.inl (by rw [Repository.saveAll_of_none h])
  · rw [happend]
    refine Or.inr (congrArg Except.ok ?_)
    have hkept := Repository.fst_forM_published (r := r) (l.flatMap (·.pending)) (s', bus)
    rcases hrun : ((l.flatMap (·.pending)).forM r.published : RepositoryM _ π Unit) (s', bus) with
      ⟨x | ⟨⟩, q⟩ <;> rw [hrun] at hkept
    · rw [Repository.saveAll_of_interrupted h hrun]
      exact hkept.symm
    · rw [Repository.saveAll_of_published h hrun]
      exact hkept.symm

theorem FromSaves.identified (h : FromSaves s) :
    ∃ rows, s.Holds rows ∧ ∀ row ∈ rows, ∃ id : AggregateId, id.text = row.aggregateId := by
  induction h with
  | empty => exact ⟨[], holds_empty, nofun⟩
  | clear => exact ⟨[], ⟨[], keeps_clear _, rfl⟩, nofun⟩
  | save m publisher l bus h ih =>
    obtain ⟨rows, hs, hrows⟩ := ih
    rcases store_saveAll m publisher l _ bus with hsame | happend
    · exact ⟨rows, hsame ▸ hs, hrows⟩
    · refine ⟨_, (hs.of_append_eq_ok happend).2, fun row hrow => ?_⟩
      rcases List.mem_append.mp hrow with hrow | hrow
      · exact hrows row hrow
      · obtain ⟨e, -, rfl⟩ := List.mem_map.mp (mem_newRows.mp hrow).1
        exact ⟨e.aggregateId, congrArg StreamKey.aggregateId (m.rowOf_stream e).symm⟩

/-- The aggregates of a type that have rows, in the order of their first rows. -/
def storedIds (name : String) (rows : List EventRow) : List String :=
  ((rows.filter (·.aggregateType = name)).map (·.aggregateId)).eraseDups

/-- A load of all aggregates is one of those that are stored. -/
theorem FromSaves.loadAll_eq (h : FromSaves s) :
    ∃ ids : List AggregateId, ids.map (·.text) = storedIds m.blueprint.name s.rows ∧
      (m.inMemory publisher).loadAll options (s, bus) =
        (m.inMemory publisher).loadMany ids options (s, bus) := by
  obtain ⟨rows, hs, hidentified⟩ := h.identified
  obtain ⟨ids, -, hids⟩ : ∃ ids : List AggregateId, (∀ id ∈ ids, True) ∧
      ids.map (·.text) = storedIds m.blueprint.name rows := by
    refine exists_map_eq fun k hk => ?_
    obtain ⟨row, hrow, rfl⟩ := List.mem_map.mp (List.mem_eraseDups.mp hk)
    obtain ⟨id, hid⟩ := hidentified row (List.mem_of_mem_filter hrow)
    exact ⟨id, trivial, hid⟩
  refine ⟨ids, hs.rows_eq ▸ hids, ?_⟩
  have hsame : rows.filter (m.filter options).accepts =
      rows.filter (m.filterMany ids options).accepts := by
    refine List.filter_congr fun row hrow => ?_
    rw [Mapping.accepts_filter, Mapping.accepts_filterMany, hids, Bool.eq_iff_iff,
      Bool.and_eq_true, decide_eq_true_eq]
    refine ⟨fun hselects => ⟨hselects, ?_⟩, And.left⟩
    have htype := (Mapping.selects_iff.mp hselects).1
    exact List.mem_eraseDups.mpr
      (List.mem_map_of_mem (List.mem_filter.mpr ⟨hrow, by simpa using htype⟩))
  show (m.inMemory publisher).loadFiltered (m.filter options) options (s, bus) =
    (m.inMemory publisher).loadFiltered (m.filterMany ids options) options (s, bus)
  rw [loadFiltered_eq hs, loadFiltered_eq hs, hsame]

theorem loadMany_eq (hs : s.Holds rows) (ids : List AggregateId) :
    (m.inMemory publisher).loadMany ids options (s, bus) =
      (m.aggregatesOfRows options (m.rowsOfMany ids options rows), (s, bus)) :=
  loadFiltered_eq hs (m.filterMany ids options)

/-- From a memory in use, whatever rows were appended to it, many aggregates can be loaded exactly if
each of them can, and then what the single loads give is gathered. If saves have written all rows, a
load of all is one of those that are stored. What is loaded without deleted aggregates is what is
loaded with them, less these. -/
theorem bulk_loads_agree (m : Mapping S P) (publisher : Publisher P π) (options : LoadOptions)
    (bus : π) :
    let r := m.inMemory publisher
    (∀ uses ids,
      let s := (({} : InUse).run uses).store
      let load := fun id => (r.load id options (s, bus)).1
      ((∃ l, (r.loadMany ids options (s, bus)).1 = .ok l) ↔ ∀ id ∈ ids, ∃ a, load id = .ok a) ∧
        ∀ l, (r.loadMany ids options (s, bus)).1 = .ok l →
          m.Gathers options s.rows load ids l) ∧
    (∀ s, FromSaves s → ∃ ids : List AggregateId,
      ids.map (·.text) = storedIds m.blueprint.name s.rows ∧
        r.loadAll options (s, bus) = r.loadMany ids options (s, bus)) ∧
    ∀ uses,
      let s := (({} : InUse).run uses).store
      let without := fun result : Except RepositoryError (List (Aggregate S P)) =>
        result.map fun l => l.filter fun a => !a.isDeleted
      let less : LoadOptions := { options with includeDeleted := false }
      let more : LoadOptions := { options with includeDeleted := true }
      (∀ id, (r.load id less (s, bus)).1 =
        (r.load id more (s, bus)).1.map (Option.filter fun a => !a.isDeleted)) ∧
      (∀ ids, (r.loadMany ids less (s, bus)).1 = without (r.loadMany ids more (s, bus)).1) ∧
        (r.loadAll less (s, bus)).1 = without (r.loadAll more (s, bus)).1 := by
  intro r
  have hone : ∀ uses (options : LoadOptions) id,
      ((m.inMemory publisher).load id options ((({} : InUse).run uses).store, bus)).1 =
        m.replayRows id options (m.history id options (({} : InUse).run uses).store.rows) :=
    fun uses options id => congrArg Prod.fst (Repository.load_eq rfl (InUse.holds_rows uses) id options)
  refine ⟨fun uses ids => ?_, fun s hs => hs.loadAll_eq, fun uses => ?_⟩
  · have hids := (InUse.holds_rows uses).unique.ids
    simp only [r, loadMany_eq (InUse.holds_rows uses), hone uses]
    exact ⟨Mapping.exists_ofMany_iff hids, fun l => Mapping.gathers_ofMany hids⟩
  · intro s without less more
    have hs : s.Holds s.rows := InUse.holds_rows uses
    refine ⟨fun id => ?_, fun ids => ?_, ?_⟩
    · rw [hone uses, hone uses]
      exact Mapping.replayRows_withoutDeleted _
    · rw [loadMany_eq hs, loadMany_eq hs]
      exact Mapping.aggregatesOfRows_withoutDeleted _
    · show (r.loadFiltered (m.filter less) less (s, bus)).1 =
        without (r.loadFiltered (m.filter more) more (s, bus)).1
      rw [loadFiltered_eq hs, loadFiltered_eq hs]
      exact Mapping.aggregatesOfRows_withoutDeleted _

end MemoryStore

end EventStore
