import EventStore.Proofs.ProjectedLoads

/-!
# A table and a memory are read alike

Proved here, for every filter:

* `build_select`: its query can be written, unless it names no aggregate;
* `selects_select`: on the rows of the event log, as they are in the table, the query selects what
  the filter accepts;
* `read_of_answers`: so from a database that answers the query these rows are read, and those of an
  aggregate come in the order of their versions;
* `reads_agree`: a memory with the same rows gives the same.
-/

namespace EventStore.TableStore

open Sql

variable {σ : Type} {s : TableStore} {x : Executor σ} {k : Collation}
  {contents : Table → List Record} {stored rows l : List EventRow} {f : EventFilter} {d : σ}

/-! ## The query of a filter -/

theorem plain_select : (s.select f).Plain :=
  ⟨by simp [select], rfl, rfl, rfl⟩

/-- The conditions of a query are on columns of the event log, which are named without it. -/
theorem table_of_select : ∀ c ∈ (s.select f).conditions, ∀ column ∈ c.columns,
    column.table = none := by
  obtain ⟨aggregateType, ids, version⟩ := f
  rcases ids with _ | _ | ⟨id, _ | ⟨id', ids⟩⟩ <;> cases version <;>
    simp [select, Condition.eq, Condition.le, Condition.inList, Condition.compare,
      Condition.columns, EventColumn.column]

/-- A query can be written unless its filter names its aggregates and names none. -/
theorem build_select (hs : Reads s.dialect) (hc : s.dialect.Compares)
    (hf : f.isEmptySelection = false) : ∃ statement, s.selectStatement f = .ok statement :=
  ⟨_, Select.build_of_checked rfl rfl (checked_select hs hf (Or.inr hc.lessOrEqual))⟩

/-! ## What the query selects -/

/-- The event log has no other tables beside it in the query of a filter. -/
def alone (s : TableStore) (r : EventRow) : Combination := [(s.table.referencePath, r.record)]

theorem value_alone (r : EventRow) {c : Column} (hc : c.table = none) :
    (s.alone r).value c = r.value c := by
  obtain ⟨_ | name, table, aliasName⟩ := c
  · rfl
  obtain rfl : table = none := hc
  have hfind : (EventColumn.all.find? fun e => some name = some e.identifier) =
      EventColumn.all.find? (·.identifier = name) := by
    congr 1
    funext e
    simp [eq_comm]
  simp only [alone, Combination.value, Combination.value?, EventRow.record, EventRow.value, hfind,
    Option.bind_some, List.findSome?_cons, List.findSome?_nil]
  cases EventColumn.all.find? (·.identifier = name) <;> rfl

theorem value_alone_column (r : EventRow) (c : EventColumn) :
    (s.alone r).value c.column = r.cell c := by
  rw [value_alone r rfl, value_column]

/-- What a query selects is the whole row. -/
theorem output_alone (r : EventRow) : (s.alone r).output (s.select f) = r.record := by
  funext name
  simp [alone, Combination.output, Combination.value?, select, Column.all]

theorem combinations_select (hevents : contents s.table = stored.map EventRow.record) :
    combinations contents (s.select f).tables = stored.map s.alone := by
  have htables : (s.select f).tables = [s.table] := by simp [Select.tables, select]
  rw [htables, combinations, hevents, List.flatMap_map, List.map_eq_flatMap]
  rfl

theorem meets_alone (r : EventRow) :
    k.meets (s.alone r).value (s.select f) = k.meets r.value (s.select f) := by
  rw [Bool.eq_iff_iff, Collation.meets, Collation.meets, List.all_eq_true, List.all_eq_true]
  refine forall₂_congr fun c hc => ?_
  rw [Collation.truth_congr c fun column hcolumn =>
    value_alone r (table_of_select c hc column hcolumn)]

/-- On a row that the table can hold, the conditions of a query are true together if its filter
accepts the row. -/
theorem meets_select (hk : Exact k) {r : EventRow} (hr : r.Storable) :
    k.meets r.value (s.select f) = f.accepts r := by
  rw [hk.meets_select f r, acceptsCells_eq (Or.inr hr)]

theorem selects_select (hk : Exact k) {r : EventRow} (hr : r.Storable) :
    k.selects (s.select f) (s.alone r) = f.accepts r := by
  rw [Collation.selects, meets_alone, meets_select hk hr]
  simp [select]

/-- Of rows of one aggregate those with lower versions come first. -/
theorem version_le_of_precedes (hk : Exact k) {r r' : EventRow} (hr : r.Storable)
    (hr' : r'.Storable) (hid : r.aggregateId = r'.aggregateId)
    (h : k.precedes (s.alone r).value (s.alone r').value (s.select f).orderBy) :
    r.version ≤ r'.version := by
  have hversion : k.precedes (s.alone r).value (s.alone r').value [EventColumn.version.key] →
      r.version ≤ r'.version := by
    intro h
    have hle : k.compare (.integer (.ofNat r.version)) (.integer (.ofNat r'.version)) ≠ .gt := by
      intro hgt
      simp [Collation.precedes, EventColumn.key, value_alone_column, EventRow.cell, hgt] at h
    rw [hk.integers] at hle
    have hkept : keptVersion r.version ≤ keptVersion r'.version := hle
    rw [keptVersion_eq hr, keptVersion_eq hr'] at hkept
    exact Int.ofNat_le.mp hkept
  have horder : (s.select f).orderBy =
      if f.aggregateIds.any fun ids => ids.length = 1 then [EventColumn.version.key]
      else [EventColumn.aggregateId.key, EventColumn.version.key] := rfl
  rw [horder] at h
  split at h
  · exact hversion h
  · have hsame : k.compare (.text r.aggregateId) (.text r'.aggregateId) = .eq :=
      (hk.texts _ _).mpr hid
    refine hversion ?_
    rw [Collation.precedes] at h
    simpa [EventColumn.key, value_alone_column, EventRow.cell, hsame] using h

/-! ## Reading -/

theorem filter_of_isEmptySelection (hf : f.isEmptySelection) (l : List EventRow) :
    l.filter f.accepts = [] := by
  have hids : f.aggregateIds = some [] := by simpa [EventFilter.isEmptySelection] using hf
  simp [EventFilter.accepts, hids]

theorem read_of_isEmptySelection (hf : f.isEmptySelection) : s.read x f d = (.ok [], d) := by
  rw [read, if_pos hf]
  rfl

/-- The rows that a query yields are those that its filter accepts, in order. -/
theorem rows_of_yields (hk : Exact k) (hstored : ∀ r ∈ stored, r.Storable)
    (hevents : contents s.table = stored.map EventRow.record) {out : List Combination}
    (hyields : k.Yields contents (s.select f) out)
    (hl : (out.map fun c => EventRow.ofRecord? (c.output (s.select f))) = l.map some) :
    l.Perm (stored.filter f.accepts) ∧
      l.Pairwise fun r r' => r.aggregateId = r'.aggregateId → r.version ≤ r'.version := by
  have hselected : out.Perm ((stored.filter f.accepts).map s.alone) := by
    refine hyields.selected.trans (List.Perm.of_eq ?_)
    rw [combinations_select hevents, List.filter_map]
    exact congrArg _ (List.filter_congr fun r hr => selects_select hk (hstored r hr))
  have hmem : ∀ c ∈ out, ∃ r ∈ stored, s.alone r = c := fun c hc => by
    obtain ⟨r, hr, rfl⟩ := List.mem_map.mp (hselected.mem_iff.mp hc)
    exact ⟨r, List.mem_of_mem_filter hr, rfl⟩
  have hread : ∀ r ∈ stored, EventRow.ofRecord? ((s.alone r).output (s.select f)) = some r :=
    fun r hr => by rw [output_alone, EventRow.ofRecord?_record (hstored r hr)]
  have hfilter := congrArg (List.filterMap id) hl
  rw [List.filterMap_map, List.filterMap_map, Function.id_comp, Function.id_comp,
    List.filterMap_some] at hfilter
  rw [← hfilter]
  constructor
  · refine (hselected.filterMap _).trans (List.Perm.of_eq ?_)
    rw [List.filterMap_map]
    calc (stored.filter f.accepts).filterMap
          ((fun c => EventRow.ofRecord? (c.output (s.select f))) ∘ s.alone)
        = (stored.filter f.accepts).filterMap some :=
          List.filterMap_congr fun r hr => hread r (List.mem_of_mem_filter hr)
      _ = stored.filter f.accepts := List.filterMap_some
  · rw [List.pairwise_filterMap]
    refine hyields.sorted.imp_of_mem fun {c c'} hc hc' hprecedes r hr r' hr' hid => ?_
    obtain ⟨r₀, hr₀, rfl⟩ := hmem c hc
    obtain ⟨r₁, hr₁, rfl⟩ := hmem c' hc'
    obtain rfl : r₀ = r := Option.some.inj ((hread r₀ hr₀).symm.trans hr)
    obtain rfl : r₁ = r' := Option.some.inj ((hread r₁ hr₁).symm.trans hr')
    exact version_le_of_precedes hk (hstored r₀ hr₀) (hstored r₁ hr₁) hid hprecedes

/-- Rows without a clash of slots, of one type, that ascend in version do so strictly. -/
theorem versions_increase (hunique : Unique l) (htype : ∀ r ∈ l, r.aggregateType = f.aggregateType)
    (h : l.Pairwise fun r r' => r.aggregateId = r'.aggregateId → r.version ≤ r'.version) :
    l.Pairwise fun r r' => r.aggregateId = r'.aggregateId → r.version < r'.version := by
  have hslots : l.Pairwise fun r r' => r.slot ≠ r'.slot := List.pairwise_map.mp hunique.slots
  refine (h.and hslots).imp_of_mem fun {r r'} hr hr' hboth hid => ?_
  refine Nat.lt_of_le_of_ne (hboth.1 hid) fun hversion => hboth.2 ?_
  rw [EventRow.slot, EventRow.slot, EventRow.stream, EventRow.stream, htype r hr, htype r' hr', hid,
    hversion]

/-- A database that answers the query of a filter is read the rows that the filter accepts, and
those of an aggregate in the order of their versions. -/
theorem read_of_answers (hs : Reads s.dialect) (hc : s.dialect.Compares) (hk : Exact k)
    (hunique : Unique stored) (hstored : ∀ r ∈ stored, r.Storable)
    (hevents : contents s.table = stored.map EventRow.record)
    (hx : x.Answers k contents s.dialect (s.select f) d) :
    ∃ l d', s.read x f d = (.ok l, d') ∧ l.Perm (stored.filter f.accepts) ∧
      l.Pairwise fun r r' => r.aggregateId = r'.aggregateId → r.version < r'.version := by
  by_cases hf : f.isEmptySelection
  · refine ⟨[], d, read_of_isEmptySelection hf, ?_, List.Pairwise.nil⟩
    rw [filter_of_isEmptySelection hf]
  · obtain ⟨statement, hbuild⟩ := build_select hs hc (by simpa using hf)
    obtain ⟨out, l, d', hyields, hquery, hl⟩ := hx plain_select statement hbuild
    obtain ⟨hperm, hsorted⟩ := rows_of_yields hk hstored hevents hyields hl
    have hrun : s.read x f d = (.ok l, d') := by
      have hselect : (s.select f).build s.dialect = .ok statement := hbuild
      rw [read, if_neg hf, run, hselect]
      exact hquery
    have hfiltered : Unique (stored.filter f.accepts) :=
      ⟨hunique.ids.sublist (List.filter_sublist.map _),
        hunique.slots.sublist (List.filter_sublist.map _)⟩
    refine ⟨l, d', hrun, hperm,
      versions_increase (f := f) (hfiltered.of_perm hperm.symm) ?_ hsorted⟩
    intro r hr
    have haccepts := (List.mem_filter.mp (hperm.mem_iff.mp hr)).2
    simp only [EventFilter.accepts, Bool.and_eq_true, decide_eq_true_eq] at haccepts
    exact haccepts.1.1

/-- A table and a memory that hold the same rows give the same of them, the table those of an
aggregate in the order of their versions. For a filter that names no aggregate the table is not even
asked; for any other one the conditions of the query are true of the rows that the filter accepts. -/
theorem reads_agree (hs : Reads s.dialect) (hc : s.dialect.Compares) (hk : Exact k)
    {m : MemoryStore} (hm : m.Holds rows) (hrows : ∀ r ∈ rows, r.Storable)
    (hstored : stored.Perm rows) (hevents : contents s.table = stored.map EventRow.record)
    (hx : x.Answers k contents s.dialect (s.select f) d) :
    let inTable := (s.storage x).read f d
    let inMemory := MemoryStore.storage.read f m
    (f.aggregateIds ≠ some [] → (∃ statement, s.selectStatement f = .ok statement) ∧
      ∀ r : EventRow, r.Storable → k.meets r.value (s.select f) = f.accepts r) ∧
    (f.aggregateIds = some [] → (∀ (y : Executor σ) e, (s.storage y).read f e = (.ok [], e)) ∧
      inMemory = (.ok [], m)) ∧
    ∃ l d' l', inTable = (.ok l, d') ∧ inMemory = (.ok l', m) ∧ l.Perm l' ∧
      l.Pairwise fun r r' => r.aggregateId = r'.aggregateId → r.version < r'.version := by
  intro inTable inMemory
  have hinMemory : inMemory = (.ok (rows.filter f.accepts), m) := by
    rw [← hm.read_eq f]
    rfl
  have hempty : f.isEmptySelection ↔ f.aggregateIds = some [] := decide_eq_true_iff
  refine ⟨fun hf => ⟨build_select hs hc ?_, fun r hr => meets_select hk hr⟩, fun hf => ⟨?_, ?_⟩, ?_⟩
  · simpa [EventFilter.isEmptySelection] using hf
  · exact fun y e => read_of_isEmptySelection (hempty.mpr hf)
  · rw [hinMemory, filter_of_isEmptySelection (hempty.mpr hf)]
  · obtain ⟨l, d', hread, hperm, hsorted⟩ := read_of_answers hs hc hk
      (hm.unique.of_perm hstored.symm) (fun r hr => hrows r (hstored.mem_iff.mp hr)) hevents hx
    exact ⟨l, d', _, hread, hinMemory, hperm.trans (hstored.filter _), hsorted⟩

open Repository (accountRows accountEvents accountTables oneQuery answers_oneQuery)

/-- The first versions of two accounts. -/
def firstVersions : EventFilter := ⟨"Account", some ["bea", "ann"], some 1⟩

theorem firstVersions_agree :
    let s := accountEvents
    let x := oneQuery plainCollation .generic (s.select firstVersions)
    let m := accountRows.foldl MemoryStore.push {}
    let inTable := (s.storage x).read firstVersions accountTables
    let inMemory := MemoryStore.storage.read firstVersions m
    Reads s.dialect ∧ s.dialect.Compares ∧ Exact plainCollation ∧ m.Holds accountRows ∧
      (∀ r ∈ accountRows, r.Storable) ∧ accountRows.Perm accountRows ∧
      accountTables s.table = accountRows.map EventRow.record ∧
      x.Answers plainCollation accountTables s.dialect (s.select firstVersions) accountTables ∧
      (firstVersions.aggregateIds ≠ some [] →
        (∃ statement, s.selectStatement firstVersions = .ok statement) ∧
        ∀ r : EventRow, r.Storable →
          plainCollation.meets r.value (s.select firstVersions) = firstVersions.accepts r) ∧
      (firstVersions.aggregateIds = some [] →
        (∀ (y : Executor (Table → List Record)) e,
          (s.storage y).read firstVersions e = (.ok [], e)) ∧ inMemory = (.ok [], m)) ∧
      ∃ l d' l', inTable = (.ok l, d') ∧ inMemory = (.ok l', m) ∧ l.Perm l' ∧
        l.Pairwise fun r r' => r.aggregateId = r'.aggregateId → r.version < r'.version := by
  intro s x m inTable inMemory
  have hs : Reads s.dialect := reads_dialect .generic
  have hc : s.dialect.Compares := compares_dialect .generic
  have hm : m.Holds accountRows :=
    MemoryStore.holds_foldl_push ⟨by decide +kernel, by decide +kernel⟩
  have hrows : ∀ r ∈ accountRows, r.Storable := by decide +kernel
  have hevents : accountTables s.table = accountRows.map EventRow.record := if_pos rfl
  have hx : x.Answers plainCollation accountTables s.dialect (s.select firstVersions)
      accountTables := answers_oneQuery (by decide +kernel) (by decide +kernel)
  exact ⟨hs, hc, exact_plainCollation, hm, hrows, List.Perm.refl _, hevents, hx,
    reads_agree hs hc exact_plainCollation hm hrows (List.Perm.refl _) hevents hx⟩

end EventStore.TableStore
