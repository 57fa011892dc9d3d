import EventStore.Proofs.Grouping
import EventStore.Proofs.IdealDatabase
import EventStore.Proofs.LiveReplay
import EventStore.Proofs.Relations

/-!
# Loads by way of a projection

The query of a filter joins the event log to the projection. An event is selected once for every
row of the projection that has its aggregate as the key and meets the conditions, so there may be
many copies of it, or none.

Proved here, for any contents of the projection:

* `build_query`: the query can be written if the conditions of the filter can;
* `selects_query_iff`: what it selects;
* `finds_of_yields`: so its answer has all events of the aggregates that the filter covers, up to
  the ceiling, and no others of the type;
* `loadProjected_eq_covered`: a load gives these aggregates, each once and in order, replayed from
  all of those events.
-/

namespace EventStore

open Sql Text

variable {σ : Type}

/-! ## The event log as a table -/

namespace EventRow

/-- A row of the event log, as a row of a table. -/
def record (r : EventRow) : Record := fun name =>
  (EventColumn.all.find? (·.identifier = name)).map r.cell

/-- The row of the event log that a row of a table is read as. -/
def ofRecord? (w : Record) : Option EventRow :=
  ofCells? (EventColumn.all.map fun c => (w c.identifier).getD .null)

@[simp] theorem record_identifier (r : EventRow) (c : EventColumn) :
    r.record c.identifier = some (r.cell c) := by
  cases c <;> rfl

theorem record_eq_none {r : EventRow} {name : Identifier}
    (h : ∀ c : EventColumn, c.identifier ≠ name) : r.record name = none := by
  rw [record, List.find?_eq_none.mpr fun c _ => by simpa using h c]
  rfl

theorem ofRecord?_record {r : EventRow} (h : r.Storable) : ofRecord? r.record = some r := by
  simp only [ofRecord?, record_identifier, Option.getD_some]
  exact ofCells?_cells h

end EventRow

/-- Rows that a table of events may hold. -/
structure Logged (rows : List EventRow) : Prop where
  unique : Unique rows
  storable : ∀ row ∈ rows, row.Storable
  trimmed : ∀ row ∈ rows, trim row.aggregateId = row.aggregateId

/-- An executor that answers a plain query with what it gives, read as rows of the event log. -/
def Executor.Answers (x : Executor σ) (k : Collation) (contents : Table → List Record)
    (dialect : Dialect) (q : Select) (d : σ) : Prop :=
  q.Plain → ∀ statement, q.build dialect = .ok statement →
    ∃ out rows d', k.Yields contents q out ∧ x.queryEvents statement d = (.ok rows, d') ∧
      (out.map fun l => EventRow.ofRecord? (l.output q)) = rows.map some

/-- A dialect that can write equality and upper bounds. -/
structure Sql.Dialect.Compares (d : Dialect) : Prop where
  equal : d.operator (.comparison .equal) ≠ none
  lessOrEqual : d.operator (.comparison .lessOrEqual) ≠ none

theorem compares_dialect (k : DialectKind) : k.dialect.Compares := by
  cases k <;> exact ⟨nofun, nofun⟩

namespace ProjectionFilter

/-! ## Filters -/

/-- A column of the projection. One that names no table is so if no column of the event log has its
name. -/
def Owns (p : ProjectionFilter) (c : Column) : Prop :=
  match c.table with
  | some t => t.referencePath = p.table.referencePath
  | none => ∀ e : EventColumn, c.name ≠ some e.identifier

/-- A filter by a projection that is told apart from the event log, with conditions that can be
written and are on the projection alone. -/
structure Proper (p : ProjectionFilter) (s : TableStore) : Prop where
  key : p.key.table = p.table
  apart : p.table.referencePath ≠ s.table.referencePath
  owns : ∀ c ∈ p.conditions, ∀ column ∈ c.columns, p.Owns column
  checked : Condition.checkAll s.dialect p.conditions = .ok ()

/-- Whether a row of the projection has an aggregate as its key and meets all conditions. -/
def Covers (p : ProjectionFilter) (k : Collation) (id : String) (w : Record) : Prop :=
  k.compared .equal (.text id) (w.value p.key.column) = some true ∧
    ∀ c ∈ p.conditions, k.truth w.value c = some true

/-- A row of the event log and one of the projection. -/
def combination (p : ProjectionFilter) (events : Table) (r : EventRow) (w : Record) : Combination :=
  [(events.referencePath, r.record), (p.table.referencePath, w)]

variable {p : ProjectionFilter} {s : TableStore} {k : Collation} {contents : Table → List Record}
  {rows : List EventRow} {aggregateType : String} {maxVersion : Option Nat}

theorem plain_query {events : Table} : (p.query events aggregateType maxVersion).Plain where
  inner := by simp [query]
  distinct := rfl
  limit := rfl
  offset := rfl

/-- A query can be written if the conditions of its filter can. -/
theorem build_query (hs : s.dialect.Compares) (hp : p.Proper s) :
    ∃ statement, (p.query s.table aggregateType maxVersion).build s.dialect = .ok statement := by
  have hall : Condition.checkAll s.dialect (p.query s.table aggregateType maxVersion).conditions =
      .ok () := by
    refine Condition.checkAll_eq_ok_iff.mpr fun c hc => ?_
    rcases List.mem_append.mp hc with hc | hc
    · rcases List.mem_cons.mp hc with rfl | hc
      · exact Condition.check_compare rfl hs.equal _
      · exact Condition.checkAll_eq_ok_iff.mp hp.checked c hc
    · obtain ⟨version, -, rfl⟩ := Option.map_eq_some_iff.mp (Option.mem_toList.mp hc)
      exact Condition.check_compare rfl hs.lessOrEqual _
  exact ⟨_, Select.build_of_checked rfl rfl hall⟩

/-! ## What the query selects -/

theorem value_combination_event (r : EventRow) (w : Record) (c : EventColumn) :
    (p.combination s.table r w).value (c.of s.table) = r.cell c := by
  simp [combination, Combination.value, Combination.value?, EventColumn.of, EventColumn.qualified,
    QualifiedColumn.column]

theorem value_combination (hp : p.Proper s) (r : EventRow) (w : Record) {c : Column}
    (hc : p.Owns c) : (p.combination s.table r w).value c = w.value c := by
  obtain ⟨_ | name, table, aliasName⟩ := c
  · rfl
  cases table with
  | none =>
    have hnone : r.record name = none :=
      EventRow.record_eq_none fun e he => hc e (congrArg some he.symm)
    simp [combination, Combination.value, Combination.value?, Record.value, hnone]
  | some t =>
    have hpath : t.referencePath = p.table.referencePath := hc
    have hapart : (p.table.referencePath == s.table.referencePath) = false := by
      simpa using hp.apart
    simp [combination, Combination.value, Combination.value?, Record.value, hpath, hapart,
      List.lookup_cons]

/-- What a query selects is a row of its own table. -/
theorem output_combination (r : EventRow) (w : Record) :
    (p.combination s.table r w).output (p.query s.table aggregateType maxVersion) = r.record := by
  funext name
  simp [combination, Combination.output, Combination.value?, query, Table.allColumns, Column.of,
    Column.all]

theorem combinations_query (hp : p.Proper s)
    (hevents : contents s.table = rows.map EventRow.record) :
    combinations contents (p.query s.table aggregateType maxVersion).tables =
      rows.flatMap fun r => (contents p.table).map (p.combination s.table r) := by
  have htables : (p.query s.table aggregateType maxVersion).tables = [s.table, p.table] := by
    simp [Select.tables, query, hp.key]
  rw [htables, combinations_pair, hevents, List.flatMap_map]
  rfl

theorem joins_query_iff (hp : p.Proper s) (r : EventRow) (w : Record) :
    (p.query s.table aggregateType maxVersion).joins.all
        (k.joins (p.combination s.table r w).value) ↔
      k.compared .equal (.text r.aggregateId) (w.value p.key.column) = some true := by
  have hleft : (p.combination s.table r w).value
      (EventColumn.aggregateId.qualified s.table).column = .text r.aggregateId :=
    value_combination_event r w .aggregateId
  have hright : (p.combination s.table r w).value p.key.column = w.value p.key.column :=
    value_combination hp r w (congrArg Table.referencePath hp.key)
  simp [query, Collation.joins, hleft, hright]

theorem truth_type (hk : Ordered k) {r : EventRow} (htype : r.aggregateType = aggregateType)
    (w : Record) : k.truth (p.combination s.table r w).value
      (.eq (EventColumn.aggregateType.of s.table) (.text aggregateType)) = some true := by
  simp [Condition.eq, Condition.compare, Collation.truth, Collation.predicate,
    value_combination_event, EventRow.cell, Collation.compared, Datum.isNull, Comparison.holds,
    htype, hk.texts]

theorem truth_version_iff (hk : Ordered k) {r : EventRow} (hr : r.Storable) (w : Record)
    (version : Nat) : k.truth (p.combination s.table r w).value
      (.le (EventColumn.version.of s.table) (versionBound version)) = some true ↔
        r.version ≤ version := by
  rw [← keptVersion_le_iff hr, ← hk.compared_le, Condition.le, Condition.compare, Collation.truth,
    value_combination_event]
  rfl

theorem meets_query_iff (hk : Ordered k) (hp : p.Proper s) {r : EventRow} (hr : r.Storable)
    (htype : r.aggregateType = aggregateType) (w : Record) :
    k.meets (p.combination s.table r w).value (p.query s.table aggregateType maxVersion) ↔
      (∀ c ∈ p.conditions, k.truth w.value c = some true) ∧
        ∀ version ∈ maxVersion, r.version ≤ version := by
  have hconditions : ∀ c ∈ p.conditions,
      k.truth (p.combination s.table r w).value c = k.truth w.value c := fun c hc =>
    Collation.truth_congr c fun column hcolumn =>
      value_combination hp r w (hp.owns c hc column hcolumn)
  have hbounds : (∀ c ∈ (maxVersion.map fun version =>
      .le (EventColumn.version.of s.table) (versionBound version)).toList,
        decide (k.truth (p.combination s.table r w).value c = some true) = true) ↔
      ∀ version ∈ maxVersion, r.version ≤ version := by
    simp [truth_version_iff hk hr]
  rw [Collation.meets, List.all_eq_true, query, List.forall_mem_append, List.forall_mem_cons,
    hbounds]
  simp only [decide_eq_true_eq, truth_type hk htype, true_and]
  exact and_congr_left fun _ => forall₂_congr fun c hc => by rw [hconditions c hc]

/-- Of the events of the type, those up to the highest version are selected with the rows of the
projection that cover their aggregates. -/
theorem selects_query_iff (hk : Ordered k) (hp : p.Proper s) {r : EventRow} (hr : r.Storable)
    (htype : r.aggregateType = aggregateType) (w : Record) :
    k.selects (p.query s.table aggregateType maxVersion) (p.combination s.table r w) ↔
      p.Covers k r.aggregateId w ∧ ∀ version ∈ maxVersion, r.version ≤ version := by
  rw [Collation.selects, Bool.and_eq_true, joins_query_iff hp, meets_query_iff hk hp hr htype,
    Covers, and_assoc]

/-! ## Answers -/

section Answers

variable {S P : Type} {m : Mapping S P} {options : LoadOptions} {out : List Combination}
  {read : List EventRow} (hp : p.Proper s) (hevents : contents s.table = rows.map EventRow.record)
  (hyields : k.Yields contents (p.query s.table m.blueprint.name options.maxVersion) out)

include hp hevents hyields

theorem mem_yields {l : Combination} :
    l ∈ out ↔ (∃ r ∈ rows, ∃ w ∈ contents p.table, p.combination s.table r w = l) ∧
      k.selects (p.query s.table m.blueprint.name options.maxVersion) l := by
  rw [hyields.selected.mem_iff, List.mem_filter, combinations_query hp hevents]
  simp only [List.mem_flatMap, List.mem_map]

variable (hrows : Logged rows) (hread : (out.map fun l => EventRow.ofRecord?
  (l.output (p.query s.table m.blueprint.name options.maxVersion))) = read.map some)

include hrows hread

theorem mem_read {r : EventRow} :
    r ∈ read ↔ r ∈ rows ∧ ∃ w ∈ contents p.table,
      k.selects (p.query s.table m.blueprint.name options.maxVersion)
        (p.combination s.table r w) := by
  have hmem : r ∈ read ↔ some r ∈ read.map some := by simp
  rw [hmem, ← hread, List.mem_map]
  constructor
  · rintro ⟨l, hl, hr⟩
    obtain ⟨⟨r', hr', w, hw, rfl⟩, hselects⟩ := (mem_yields hp hevents hyields).mp hl
    rw [output_combination, EventRow.ofRecord?_record (hrows.storable r' hr')] at hr
    obtain rfl := Option.some.inj hr
    exact ⟨hr', w, hw, hselects⟩
  · rintro ⟨hr, w, hw, hselects⟩
    refine ⟨_, (mem_yields hp hevents hyields).mpr ⟨⟨r, hr, w, hw, rfl⟩, hselects⟩, ?_⟩
    rw [output_combination, EventRow.ofRecord?_record (hrows.storable r hr)]

/-- The answer has the events of the aggregates that are covered. -/
theorem finds_of_yields (hk : Ordered k) :
    m.Finds options (fun id => ∃ w ∈ contents p.table, p.Covers k id w) rows read := by
  intro r hr
  obtain ⟨htype, hversion⟩ := Mapping.selects_iff.mp hr
  rw [mem_read hp hevents hyields hrows hread]
  refine and_congr_right fun hmem => exists_congr fun w => and_congr_right fun _ => ?_
  rw [selects_query_iff hk hp (hrows.storable r hmem) htype]
  exact and_iff_left hversion

/-- They come in the order of their aggregates. -/
theorem sorted_of_yields : read.Pairwise fun r r' =>
    k.compare (.text r.aggregateId) (.text r'.aggregateId) ≠ .gt := by
  have hfilter := congrArg (List.filterMap id) hread
  rw [List.filterMap_map, List.filterMap_map, Function.id_comp, Function.id_comp,
    List.filterMap_some] at hfilter
  -- the order is one of combinations, each of which is read as the row that is in it
  rw [← hfilter, List.pairwise_filterMap]
  refine hyields.sorted.imp_of_mem fun {l l'} hl hl' hprecedes r hr r' hr' hgt => ?_
  obtain ⟨⟨r₀, hr₀, w, -, rfl⟩, -⟩ := (mem_yields hp hevents hyields).mp hl
  obtain ⟨⟨r₁, hr₁, w', -, rfl⟩, -⟩ := (mem_yields hp hevents hyields).mp hl'
  rw [output_combination, EventRow.ofRecord?_record (hrows.storable r₀ hr₀)] at hr
  rw [output_combination, EventRow.ofRecord?_record (hrows.storable r₁ hr₁)] at hr'
  obtain rfl := Option.some.inj hr
  obtain rfl := Option.some.inj hr'
  simp [Collation.precedes, query, EventColumn.keyOf, value_combination_event, EventRow.cell,
    hgt] at hprecedes

end Answers

end ProjectionFilter

/-! ## Loads -/

namespace Repository

variable {S P π : Type} {r : Repository S P σ π} {s : TableStore} {x : Executor σ}
  {p : ProjectionFilter} {options : LoadOptions} {k : Collation} {contents : Table → List Record}
  {rows : List EventRow} {d : σ}

/-- A load that is answered rebuilds the aggregates of the answer. -/
theorem loadProjected_eq {read : List EventRow} {statement : Statement} {d' : σ}
    (hbuild : (p.query s.table r.blueprint.name options.maxVersion).build s.dialect = .ok statement)
    (hquery : x.queryEvents statement d = (.ok read, d')) (b : π) :
    (r.loadProjected s x p options (d, b)).1 = r.aggregatesOfRows options read := by
  have hrun : s.readProjected x r.blueprint.name p options.maxVersion d = (.ok read, d') := by
    rw [TableStore.readProjected, TableStore.run, hbuild]
    exact hquery
  have hstored : (stored (s.readProjected x r.blueprint.name p options.maxVersion) :
      RepositoryM σ π (List EventRow)) (d, b) = (.ok read, (d', b)) := by
    rw [stored, hrun]
  unfold loadProjected
  rw [bind_of_ok hstored]
  cases r.aggregatesOfRows options read <;> rfl

/-- A load gives the aggregates of the type that have an event up to the ceiling and are covered by
a row of the projection, in order and each once. Each is replayed from all of its events up to the
ceiling; the load fails if this fails for one of them. -/
theorem loadProjected_eq_covered (hk : Ordered k) (hs : s.dialect.Compares) (hp : p.Proper s)
    (hrows : Logged rows) (hevents : contents s.table = rows.map EventRow.record)
    (hx : x.Answers k contents s.dialect (p.query s.table r.blueprint.name options.maxVersion) d)
    (b : π) :
    let result := (r.loadProjected s x p options (d, b)).1
    let found := fun id =>
      (∃ w ∈ contents p.table, p.Covers k id w) ∧ r.rowsUpTo options id rows ≠ []
    ((∃ e, result = .error e) ↔
      ∃ id, found id ∧ ∃ e, r.rebuildRows id (r.rowsUpTo options id rows) = .error e) ∧
    ∀ l, result = .ok l →
      (l.Pairwise fun a a' => k.compare (.text a.id.text) (.text a'.id.text) ≠ .gt) ∧
      (l.map (·.id)).Nodup ∧
      ∀ a, a ∈ l ↔ found a.id.text ∧
        r.rebuildRows a.id.text (r.rowsUpTo options a.id.text rows) = .ok a ∧
        Mapping.keeps options a := by
  intro result found
  obtain ⟨statement, hbuild⟩ : ∃ statement,
      (p.query s.table r.blueprint.name options.maxVersion).build s.dialect = .ok statement :=
    ProjectionFilter.build_query hs hp
  obtain ⟨out, read, d', hyields, hquery, hread⟩ := hx ProjectionFilter.plain_query statement hbuild
  have hresult : result = r.aggregatesOfRows options read := loadProjected_eq hbuild hquery b
  have hfinds := ProjectionFilter.finds_of_yields hp hevents hyields hrows hread hk
  rw [hresult]
  refine ⟨Mapping.aggregatesOfRows_fails_iff hfinds hrows.unique.ids, fun l hl => ?_⟩
  obtain ⟨hnodup, hsublist, hmem⟩ :=
    Mapping.of_aggregatesOfRows hfinds hrows.unique.ids hrows.trimmed hl
  refine ⟨?_, ?_, hmem⟩
  -- groups come in the order of their first rows, which is that of the answer
  · have hsorted := ProjectionFilter.sorted_of_yields hp hevents hyields hrows hread
    have htexts : (l.map (·.id.text)).Pairwise fun t u => k.compare (.text t) (.text u) ≠ .gt :=
      (List.pairwise_map.mpr hsorted).sublist hsublist
    exact List.pairwise_map.mp htexts
  · exact List.Nodup.of_map Identity.text (by rwa [List.map_map])

/-! ## A directory of accounts -/

/-- The rows that a query gives, in the order of the tables. -/
def rowsGiven (k : Collation) (q : Select) (contents : Table → List Record) : List EventRow :=
  ((combinations contents q.tables).filter (k.selects q)).filterMap fun l =>
    EventRow.ofRecord? (l.output q)

/-- A database whose states are the contents of its tables, and that knows one query. -/
def oneQuery (k : Collation) (dialect : Dialect) (q : Select) : Executor (Table → List Record) where
  execute _ := pure ()
  executeBatch _ := pure ()
  queryEvents statement := fun contents =>
    if (q.build dialect).toOption = some statement then (.ok (rowsGiven k q contents), contents)
    else (.error (.backend "unknown statement"), contents)

theorem queryEvents_oneQuery {dialect : Dialect} {q : Select} {statement : Statement}
    (h : q.build dialect = .ok statement) :
    (oneQuery k dialect q).queryEvents statement contents =
      (.ok (rowsGiven k q contents), contents) :=
  if_pos (congrArg Except.toOption h)

/-- It answers the query if the order of the tables is the one to sort by. -/
theorem answers_oneQuery {dialect : Dialect} {q : Select}
    (hsorted : ((combinations contents q.tables).filter (k.selects q)).Pairwise fun l l' =>
      k.precedes l.value l'.value q.orderBy)
    (hrows : ∀ l ∈ (combinations contents q.tables).filter (k.selects q),
      (EventRow.ofRecord? (l.output q)).isSome) :
    (oneQuery k dialect q).Answers k contents dialect q contents := by
  intro _ statement hbuild
  refine ⟨_, _, _, ⟨List.Perm.refl _, hsorted⟩, queryEvents_oneQuery hbuild, ?_⟩
  rw [rowsGiven, List.map_filterMap_some_eq_filter_map_isSome]
  refine (List.filter_eq_self.mpr fun o ho => ?_).symm
  obtain ⟨l, hl, rfl⟩ := List.mem_map.mp ho
  exact hrows l hl

open Accounts

def accountLedger : Mapping Account AccountEvent := ⟨Account.blueprint, .json AccountEvent⟩

/-- The accounts of Ann, with a deposit, and of Bea. -/
def accountRows : List EventRow :=
  let bea : AggregateId := ⟨"bea", by decide, by decide, by decide⟩
  [⟨⟨1⟩, Life.annsId, 1, .system, .epoch, .none, .opened "Ann" 5⟩,
   ⟨⟨2⟩, Life.annsId, 2, .system, .epoch, .none, .moneyDeposited 3⟩,
   ⟨⟨3⟩, bea, 1, .system, .epoch, .none, .opened "Bea" 7⟩].map accountLedger.rowOf

def accountEvents : TableStore :=
  ⟨.generic, ⟨none, .named ⟨"AccountLog", by decide, by decide⟩ none⟩⟩

def accountOwners : Table := ⟨none, .named ⟨"Owners", by decide, by decide⟩ none⟩

def ownerColumn : QualifiedColumn := ⟨⟨"Owner", by decide, by decide⟩, accountOwners, none⟩

/-- The accounts that Ann owns. -/
def annsAccounts : ProjectionFilter where
  table := accountOwners
  key := ⟨⟨"Account", by decide, by decide⟩, accountOwners, none⟩
  conditions := [.eq ownerColumn.column (.text "Ann")]

def ownerRecord (id owner : Datum) : Record := fun name =>
  if name.text = "Account" then some id else if name.text = "Owner" then some owner else none

/-- The projection has two rows for the account of Ann, and knows no owner for that of Bea. -/
def accountTables (t : Table) : List Record :=
  if t = accountEvents.table then accountRows.map EventRow.record
  else
    [ownerRecord (.text "ann") (.text "Ann"), ownerRecord (.text "bea") .null,
     ownerRecord (.text "ann") (.text "Ann"), ownerRecord .null (.text "Ann")]

/-- The query for the events up to the first version. -/
def annsQuery : Select := annsAccounts.query accountEvents.table Account.blueprint.name (some 1)

def accountRepository : Repository Account AccountEvent (Table → List Record) Unit :=
  { accountLedger with
    storage := accountEvents.storage (oneQuery plainCollation .generic annsQuery)
    publisher := ⟨fun _ => pure (.ok ())⟩ }

/-- A load up to the first version gives the account of Ann as it was then, and once. -/
theorem annsAccounts_found :
    let options : LoadOptions := { maxVersion := some 1 }
    let x := oneQuery plainCollation .generic annsQuery
    let result :=
      (accountRepository.loadProjected accountEvents x annsAccounts options (accountTables, ())).1
    Ordered plainCollation ∧ accountEvents.dialect.Compares ∧ annsAccounts.Proper accountEvents ∧
      Logged accountRows ∧
      accountTables accountEvents.table = accountRows.map EventRow.record ∧
      x.Answers plainCollation accountTables accountEvents.dialect annsQuery accountTables ∧
      ∃ l, result = .ok l ∧ (l.map fun a => (a.id, a.version)) = [(Life.annsId, 1)] ∧
        ∀ a, a ∈ l ↔
          ((∃ w ∈ accountTables accountOwners, annsAccounts.Covers plainCollation a.id.text w) ∧
            accountRepository.rowsUpTo options a.id.text accountRows ≠ []) ∧
          accountRepository.rebuildRows a.id.text
            (accountRepository.rowsUpTo options a.id.text accountRows) = .ok a ∧
          Mapping.keeps options a := by
  intro options x result
  have hk : Ordered plainCollation := exact_plainCollation.ordered
  have hs : accountEvents.dialect.Compares := compares_dialect .generic
  have hp : annsAccounts.Proper accountEvents := by
    refine ⟨rfl, by decide, ?_, by decide⟩
    intro c hc column hcolumn
    rw [List.mem_singleton.mp hc] at hcolumn
    rw [List.mem_singleton.mp hcolumn]
    rfl
  have hrows : Logged accountRows :=
    ⟨⟨by decide +kernel, by decide +kernel⟩, by decide +kernel, by decide +kernel⟩
  have hevents : accountTables accountEvents.table = accountRows.map EventRow.record := if_pos rfl
  have hx : x.Answers plainCollation accountTables accountEvents.dialect (annsAccounts.query
      accountEvents.table accountRepository.blueprint.name options.maxVersion) accountTables :=
    answers_oneQuery (q := annsQuery) (by decide +kernel) (by decide +kernel)
  obtain ⟨statement, hbuild⟩ : ∃ statement, (annsAccounts.query accountEvents.table
      accountRepository.blueprint.name options.maxVersion).build accountEvents.dialect =
        .ok statement := ProjectionFilter.build_query hs hp
  have hquery : x.queryEvents statement accountTables =
      (.ok (rowsGiven plainCollation annsQuery accountTables), accountTables) :=
    queryEvents_oneQuery hbuild
  have hresult : result = accountRepository.aggregatesOfRows options
      (rowsGiven plainCollation annsQuery accountTables) := loadProjected_eq hbuild hquery ()
  have hfound : (accountRepository.aggregatesOfRows options
      (rowsGiven plainCollation annsQuery accountTables)).map
        (fun l => l.map fun a => (a.id, a.version)) = .ok [(Life.annsId, 1)] := by decide +kernel
  obtain ⟨l, hl, hids⟩ := except_map_eq_ok_iff.mp hfound
  have hresult := hresult.trans hl
  have hloads := loadProjected_eq_covered (r := accountRepository) hk hs hp hrows hevents hx ()
  exact ⟨hk, hs, hp, hrows, hevents, hx, l, hresult, hids, (hloads.2 l hresult).2.2⟩

end Repository

end EventStore
