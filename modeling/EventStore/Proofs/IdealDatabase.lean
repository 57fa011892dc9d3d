import EventStore.Proofs.MemoryLog
import EventStore.Proofs.Statements
import EventStore.Proofs.Truth
import EventStore.Storage.Database
import Mathlib.Order.Compare
import Mathlib.Data.String.Basic

/-!
# An ideal database

`Ideal` is what the storage in a table may rely on at best: a batch of insertions is carried out as
a whole, exactly when it leaves event ids and slots unique, and a query gives the rows of which all
its conditions are true.

Proved here: `idealDatabase` is such a database (`ideal_idealDatabase`).
-/

namespace EventStore

open Sql

variable {σ : Type}

/-- The value of a column in a row of the event log. -/
def EventRow.value (r : EventRow) (c : Column) : Datum :=
  match EventColumn.all.find? fun k => c.name = some k.identifier with
  | some k => r.cell k
  | none => .null

/-- Insertions that bring some rows to the table of a storage. -/
structure Brings (s : TableStore) (inserts : List Insert) (rows : List EventRow) : Prop where
  columns : ∀ i ∈ inserts, i.columns = EventColumn.all.map (·.of s.table)
  cells : (inserts.flatMap (·.rows)).map EventRow.ofCells? = rows.map some

/-- A collation in which texts are equal only to themselves, and integers have their order. -/
structure Exact (k : Collation) : Prop where
  texts : ∀ t u, k.compare (.text t) (.text u) = .eq ↔ t = u
  integers : ∀ m n, k.compare (.integer m) (.integer n) ≠ .gt ↔ m.toInt ≤ n.toInt

/-- A collation in which texts are equal to themselves, and integers have their order. -/
structure Ordered (k : Collation) : Prop where
  texts : ∀ t, k.compare (.text t) (.text t) = .eq
  integers : ∀ m n, k.compare (.integer m) (.integer n) ≠ .gt ↔ m.toInt ≤ n.toInt

theorem Exact.ordered {k : Collation} (h : Exact k) : Ordered k :=
  ⟨fun t => (h.texts t t).mpr rfl, h.integers⟩

/-- An executor over a database whose states hold the rows of `table`, in any order, and that
compares values by the collation `k`. -/
structure Ideal (s : TableStore) (x : Executor σ) (table : σ → List EventRow) (k : Collation) :
    Prop where
  exact : Exact k
  stores : ∀ {d inserts statements rows},
    inserts.mapM (fun i => i.build s.dialect) = .ok statements → Brings s inserts rows →
    Unique (table d ++ rows) →
    ∃ d', x.executeBatch statements d = (.ok (), d') ∧ (table d').Perm (table d ++ rows)
  refuses : ∀ {d inserts statements rows},
    inserts.mapM (fun i => i.build s.dialect) = .ok statements → Brings s inserts rows →
    Unique (table d) → ¬ Unique (table d ++ rows) →
    ∃ e d', x.executeBatch statements d = (.error e, d') ∧ e.isClash ∧ (table d').Perm (table d)
  answers : ∀ {d f statement}, s.selectStatement f = .ok statement →
    ∃ l d', x.queryEvents statement d = (.ok l, d') ∧ (table d').Perm (table d) ∧
      l.Perm ((table d).filter fun r => k.meets r.value (s.select f))

/-! ## What the storage asks of it -/

/-- The batch of a storage, as insertions. -/
def TableStore.insertions (s : TableStore) (l : List EventRow) : List Insert :=
  (chunks maxRowsPerInsert l).map s.insertion

theorem brings_insertions {s : TableStore} {l : List EventRow} (h : ∀ r ∈ l, r.Storable) :
    Brings s (s.insertions l) l where
  columns := by
    intro i hi
    obtain ⟨c, -, rfl⟩ := List.mem_map.mp hi
    rfl
  cells := by
    have hrows : (s.insertions l).flatMap (·.rows) = l.map EventRow.line := by
      rw [TableStore.insertions, List.flatMap_map]
      show (chunks maxRowsPerInsert l).flatMap (List.map EventRow.line) = _
      rw [List.flatMap_def, ← List.map_flatten, flatten_chunks (by decide)]
    rw [hrows, List.map_map]
    exact List.map_congr_left fun r hr => ofCells?_cells (h r hr)

theorem build_insertions {s : TableStore} {l : List EventRow} (h : ∀ r ∈ l, r.Storable) :
    ∃ statements, s.insertStatements l = .ok statements ∧
      (s.insertions l).mapM (fun i => i.build s.dialect) = .ok statements := by
  refine ⟨_, TableStore.insertStatements_eq h, ?_⟩
  unfold TableStore.insertions
  rw [List.mapM_map]
  exact mapM_eq_ok fun c hc => TableStore.build_insertion _ (mem_chunks hc).1

/-! ## Queries -/

@[simp] theorem value_column (r : EventRow) (c : EventColumn) : r.value c.column = r.cell c := by
  cases c <;> rfl

variable {k : Collation}

theorem Exact.compared_text (h : Exact k) (t u : String) :
    k.compared .equal (.text t) (.text u) = some true ↔ t = u := by
  simp [Collation.compared, Datum.isNull, Comparison.holds, h.texts]

theorem Exact.truth_eq (h : Exact k) (r : EventRow) (c : EventColumn) (t u : String)
    (hc : r.cell c = .text t) : k.truth r.value (.eq c.column (.text u)) = some true ↔ t = u := by
  simp [Condition.eq, Condition.compare, Collation.truth, Collation.predicate, hc, h.compared_text]

theorem Exact.truth_inList (h : Exact k) (r : EventRow) (c : EventColumn) (t : String)
    (us : List String) (hc : r.cell c = .text t) :
    k.truth r.value (.inList c.column (us.map .text)) = some true ↔ t ∈ us := by
  simp only [Condition.inList, Collation.truth, Collation.predicate, value_column, hc, Truth.negIf,
    Bool.false_eq_true, ↓reduceIte, Truth.any_eq_true_iff, List.map_map, List.mem_map,
    Function.comp_apply, h.compared_text]
  simp

/-- The number that the table keeps for a version. -/
def keptVersion (version : Nat) : Int := (Int64.ofNat version).toInt

theorem keptVersion_eq {version : Nat} (h : version ≤ maxStoredVersion) :
    keptVersion version = version := toInt_ofNat h

/-- No version that the table can hold is above the bound unless it is above the version itself. -/
theorem keptVersion_le_iff {v version : Nat} (h : v ≤ maxStoredVersion) :
    keptVersion v ≤ keptVersion (min version maxStoredVersion) ↔ v ≤ version := by
  rw [keptVersion_eq h, keptVersion_eq (Nat.min_le_right _ _), Int.ofNat_le]
  exact Nat.le_min.trans (and_iff_left h)

theorem Ordered.compared_le (h : Ordered k) (v version : Nat) :
    k.compared .lessOrEqual (.integer (.ofNat v)) (versionBound version) = some true ↔
      keptVersion v ≤ keptVersion (min version maxStoredVersion) := by
  rw [keptVersion, keptVersion, ← h.integers]
  exact Option.some_inj.trans decide_eq_true_iff

theorem Exact.truth_le (h : Exact k) (r : EventRow) (version : Nat) :
    k.truth r.value (.le EventColumn.version.column (versionBound version)) = some true ↔
      keptVersion r.version ≤ keptVersion (min version maxStoredVersion) := by
  rw [← h.ordered.compared_le]
  simp [Condition.le, Condition.compare, Collation.truth, Collation.predicate, EventRow.cell]

/-- Whether a filter accepts a row as the table keeps it. -/
def EventFilter.acceptsCells (f : EventFilter) (r : EventRow) : Bool :=
  r.aggregateType = f.aggregateType
    && f.aggregateIds.all (fun ids => r.aggregateId ∈ ids)
    && f.maxVersion.all fun version =>
      keptVersion r.version ≤ keptVersion (min version maxStoredVersion)

theorem acceptsCells_eq {f : EventFilter} {r : EventRow} (h : f.maxVersion = none ∨ r.Storable) :
    f.acceptsCells r = f.accepts r := by
  unfold EventFilter.acceptsCells EventFilter.accepts
  cases hversion : f.maxVersion with
  | none => rfl
  | some version =>
    have hr : r.Storable := h.resolve_left (by simp [hversion])
    simp only [Option.all_some, keptVersion_le_iff hr]

variable {s : TableStore}

/-- The conditions of a query are true of exactly the rows that its filter accepts. -/
theorem Exact.meets_select (h : Exact k) (f : EventFilter) (r : EventRow) :
    k.meets r.value (s.select f) = f.acceptsCells r := by
  obtain ⟨aggregateType, ids, version⟩ := f
  have htype := h.truth_eq r .aggregateType r.aggregateType aggregateType rfl
  have hversion := h.truth_le r
  rw [Bool.eq_iff_iff]
  rcases ids with _ | _ | ⟨id, _ | ⟨id', ids⟩⟩
  · cases version <;>
      simp [Collation.meets, TableStore.select, EventFilter.acceptsCells, htype, hversion]
  · have hids := h.truth_inList r .aggregateId r.aggregateId [] rfl
    simp only [List.map_nil, List.not_mem_nil, iff_false] at hids
    cases version <;> simp [Collation.meets, TableStore.select, EventFilter.acceptsCells, hids]
  · have hid := h.truth_eq r .aggregateId r.aggregateId id rfl
    cases version <;> simp [Collation.meets, TableStore.select, EventFilter.acceptsCells, htype,
      hversion, hid, and_assoc]
  · have hids := h.truth_inList r .aggregateId r.aggregateId (id :: id' :: ids) rfl
    simp only [List.map_cons] at hids
    cases version <;> simp [Collation.meets, TableStore.select, EventFilter.acceptsCells, htype,
      hversion, hids, and_assoc]

/-! ## Such a database -/

/-- Texts and integers by their order; values of other kinds are only told apart. -/
def plainCollation : Collation where
  compare
    | .text t, .text u => compare t u
    | .integer m, .integer n => compare m.toInt n.toInt
    | v, w => if v = w then .eq else .lt
  like _ _ _ := false

theorem exact_plainCollation : Exact plainCollation where
  texts t u := by simp [plainCollation]
  integers m n := by simp [plainCollation, compare_gt_iff_gt]

/-- Stores the rows of all insertions of a batch, or none. -/
def storeBatch (statements : List Statement) : StorageM (List EventRow) Unit := fun table =>
  match insertRows table (statements.flatMap Database.insertedRows) with
  | .ok table' => (.ok (), table')
  | .error e => (.error e, table)

/-- Whether a query asks for a row. Of its values the first is the type, further texts are the
aggregates, and an integer is the highest version. -/
def asksFor (statement : Statement) (r : EventRow) : Bool :=
  match statement.values.filterMap Datum.text? with
  | [] => false
  | aggregateType :: ids =>
    r.aggregateType = aggregateType && (ids.isEmpty || r.aggregateId ∈ ids)
      && (statement.values.filterMap Datum.integer?).all fun bound =>
        keptVersion r.version ≤ bound.toInt

/-- A database whose state is the table. -/
def idealDatabase : Executor (List EventRow) where
  execute statement := storeBatch [statement]
  executeBatch := storeBatch
  queryEvents statement := fun table => (.ok (table.filter (asksFor statement)), table)

theorem insertRows_of_unique {table l : List EventRow} (h : Unique (table ++ l)) :
    insertRows table l = .ok (table ++ l) := by
  induction l generalizing table with
  | nil => simp [insertRows]
  | cons r l ih =>
    rw [List.append_cons] at h
    obtain ⟨-, -, hid, hslot⟩ := unique_append.mp h.left
    have hslot := hslot r List.mem_cons_self
    have hid := hid r List.mem_cons_self
    rw [insertRows, if_neg (by simpa using hslot), if_neg (by simpa using hid), ih h,
      ← List.append_cons]

theorem insertRows_of_not_unique {table l : List EventRow} (htable : Unique table)
    (h : ¬ Unique (table ++ l)) : ∃ e, insertRows table l = .error e ∧ e.isClash := by
  induction l generalizing table with
  | nil => exact absurd (by simpa using htable) h
  | cons r l ih =>
    rw [insertRows]
    split
    · exact ⟨_, rfl, rfl⟩
    · rename_i hslot
      split
      · exact ⟨_, rfl, rfl⟩
      · rename_i hid
        refine ih (unique_append.mpr ⟨htable, ⟨by simp, by simp⟩, ?_, ?_⟩) (by simpa using h)
        · simpa using hid
        · simpa using hslot

theorem length_of_ofCells? {line : List Datum} {r : EventRow}
    (h : EventRow.ofCells? line = some r) : line.length = EventColumn.all.length := by
  unfold EventRow.ofCells? at h
  split at h
  · rfl
  · cases h

theorem insertedRows_of_build {i : Insert} {d : Dialect} {statement : Statement}
    (h : i.build d = .ok statement)
    (hrows : ∀ line ∈ i.rows, line.length = EventColumn.all.length) :
    Database.insertedRows statement = i.rows.filterMap EventRow.ofCells? := by
  obtain ⟨t, -, rfl⟩ := i.eq_of_build h
  have hvalues : (Statement.ofTokens d (i.tokens t)).values = i.rows.flatten := by
    rw [Statement.values_ofTokens, tokenValues_insert, Insert.values]
  rw [Database.insertedRows, hvalues, chunks_flatten (by decide) hrows]

/-- The statements of insertions carry the rows that the insertions bring. -/
theorem insertedRows_of_brings {s : TableStore} {inserts : List Insert} {rows : List EventRow}
    {statements : List Statement}
    (hbuild : inserts.mapM (fun i => i.build s.dialect) = .ok statements)
    (h : Brings s inserts rows) : statements.flatMap Database.insertedRows = rows := by
  have hcells : ∀ line ∈ inserts.flatMap (·.rows), line.length = EventColumn.all.length := by
    intro line hline
    have hsome : EventRow.ofCells? line ∈ rows.map some := by
      rw [← h.cells]
      exact List.mem_map_of_mem hline
    obtain ⟨r, -, hr⟩ := List.mem_map.mp hsome
    exact length_of_ofCells? hr.symm
  have hall : statements.flatMap Database.insertedRows =
      (inserts.flatMap (·.rows)).filterMap EventRow.ofCells? := by
    clear h
    induction inserts generalizing statements with
    | nil =>
      obtain rfl := Except.ok.inj hbuild
      rfl
    | cons i inserts ih =>
      rw [List.mapM_cons] at hbuild
      cases hi : i.build s.dialect with
      | error e => simp [hi, bind, Except.bind] at hbuild
      | ok statement =>
        cases hrest : inserts.mapM (fun i => i.build s.dialect) with
        | error e => simp [hi, hrest, bind, Except.bind] at hbuild
        | ok rest =>
          simp only [hi, hrest, bind, Except.bind, pure, Except.pure, Except.ok.injEq] at hbuild
          subst hbuild
          rw [List.flatMap_cons, List.flatMap_cons, List.filterMap_append,
            ih hrest fun line hline => hcells line (by simp [hline]),
            insertedRows_of_build hi fun line hline => hcells line (by simp [hline])]
  have hrows := congrArg (List.filterMap id) h.cells
  rw [List.filterMap_map, List.filterMap_map] at hrows
  simpa [hall, Function.comp_def] using hrows

theorem asksFor_of_selectStatement {s : TableStore} {f : EventFilter} {statement : Statement}
    (h : s.selectStatement f = .ok statement) (r : EventRow) :
    asksFor statement r = f.acceptsCells r := by
  have hsome := TableStore.isEmptySelection_of_selectStatement h
  have hvalues : statement.values = _ :=
    (congrArg Statement.values (TableStore.eq_of_selectStatement h)).trans
      ((Statement.values_ofTokens _ _).trans (TableStore.values_select f))
  have htexts : statement.values.filterMap Datum.text? =
      f.aggregateType :: f.aggregateIds.getD [] := by
    rw [hvalues, List.filterMap_cons, List.filterMap_append, List.filterMap_map]
    cases f.maxVersion <;> simp [Function.comp_def, Datum.text?, versionBound]
  have hintegers : statement.values.filterMap Datum.integer? =
      (f.maxVersion.map fun version => Int64.ofNat (min version maxStoredVersion)).toList := by
    rw [hvalues, List.filterMap_cons, List.filterMap_append, List.filterMap_map]
    cases f.maxVersion <;> simp [Function.comp_def, Datum.integer?, versionBound]
  have hversion : (statement.values.filterMap Datum.integer?).all
      (fun bound => keptVersion r.version ≤ bound.toInt) =
      f.maxVersion.all fun version =>
        keptVersion r.version ≤ keptVersion (min version maxStoredVersion) := by
    rw [hintegers]
    cases f.maxVersion with
    | none => rfl
    | some version => exact Bool.and_true _
  simp only [asksFor, htexts, hversion, EventFilter.acceptsCells]
  rcases f with ⟨aggregateType, _ | _ | ⟨id, ids⟩, version⟩
  · simp
  · simp [EventFilter.isEmptySelection] at hsome
  · simp

theorem ideal_idealDatabase (s : TableStore) : Ideal s idealDatabase id plainCollation where
  exact := exact_plainCollation
  stores := by
    intro table inserts statements rows hbuild hbrings hunique
    refine ⟨table ++ rows, ?_, List.Perm.refl _⟩
    have hrows : insertRows table rows = .ok (table ++ rows) := insertRows_of_unique hunique
    show storeBatch statements table = _
    rw [storeBatch, insertedRows_of_brings hbuild hbrings, hrows]
  refuses := by
    intro table inserts statements rows hbuild hbrings htable hunique
    obtain ⟨e, he, hclash⟩ : ∃ e, insertRows table rows = .error e ∧ e.isClash :=
      insertRows_of_not_unique htable hunique
    refine ⟨e, table, ?_, hclash, List.Perm.refl _⟩
    show storeBatch statements table = _
    rw [storeBatch, insertedRows_of_brings hbuild hbrings, he]
  answers := by
    intro table f statement hbuild
    refine ⟨_, table, rfl, List.Perm.refl _, List.Perm.of_eq (List.filter_congr fun r _ => ?_)⟩
    rw [asksFor_of_selectStatement hbuild r, exact_plainCollation.meets_select f r]

end EventStore
