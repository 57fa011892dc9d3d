import EventStore.Proofs.Lists
import EventStore.Proofs.Compilation
import EventStore.Storage.Table

/-!
# The statements of a storage in a table

Proved here:

* `ofCells?_cells`: a row whose version fits is read back from its cells;
* `insertStatements_eq`: a batch of such rows is cut into insertions, each of which is well formed
  whatever the table and the dialect, and which together carry the rows of the batch;
* `selectStatement_eq`, `values_select`: the query of a filter is well formed if the dialect can
  spell it, and carries what the filter names.
-/

namespace EventStore

open Sql

/-! ## Cells -/

/-- The cell of a row in a column. -/
def EventRow.cell (r : EventRow) : EventColumn → Datum
  | .aggregateType => .text r.aggregateType
  | .aggregateId => .text r.aggregateId
  | .eventType => .text r.eventType
  | .body => .text r.body
  | .eventId => .text r.eventId.text
  | .actorId => .ofOption .text r.actorId
  | .occurredOn => .timestamp r.occurredOn
  | .version => .integer (.ofNat r.version)
  | .deleteAction => .text r.deleteAction

def EventRow.line (r : EventRow) : List Datum := EventColumn.all.map r.cell

/-- A version that the table can hold. -/
def EventRow.Storable (r : EventRow) : Prop := r.version ≤ maxStoredVersion

instance (r : EventRow) : Decidable r.Storable := inferInstanceAs (Decidable (_ ≤ _))

theorem cells_eq {r : EventRow} (h : r.Storable) : r.cells = .ok r.line := if_pos h

theorem cells_of_large {r : EventRow} (h : ¬ r.Storable) :
    r.cells = .error (.versionTooLarge r.slot) := if_neg h

theorem toInt_ofNat {n : Nat} (h : n ≤ maxStoredVersion) : (Int64.ofNat n).toInt = n := by
  unfold maxStoredVersion at h
  exact Int64.toInt_ofNat_of_lt (by omega)

theorem ofCells?_cells {r : EventRow} (h : r.Storable) : EventRow.ofCells? r.line = some r := by
  obtain ⟨aggregateType, aggregateId, eventType, body, eventId, actorId, occurredOn, version,
    deleteAction⟩ := r
  have hversion : ((version : Int).bmod Int64.size).toNat = version := by
    simpa using congrArg Int.toNat (toInt_ofNat h)
  cases actorId <;>
    simp [EventRow.line, EventColumn.all, EventRow.cell, EventRow.ofCells?, Datum.ofOption,
      Uuid.ofText?_text, hversion]

/-! ## Chunks -/

variable {α : Type}

theorem flatten_chunks {size : Nat} (hsize : size ≠ 0) (l : List α) :
    (chunks size l).flatten = l := by
  fun_induction chunks size l with
  | case1 l hnil => simp [hnil.resolve_left hsize]
  | case2 l _ ih => rw [List.flatten_cons, ih, List.take_append_drop]

theorem mem_chunks {size : Nat} {l c : List α} (h : c ∈ chunks size l) :
    c ≠ [] ∧ c.length ≤ size ∧ ∀ a ∈ c, a ∈ l := by
  fun_induction chunks size l with
  | case1 => simp at h
  | case2 l hne ih =>
    rcases List.mem_cons.mp h with rfl | h
    · refine ⟨?_, List.length_take_le _ _, fun a ha => List.mem_of_mem_take ha⟩
      simpa [not_or] using hne
    · obtain ⟨hc, hlen, hmem⟩ := ih h
      exact ⟨hc, hlen, fun a ha => List.mem_of_mem_drop (hmem a ha)⟩

/-- A list that is a whole number of lines long is cut into its lines. -/
theorem chunks_flatten {size : Nat} (hsize : size ≠ 0) {ls : List (List α)}
    (hls : ∀ l ∈ ls, l.length = size) : chunks size ls.flatten = ls := by
  induction ls with
  | nil => rw [chunks]; simp
  | cons l ls ih =>
    have hl := hls l List.mem_cons_self
    have hne : l ++ ls.flatten ≠ [] := fun e => by
      have := congrArg List.length (List.append_eq_nil_iff.mp e).1
      simp only [List.length_nil] at this
      omega
    rw [chunks, if_neg (by simp [hsize, hne]), List.flatten_cons, List.take_left' hl,
      List.drop_left' hl, ih fun m hm => hls m (List.mem_cons_of_mem _ hm)]

/-! ## Insertions -/

namespace TableStore

variable {s : TableStore} {l : List EventRow}

/-- The insertion of all rows at once. -/
def insertion (s : TableStore) (l : List EventRow) : Insert :=
  ⟨EventColumn.all.map (·.of s.table), l.map EventRow.line⟩

theorem sameTable_self (t : Table) : t.sameTable t = true := by
  rcases t with ⟨schema, ⟨name, aliasName⟩ | ⟨aliasName⟩⟩ <;>
    simp [Table.sameTable, Table.name?, Table.alias?]

theorem target_insertion : (s.insertion l).target = .ok s.table := by
  simp [insertion, Insert.target, EventColumn.all, EventColumn.of, EventColumn.qualified,
    QualifiedColumn.column, Insert.owner, Insert.checkOwners, sameTable_self, bind, Except.bind,
    pure, Except.pure]

theorem checkWidths_lines (row : Nat) (l : List EventRow) :
    Insert.checkWidths EventColumn.all.length row (l.map EventRow.line) = .ok () := by
  induction l generalizing row with
  | nil => rfl
  | cons r l ih =>
    have hwidth : r.line.length = EventColumn.all.length := List.length_map _
    rw [List.map_cons, Insert.checkWidths, if_pos hwidth]
    exact ih _

theorem build_insertion (d : Dialect) (hl : l ≠ []) :
    (s.insertion l).build d = .ok (.ofTokens d ((s.insertion l).tokens s.table)) := by
  have hrows : (s.insertion l).rows.isEmpty = false := by simp [insertion, hl]
  have hwidths : Insert.checkWidths (s.insertion l).columns.length 0 (s.insertion l).rows =
      .ok () := by
    rw [insertion, List.length_map]
    exact checkWidths_lines 0 l
  rw [Insert.build_eq, target_insertion]
  simp only [bind, Except.bind, hrows, Bool.false_eq_true, ↓reduceIte, hwidths, pure, Except.pure]

theorem mapM_cells_eq (h : ∀ r ∈ l, r.Storable) :
    l.mapM EventRow.cells = .ok (l.map EventRow.line) :=
  mapM_eq_ok fun r hr => cells_eq (h r hr)

theorem insertStatement_eq (hl : l ≠ []) (h : ∀ r ∈ l, r.Storable) :
    s.insertStatement l = .ok (.ofTokens s.dialect ((s.insertion l).tokens s.table)) := by
  have hbuild := build_insertion (s := s) s.dialect hl
  unfold insertion at hbuild
  simp only [insertStatement, mapM_cells_eq h, bind, Except.bind, hbuild]
  rfl

/-- The statements of a batch, cut as the limit on parameters demands. -/
theorem insertStatements_eq (h : ∀ r ∈ l, r.Storable) :
    s.insertStatements l = .ok ((chunks maxRowsPerInsert l).map fun c =>
      .ofTokens s.dialect ((s.insertion c).tokens s.table)) := by
  refine mapM_eq_ok fun c hc => insertStatement_eq (mem_chunks hc).1 fun r hr => ?_
  exact h r ((mem_chunks hc).2.2 r hr)

/-! ## Queries -/

/-- A dialect that can write the conditions on the type and on the aggregates. -/
structure Reads (d : Dialect) : Prop where
  equal : d.operator (.comparison .equal) ≠ none
  inList : d.operator .inList ≠ none

theorem reads_dialect (k : DialectKind) : Reads k.dialect := by
  cases k <;> exact ⟨nofun, nofun⟩

/-- The conditions of a query can be written unless its filter names no aggregate, or has a highest
version that the dialect cannot compare with. -/
theorem checked_select (hs : Reads s.dialect) {f : EventFilter}
    (hids : f.isEmptySelection = false)
    (hversion : f.maxVersion = none ∨ s.dialect.operator (.comparison .lessOrEqual) ≠ none) :
    Condition.checkAll s.dialect (s.select f).conditions = .ok () := by
  refine Condition.checkAll_eq_ok_iff.mpr fun c hc => ?_
  rcases List.mem_cons.mp hc with rfl | hc
  · exact Condition.check_compare rfl hs.equal _
  rcases List.mem_append.mp hc with hc | hc
  · obtain ⟨ids, hsome, rfl⟩ := Option.map_eq_some_iff.mp (Option.mem_toList.mp hc)
    rcases ids with _ | ⟨id, _ | ⟨id', ids⟩⟩
    · simp [EventFilter.isEmptySelection, hsome] at hids
    · exact Condition.check_compare rfl hs.equal _
    · exact Condition.check_inList rfl hs.inList _ _
  · obtain ⟨version, hsome, rfl⟩ := Option.map_eq_some_iff.mp (Option.mem_toList.mp hc)
    rcases hversion with hnone | hle
    · rw [hnone] at hsome
      cases hsome
    · exact Condition.check_compare rfl hle _

theorem selectStatement_eq (hs : Reads s.dialect) {f : EventFilter}
    (hids : f.isEmptySelection = false) (hversion : f.maxVersion = none) :
    s.selectStatement f = .ok (.ofTokens s.dialect ((s.select f).tokens s.table)) :=
  Select.build_of_checked rfl rfl (checked_select hs hids (Or.inl hversion))

theorem eq_of_selectStatement {f : EventFilter} {statement : Statement}
    (h : s.selectStatement f = .ok statement) :
    statement = .ofTokens s.dialect ((s.select f).tokens s.table) := by
  obtain ⟨t, htable, hstatement⟩ := Select.eq_of_build h
  rw [← Option.some.inj htable] at hstatement
  exact hstatement

theorem isEmptySelection_of_selectStatement {f : EventFilter} {statement : Statement}
    (h : s.selectStatement f = .ok statement) : f.isEmptySelection = false := by
  obtain ⟨aggregateType, ids, version⟩ := f
  rcases ids with _ | _ | ⟨id, ids⟩
  · rfl
  · rw [selectStatement, Select.build_eq] at h
    have hlist : ∃ e, Condition.checkLeaf s.dialect EventColumn.aggregateId.column
        (.inList false []) = .error e := by
      unfold Condition.checkLeaf
      split
      · exact ⟨_, rfl⟩
      · split <;> exact ⟨_, rfl⟩
    obtain ⟨e, hlist⟩ := hlist
    cases hleaf : Condition.checkLeaf s.dialect EventColumn.aggregateType.column
      (.compare .equal (.text aggregateType)) <;>
      simp [select, Condition.checkAll, Condition.check, Condition.eq, Condition.compare,
        Condition.inList, hleaf, hlist, bind, Except.bind] at h
  · simp [EventFilter.isEmptySelection]

/-- The values of a query: the type, the aggregates, and the bound of the versions. -/
theorem values_select (f : EventFilter) :
    tokenValues ((s.select f).tokens s.table) = .text f.aggregateType ::
      ((f.aggregateIds.getD []).map .text ++ (f.maxVersion.map versionBound).toList) := by
  obtain ⟨aggregateType, ids, version⟩ := f
  rw [tokenValues_select]
  rcases ids with _ | _ | ⟨id, _ | ⟨id', ids⟩⟩ <;> cases version <;>
    simp [select, Select.values, Condition.eq, Condition.le, Condition.inList, Condition.compare,
      Condition.values, Predicate.values]

end TableStore

end EventStore
