import EventStore.Proofs.SingleInsertions

/-!
# Databases that fail

`Unsteady` is what the storage may rely on without transactions: single insertions are atomic, but
any insertion and any query may fail.

Proved here:

* `Unsteady.enforcing`: event ids and slots stay unique all the same;
* `enforcing_idealDatabase`: so they do in the ideal database;
* `unsteady_flakyDatabase`: `flakyDatabase`, which is away at times, is an unsteady one;
* `chunks_longHistory`: a batch of two insertions.
-/

namespace EventStore

open Sql

variable {σ : Type}

/-- What may become of an insertion of rows. `faults` counts the failures other than clashes. -/
inductive Inserted (table : σ → List EventRow) (faults : σ → Nat) (d : σ) (rows : List EventRow) :
    Except StorageError Unit × σ → Prop
  | stored {d' : σ} (unique : Unique (table d ++ rows)) (perm : (table d').Perm (table d ++ rows))
      (same : faults d' = faults d) : Inserted table faults d rows (.ok (), d')
  | refused {d' : σ} {e : StorageError} (clash : e.isClash) (taken : ¬ Unique (table d ++ rows))
      (perm : (table d').Perm (table d)) (same : faults d' = faults d) :
      Inserted table faults d rows (.error e, d')
  | failed {d' : σ} {e : StorageError} (fault : e.isClash = false)
      (perm : (table d').Perm (table d)) (more : faults d < faults d') :
      Inserted table faults d rows (.error e, d')

/-- What may become of a query for rows. -/
inductive Queried (table : σ → List EventRow) (faults : σ → Nat) (d : σ) (rows : List EventRow) :
    Except StorageError (List EventRow) × σ → Prop
  | answered {d' : σ} {l : List EventRow} (answer : l.Perm rows) (perm : (table d').Perm (table d))
      (same : faults d' = faults d) : Queried table faults d rows (.ok l, d')
  | failed {d' : σ} {e : StorageError} (fault : e.isClash = false)
      (perm : (table d').Perm (table d)) (more : faults d < faults d') :
      Queried table faults d rows (.error e, d')

theorem Queried.of_perm {table : σ → List EventRow} {faults : σ → Nat} {d : σ}
    {rows rows' : List EventRow} {outcome : Except StorageError (List EventRow) × σ}
    (h : Queried table faults d rows outcome) (hperm : rows.Perm rows') :
    Queried table faults d rows' outcome := by
  cases h with
  | answered answer perm same => exact .answered (answer.trans hperm) perm same
  | failed fault perm more => exact .failed fault perm more

/-- An executor that runs a batch in order, over a database that compares values exactly and may
fail at any statement, which then changes nothing. -/
structure Unsteady (s : TableStore) (x : Executor σ) (table : σ → List EventRow)
    (faults : σ → Nat) (k : Collation) : Prop where
  exact : Exact k
  inOrder : x.RunsInOrder
  executes : ∀ {d i statement rows}, i.build s.dialect = .ok statement → Brings s [i] rows →
    Unique (table d) → Inserted table faults d rows (x.execute statement d)
  queries : ∀ {d f statement}, s.selectStatement f = .ok statement →
    Queried table faults d ((table d).filter fun r => k.meets r.value (s.select f))
      (x.queryEvents statement d)

theorem Unsteady.enforcing {s : TableStore} {x : Executor σ} {table : σ → List EventRow}
    {faults : σ → Nat} {k : Collation} (hx : Unsteady s x table faults k) :
    Enforcing s x table where
  stores := by
    intro d d' i statement rows hbuild hbrings hrun hd
    have h := hx.executes hbuild hbrings hd
    rw [hrun] at h
    cases h with
    | stored unique perm _ => exact ⟨unique, perm⟩
  fails := by
    intro d d' i statement rows e hbuild hbrings hrun hd
    have h := hx.executes hbuild hbrings hd
    rw [hrun] at h
    cases h with
    | refused _ _ perm _ => exact perm
    | failed _ perm _ => exact perm
  queries := by
    intro d d' f statement result hstatement hrun
    have h := hx.queries (d := d) hstatement
    rw [hrun] at h
    cases h with
    | answered _ perm _ => exact perm
    | failed _ perm _ => exact perm

/-! ## A database that is away at times -/

structure Flaky where
  rows : List EventRow := []
  /-- For each of the next statements, whether the database is away. -/
  outages : List Bool := []
  /-- How often it has been. -/
  failures : Nat := 0

/-- Does something with the rows unless the database is away. -/
def Flaky.unlessAway {α : Type} (run : StorageM (List EventRow) α) : StorageM Flaky α := fun d =>
  if d.outages.head? = some true then
    (.error (.backend "away"), { d with outages := d.outages.tail, failures := d.failures + 1 })
  else ((run d.rows).1, { d with rows := (run d.rows).2, outages := d.outages.tail })

def flakyDatabase : Executor Flaky :=
  .inOrder (fun statement => Flaky.unlessAway (idealDatabase.execute statement))
    fun statement => Flaky.unlessAway (idealDatabase.queryEvents statement)

section Flaky

variable {s : TableStore} {i : Insert} {statement : Statement} {rows : List EventRow} {d : Flaky}

theorem execute_idealDatabase (hbuild : i.build s.dialect = .ok statement)
    (hbrings : Brings s [i] rows) (table : List EventRow) :
    idealDatabase.execute statement table =
      match insertRows table rows with
      | .ok table' => (.ok (), table')
      | .error e => (.error e, table) := by
  have hall : [i].mapM (fun i => i.build s.dialect) = .ok [statement] := by
    rw [List.mapM_cons, hbuild]
    rfl
  cases hinsert : insertRows table rows with
  | ok table' =>
    show storeBatch [statement] table = (.ok (), table')
    rw [storeBatch, insertedRows_of_brings hall hbrings, hinsert]
  | error e =>
    show storeBatch [statement] table = (.error e, table)
    rw [storeBatch, insertedRows_of_brings hall hbrings, hinsert]

theorem enforcing_idealDatabase (s : TableStore) : Enforcing s idealDatabase id where
  stores := by
    intro table table' i statement rows hbuild hbrings hrun htable
    rw [execute_idealDatabase hbuild hbrings] at hrun
    by_cases hunique : Unique (table ++ rows)
    · rw [insertRows_of_unique hunique] at hrun
      obtain ⟨-, rfl⟩ := Prod.mk.inj hrun
      exact ⟨hunique, List.Perm.refl _⟩
    · obtain ⟨e, he, -⟩ : ∃ e, insertRows table rows = .error e ∧ e.isClash :=
        insertRows_of_not_unique htable hunique
      rw [he] at hrun
      cases hrun
  fails := by
    intro table table' i statement rows e hbuild hbrings hrun _
    rw [execute_idealDatabase hbuild hbrings] at hrun
    cases hrows : insertRows table rows <;> rw [hrows] at hrun <;> cases hrun
    exact List.Perm.refl _
  queries := by
    intro table table' f statement result _ hrun
    obtain ⟨-, rfl⟩ := Prod.mk.inj hrun
    exact List.Perm.refl _

theorem execute_of_unique (hbuild : i.build s.dialect = .ok statement)
    (hbrings : Brings s [i] rows) (hd : d.outages.head? ≠ some true)
    (hunique : Unique (d.rows ++ rows)) :
    flakyDatabase.execute statement d =
      (.ok (), { d with rows := d.rows ++ rows, outages := d.outages.tail }) := by
  show Flaky.unlessAway (idealDatabase.execute statement) d = _
  rw [Flaky.unlessAway, if_neg hd, execute_idealDatabase hbuild hbrings,
    insertRows_of_unique hunique]

theorem execute_of_not_unique (hbuild : i.build s.dialect = .ok statement)
    (hbrings : Brings s [i] rows) (hd : d.outages.head? ≠ some true) (hrows : Unique d.rows)
    (hunique : ¬ Unique (d.rows ++ rows)) :
    ∃ e, e.isClash ∧
      flakyDatabase.execute statement d = (.error e, { d with outages := d.outages.tail }) := by
  obtain ⟨e, he, hclash⟩ := insertRows_of_not_unique hrows hunique
  refine ⟨e, hclash, ?_⟩
  show Flaky.unlessAway (idealDatabase.execute statement) d = _
  rw [Flaky.unlessAway, if_neg hd, execute_idealDatabase hbuild hbrings, he]

theorem execute_of_away (hd : d.outages.head? = some true) :
    flakyDatabase.execute statement d = (.error (.backend "away"),
      { d with outages := d.outages.tail, failures := d.failures + 1 }) :=
  if_pos hd

end Flaky

theorem unsteady_flakyDatabase (s : TableStore) :
    Unsteady s flakyDatabase Flaky.rows Flaky.failures plainCollation where
  exact := exact_plainCollation
  inOrder := rfl
  executes := by
    intro d i statement rows hbuild hbrings hd
    by_cases haway : d.outages.head? = some true
    · rw [execute_of_away haway]
      exact .failed rfl (List.Perm.refl _) (Nat.lt_succ_self _)
    by_cases hunique : Unique (d.rows ++ rows)
    · rw [execute_of_unique hbuild hbrings haway hunique]
      exact .stored hunique (List.Perm.refl _) rfl
    · obtain ⟨e, hclash, hrun⟩ := execute_of_not_unique hbuild hbrings haway hd hunique
      rw [hrun]
      exact .refused hclash hunique (List.Perm.refl _) rfl
  queries := by
    intro d f statement hstatement
    show Queried _ _ d _ (Flaky.unlessAway (idealDatabase.queryEvents statement) d)
    by_cases haway : d.outages.head? = some true
    · rw [Flaky.unlessAway, if_pos haway]
      exact .failed rfl (List.Perm.refl _) (Nat.lt_succ_self _)
    · rw [Flaky.unlessAway, if_neg haway]
      refine .answered (List.Perm.of_eq (List.filter_congr fun r _ => ?_)) (List.Perm.refl _) rfl
      rw [asksFor_of_selectStatement hstatement r, exact_plainCollation.meets_select f r]

namespace TableStore

theorem execute_statementOf {s : TableStore} {l : List EventRow} {d : Flaky} (hne : l ≠ [])
    (hl : ∀ r ∈ l, r.Storable) (hd : d.outages.head? ≠ some true) (hunique : Unique (d.rows ++ l)) :
    flakyDatabase.execute (s.statementOf l) d =
      (.ok (), { d with rows := d.rows ++ l, outages := d.outages.tail }) :=
  execute_of_unique (build_insertion s.dialect hne) (brings_insertion hl) hd hunique

/-! ## Batches of two insertions -/

/-- An event of an aggregate at a version. -/
def versionRow (version : Nat) : EventRow :=
  { firstRow with eventId := ⟨BitVec.ofNat 128 version⟩, version }

/-- The first versions of the aggregate. -/
def history (n : Nat) : List EventRow := (List.range n).map fun i => versionRow (i + 1)

theorem history_succ (n : Nat) : history (n + 1) = history n ++ [versionRow (n + 1)] := by
  rw [history, List.range_succ, List.map_append]
  rfl

theorem length_history (n : Nat) : (history n).length = n := by
  rw [history, List.length_map, List.length_range]

theorem history_ne_nil {n : Nat} (hn : n ≠ 0) : history n ≠ [] := fun hnil =>
  hn (by rw [← length_history n, hnil, List.length_nil])

theorem eq_of_eventId_versionRow {m n : Nat} (hm : m < 2 ^ 128) (hn : n < 2 ^ 128)
    (h : (versionRow m).eventId = (versionRow n).eventId) : m = n := by
  have hvalue : m % 2 ^ 128 = n % 2 ^ 128 := by
    simpa [versionRow] using congrArg (fun id : Uuid => id.value.toNat) h
  rwa [Nat.mod_eq_of_lt hm, Nat.mod_eq_of_lt hn] at hvalue

theorem unique_history {n : Nat} (hn : n < 2 ^ 128) : Unique (history n) where
  ids := by
    rw [history, List.map_map]
    refine List.Nodup.map_on (fun i hi j hj hij => ?_) List.nodup_range
    have hi := List.mem_range.mp hi
    have hj := List.mem_range.mp hj
    exact Nat.succ.inj (eq_of_eventId_versionRow (by omega) (by omega) hij)
  slots := by
    rw [history, List.map_map]
    refine List.Nodup.map_on (fun i _ j _ hij => ?_) List.nodup_range
    exact Nat.succ.inj (congrArg Slot.version hij)

theorem storable_history {n : Nat} (hn : n ≤ maxStoredVersion) : ∀ r ∈ history n, r.Storable := by
  intro r hr
  obtain ⟨i, hi, rfl⟩ := List.mem_map.mp hr
  exact Nat.le_trans (List.mem_range.mp hi) hn

/-- A history that is one row too long for one insertion. -/
def longHistory : List EventRow := history (maxRowsPerInsert + 1)

theorem chunks_longHistory : chunks maxRowsPerInsert longHistory =
    [history maxRowsPerInsert, [versionRow (maxRowsPerInsert + 1)]] := by
  rw [longHistory, history_succ]
  exact chunks_append (length_history _) (List.cons_ne_nil _ _) (by decide)

theorem unique_longHistory : Unique longHistory := unique_history (by decide)

theorem longHistory_ne_nil : longHistory ≠ [] := history_ne_nil (Nat.succ_ne_zero _)

theorem storable_longHistory : ∀ r ∈ longHistory, r.Storable := storable_history (by decide)

/-- Rows in two insertions of which the second one fails. -/
theorem insert_of_second_fails {σ : Type} {s : TableStore} {x : Executor σ}
    {l c c' : List EventRow} {d d₁ d' : σ} {e : StorageError} (hrun : x.RunsInOrder)
    (hl : ∀ r ∈ l, r.Storable) (hchunks : chunks maxRowsPerInsert l = [c, c'])
    (hc : x.execute (s.statementOf c) d = (.ok (), d₁))
    (hc' : x.execute (s.statementOf c') d₁ = (.error e, d')) :
    s.insert x l d = (.error e, d') := by
  rw [insert_eq hrun hl, hchunks]
  exact (bind_of_ok hc).trans (bind_of_error hc')

end TableStore

end EventStore
