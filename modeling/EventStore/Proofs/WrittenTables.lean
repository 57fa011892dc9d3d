import EventStore.Proofs.Compilation

/-!
# The tables that insertions and updates write to

Insertions and updates write to the table of the first column that has one, and compare the tables of
the other columns with it. Tables that have names agree if their names do. A table without a name
agrees with every table of its alias, so tables that do not agree may agree with a third.

Proved here:

* `agree_iff_underOneAlias`: of tables with different names the first agrees with all others exactly
  if it has no name and they have its alias;
* `Insert.target_eq_ok_iff`, `Update.target_eq_ok_iff`: the first table is written to if it agrees
  with the others;
* `Insert.explains_of_target`, `Update.explains_of_target`: otherwise the error says what is wrong
  with the columns;
* `writes_to_several_tables`: hence nothing is written to tables of different names, unless they are
  all under the alias of a first one without a name;
* `two_tables_under_one_alias`: in that case statements are built.
-/

namespace EventStore.Sql

/-! ## Agreement of tables -/

namespace Table

variable {t u : Table} {l : List Table}

/-- Both tables have names, which are not the same in the same schema. -/
def Differs (t u : Table) : Prop :=
  ∃ name name', t.name? = some name ∧ u.name? = some name' ∧ (t.schema, name) ≠ (u.schema, name')

/-- Some two of the tables have different names. -/
def Several (l : List Table) : Prop := ∃ t ∈ l, ∃ u ∈ l, t.Differs u

/-- The first of the tables has no name, and the others have its alias. -/
def UnderOneAlias : List Table → Prop
  | [] => False
  | t :: l => t.name? = none ∧ ∀ u ∈ l, u.alias? = t.alias?

theorem sameTable_iff_of_unnamed (h : t.name? = none) : t.sameTable u ↔ u.alias? = t.alias? := by
  rw [sameTable, h]
  exact decide_eq_true_iff.trans eq_comm

theorem sameTable_iff_of_named {name name' : Identifier} (ht : t.name? = some name)
    (hu : u.name? = some name') : t.sameTable u ↔ (t.schema, name) = (u.schema, name') := by
  simp only [sameTable, ht, hu, Bool.and_eq_true, decide_eq_true_eq, Prod.mk.injEq, and_comm]

/-- Tables that agree with one that has a name do not differ from one another. -/
theorem not_several_of_named {name : Identifier} (ht : t.name? = some name)
    (hl : ∀ u ∈ l, t.sameTable u) : ¬Several (t :: l) := by
  have hsame : ∀ u ∈ t :: l, ∀ name', u.name? = some name' →
      (t.schema, name) = (u.schema, name') := by
    intro u hu name' hname
    rcases List.mem_cons.mp hu with rfl | hu
    · rw [Option.some.inj (ht.symm.trans hname)]
    · exact (sameTable_iff_of_named ht hname).mp (hl u hu)
  rintro ⟨u, hu, v, hv, name', name'', hname', hname'', hne⟩
  exact hne ((hsame u hu name' hname').symm.trans (hsame v hv name'' hname''))

/-- The first of several tables agrees with the others exactly if all are under its alias. -/
theorem agree_iff_underOneAlias (h : Several (t :: l)) :
    (∀ u ∈ l, t.sameTable u) ↔ UnderOneAlias (t :: l) := by
  cases hname : t.name? with
  | none =>
    have hagree := fun u => sameTable_iff_of_unnamed (u := u) hname
    simp only [hagree, UnderOneAlias, hname, true_and]
  | some name =>
    refine ⟨fun hl => absurd h (not_several_of_named hname hl), fun ⟨hnone, _⟩ => ?_⟩
    rw [hname] at hnone
    cases hnone

theorem exists_head_iff_underOneAlias (h : Several l) :
    (∃ t l', l = t :: l' ∧ ∀ u ∈ l', t.sameTable u) ↔ UnderOneAlias l := by
  cases l with
  | nil => simp [UnderOneAlias]
  | cons t l =>
    rw [← agree_iff_underOneAlias h]
    exact ⟨by rintro ⟨_, _, ⟨⟩, hsame⟩; exact hsame, fun hsame => ⟨t, l, rfl, hsame⟩⟩

end Table

/-! ## Insertions -/

namespace Insert

variable {s : Insert} {d : Dialect} {t : Table}

/-- The tables of the columns. -/
def tables (s : Insert) : List Table := s.columns.filterMap (·.table)

/-- An error that says of the columns what holds of them. -/
def Explains (s : Insert) : SqlError → Prop
  | .insertWithoutColumns => s.columns = []
  | .insertUnnamedColumn => ∃ c ∈ s.columns, c.name = none
  | .insertColumnWithoutTable column => ∃ c ∈ s.columns, c.table = none ∧ c.describe = column
  | .insertIntoSeveralTables first second => ∃ t ∈ s.tables, ∃ u ∈ s.tables,
      ¬t.sameTable u ∧ t.describe = first ∧ u.describe = second
  | _ => False

theorem owner_eq_ok_iff {c : Column} : owner c = .ok t ↔ c.name ≠ none ∧ c.table = some t := by
  unfold owner
  cases hname : c.name <;> cases htable : c.table <;> simp

theorem checkOwners_eq_ok_iff {l : List Column} :
    checkOwners t l = .ok () ↔ ∀ c ∈ l, ∃ u, owner c = .ok u ∧ t.sameTable u := by
  induction l with
  | nil => simp [checkOwners]
  | cons c l ih =>
    rw [checkOwners, except_bind_eq_ok_iff, List.forall_mem_cons, ← ih]
    constructor
    · rintro ⟨u, howner, h⟩
      split at h
      · rename_i hsame
        exact ⟨⟨u, howner, hsame⟩, h⟩
      · cases h
    · rintro ⟨⟨u, howner, hsame⟩, h⟩
      exact ⟨u, howner, by rwa [if_pos hsame]⟩

/-- The first table is written to if all columns have names and tables, which agree with it. -/
theorem target_eq_ok_iff : s.target = .ok t ↔
    (∀ c ∈ s.columns, c.name ≠ none ∧ c.table ≠ none) ∧
      ∃ l, s.tables = t :: l ∧ ∀ u ∈ l, t.sameTable u := by
  unfold target tables
  cases s.columns with
  | nil => simp
  | cons c l =>
    have hcheck : (owner c >>= fun t' => checkOwners t' l >>= fun _ => pure t') = .ok t ↔
        owner c = .ok t ∧ checkOwners t l = .ok () := by
      simp only [except_bind_eq_ok_iff]
      constructor
      · rintro ⟨t', howner, ⟨⟩, hl, ht⟩
        cases ht
        exact ⟨howner, hl⟩
      · rintro ⟨howner, hl⟩
        exact ⟨t, howner, (), hl, rfl⟩
    rw [hcheck, checkOwners_eq_ok_iff, owner_eq_ok_iff]
    simp only [owner_eq_ok_iff]
    constructor
    · rintro ⟨⟨hname, htable⟩, hl⟩
      refine ⟨List.forall_mem_cons.mpr ⟨⟨hname, by simp [htable]⟩, fun c' hc' => ?_⟩,
        l.filterMap (·.table), by simp [htable], fun u hu => ?_⟩
      · obtain ⟨u, ⟨hname', htable'⟩, -⟩ := hl c' hc'
        exact ⟨hname', by simp [htable']⟩
      · obtain ⟨c', hc', htable'⟩ := List.mem_filterMap.mp hu
        obtain ⟨u', ⟨-, htable''⟩, hsame⟩ := hl c' hc'
        rwa [Option.some.inj (htable'.symm.trans htable'')]
    · rintro ⟨hshaped, l', htables, hsame⟩
      obtain ⟨⟨hname, htable⟩, hl⟩ := List.forall_mem_cons.mp hshaped
      obtain ⟨t', ht'⟩ := Option.ne_none_iff_exists'.mp htable
      rw [List.filterMap_cons_some ht'] at htables
      obtain ⟨rfl, rfl⟩ := List.cons.inj htables
      refine ⟨⟨hname, ht'⟩, fun c' hc' => ?_⟩
      obtain ⟨u, hu⟩ := Option.ne_none_iff_exists'.mp (hl c' hc').2
      exact ⟨u, ⟨(hl c' hc').1, hu⟩, hsame u (List.mem_filterMap.mpr ⟨c', hc', hu⟩)⟩

theorem explains_of_owner {c : Column} {e : SqlError} (hc : c ∈ s.columns)
    (h : owner c = .error e) : s.Explains e := by
  unfold owner at h
  split at h
  · rename_i hname
    cases h
    exact ⟨c, hc, Option.isNone_iff_eq_none.mp hname⟩
  · split at h
    · rename_i htable
      cases h
      exact ⟨c, hc, htable, rfl⟩
    · cases h

theorem explains_of_checkOwners {l : List Column} {e : SqlError} (ht : t ∈ s.tables)
    (hl : ∀ c ∈ l, c ∈ s.columns) (h : checkOwners t l = .error e) : s.Explains e := by
  induction l with
  | nil => cases h
  | cons c l ih =>
    obtain ⟨hc, hl⟩ := List.forall_mem_cons.mp hl
    rw [checkOwners] at h
    cases howner : owner c with
    | error e' =>
      rw [howner] at h
      cases h
      exact explains_of_owner hc howner
    | ok u =>
      simp only [howner, bind, Except.bind] at h
      split at h
      · exact ih hl h
      · rename_i hdiffers
        cases h
        have hu : u ∈ s.tables :=
          List.mem_filterMap.mpr ⟨c, hc, (owner_eq_ok_iff.mp howner).2⟩
        exact ⟨t, ht, u, hu, hdiffers, rfl, rfl⟩

theorem explains_of_target {e : SqlError} (h : s.target = .error e) : s.Explains e := by
  unfold target at h
  split at h
  · rename_i hcolumns
    cases h
    exact hcolumns
  · rename_i c l hcolumns
    have hc : c ∈ s.columns := hcolumns ▸ List.mem_cons_self
    cases howner : owner c with
    | error e' =>
      rw [howner] at h
      cases h
      exact explains_of_owner hc howner
    | ok t =>
      simp only [howner, bind, Except.bind] at h
      cases howners : checkOwners t l with
      | error e' =>
        rw [howners] at h
        cases h
        have ht : t ∈ s.tables :=
          List.mem_filterMap.mpr ⟨c, hc, (owner_eq_ok_iff.mp howner).2⟩
        exact explains_of_checkOwners ht
          (fun c' hc' => hcolumns ▸ List.mem_cons_of_mem _ hc') howners
      | ok =>
        rw [howners] at h
        cases h

theorem checkWidths_eq_ok_iff {width row : Nat} {l : List (List Datum)} :
    checkWidths width row l = .ok () ↔ ∀ values ∈ l, values.length = width := by
  induction l generalizing row with
  | nil => simp [checkWidths]
  | cons values l ih =>
    rw [checkWidths, List.forall_mem_cons]
    split
    · rename_i hwidth
      rw [ih]
      exact (and_iff_right hwidth).symm
    · rename_i hwidth
      simp [hwidth]

/-- A statement is built if there is a table to write to and the rows fit the columns. -/
theorem exists_build_iff : (∃ statement, s.build d = .ok statement) ↔
    (∃ t, s.target = .ok t) ∧ s.rows ≠ [] ∧ ∀ row ∈ s.rows, row.length = s.columns.length := by
  have hwidths : checkWidths s.columns.length 0 s.rows = .ok () ↔ _ := checkWidths_eq_ok_iff
  rw [build_eq, ← hwidths]
  cases s.target with
  | error e => simp [bind, Except.bind]
  | ok t =>
    cases hrows : s.rows.isEmpty with
    | true => simp [bind, Except.bind, List.isEmpty_iff.mp hrows]
    | false =>
      have hne : s.rows ≠ [] := by rwa [← List.isEmpty_eq_false_iff]
      cases checkWidths s.columns.length 0 s.rows <;>
        simp [bind, Except.bind, pure, Except.pure, hne]

end Insert

/-! ## Updates -/

namespace Update

variable {s : Update} {d : Dialect} {t : Table}

/-- The tables of the columns that get new values. -/
def tables (s : Update) : List Table := s.assignments.filterMap (·.column.table)

/-- An error that says of the columns what holds of them. -/
def Explains (s : Update) : SqlError → Prop
  | .updateWithoutColumns => s.assignments = []
  | .updateWithoutTable => s.tables = []
  | .updateOfSeveralTables first second => ∃ t ∈ s.tables, ∃ u ∈ s.tables,
      ¬t.sameTable u ∧ t.describe = first ∧ u.describe = second
  | _ => False

/-- The first table is written to if the others agree with it. -/
theorem target_eq_ok_iff :
    s.target = .ok t ↔ ∃ l, s.tables = t :: l ∧ ∀ u ∈ l, t.sameTable u := by
  unfold target tables
  split
  · rename_i hempty
    simp [List.isEmpty_iff.mp hempty]
  · cases s.assignments.filterMap (·.column.table) with
    | nil => simp
    | cons t' l =>
      dsimp only
      split
      · rename_i u hfind
        have hdiffers := List.find?_some hfind
        constructor
        · intro h
          cases h
        · rintro ⟨l', hl', hsame⟩
          obtain ⟨rfl, rfl⟩ := List.cons.inj hl'
          simp [hsame u (List.mem_of_find?_eq_some hfind)] at hdiffers
      · rename_i hfind
        have hsame : ∀ u ∈ l, t'.sameTable u := by simpa using hfind
        constructor
        · rintro ⟨⟩
          exact ⟨l, rfl, hsame⟩
        · rintro ⟨l', hl', -⟩
          rw [(List.cons.inj hl').1]

theorem explains_of_target {e : SqlError} (h : s.target = .error e) : s.Explains e := by
  unfold target at h
  split at h
  · rename_i hempty
    cases h
    exact List.isEmpty_iff.mp hempty
  · split at h
    · rename_i htables
      cases h
      exact htables
    · rename_i t l htables
      have hmem : ∀ u ∈ t :: l, u ∈ s.tables := fun u hu => by rwa [tables, htables]
      split at h
      · rename_i u hfind
        cases h
        refine ⟨t, hmem t List.mem_cons_self, u,
          hmem u (List.mem_cons_of_mem _ (List.mem_of_find?_eq_some hfind)), ?_, rfl, rfl⟩
        simpa using List.find?_some hfind
      · cases h

/-- A statement is built if there is a table to write to and the conditions can be written. -/
theorem exists_build_iff : (∃ statement, s.build d = .ok statement) ↔
    (∃ t, s.target = .ok t) ∧ Condition.checkAll d s.conditions = .ok () := by
  rw [build_eq]
  cases s.target with
  | error e => simp [bind, Except.bind]
  | ok t =>
    cases Condition.checkAll d s.conditions <;> simp [bind, Except.bind, pure, Except.pure]

end Update

/-! ## Several tables -/

theorem Insert.exists_target_iff {s : Insert} (h : Table.Several s.tables) :
    (∃ t, s.target = .ok t) ↔
      (∀ c ∈ s.columns, c.name ≠ none ∧ c.table ≠ none) ∧ Table.UnderOneAlias s.tables := by
  rw [← Table.exists_head_iff_underOneAlias h]
  simp only [target_eq_ok_iff, exists_and_left]

theorem Update.exists_target_iff {s : Update} (h : Table.Several s.tables) :
    (∃ t, s.target = .ok t) ↔ Table.UnderOneAlias s.tables := by
  rw [← Table.exists_head_iff_underOneAlias h]
  simp only [target_eq_ok_iff]

/-- Unless they are under one alias, columns of several tables make no insertion. -/
theorem Insert.rejects {s : Insert} (d : Dialect) (h : Table.Several s.tables)
    (halias : ¬Table.UnderOneAlias s.tables) :
    ∃ e, s.build d = .error e ∧
      ((∃ t ∈ s.tables, ∃ u ∈ s.tables,
          ¬t.sameTable u ∧ e = .insertIntoSeveralTables t.describe u.describe) ∨
        (e = .insertUnnamedColumn ∧ ∃ c ∈ s.columns, c.name = none) ∨
        ∃ c ∈ s.columns, c.table = none ∧ e = .insertColumnWithoutTable c.describe) := by
  cases htarget : s.target with
  | ok t => exact absurd ((exists_target_iff h).mp ⟨t, htarget⟩).2 halias
  | error e =>
    have hexplains := explains_of_target htarget
    refine ⟨e, by rw [build, htarget]; rfl, ?_⟩
    cases e with
    | insertIntoSeveralTables first second =>
      obtain ⟨t, ht, u, hu, hdiffers, rfl, rfl⟩ := hexplains
      exact Or.inl ⟨t, ht, u, hu, hdiffers, rfl⟩
    | insertUnnamedColumn => exact Or.inr (Or.inl ⟨rfl, hexplains⟩)
    | insertColumnWithoutTable column =>
      obtain ⟨c, hc, htable, rfl⟩ := hexplains
      exact Or.inr (Or.inr ⟨c, hc, htable, rfl⟩)
    | insertWithoutColumns =>
      obtain ⟨t, ht, -⟩ := h
      obtain ⟨c, hc, -⟩ := List.mem_filterMap.mp ht
      exact absurd hexplains (List.ne_nil_of_mem hc)
    | _ => exact hexplains.elim

/-- Unless they are under one alias, columns of several tables make no update. -/
theorem Update.rejects {s : Update} (d : Dialect) (h : Table.Several s.tables)
    (halias : ¬Table.UnderOneAlias s.tables) :
    ∃ t ∈ s.tables, ∃ u ∈ s.tables,
      ¬t.sameTable u ∧ s.build d = .error (.updateOfSeveralTables t.describe u.describe) := by
  cases htarget : s.target with
  | ok t => exact absurd ((exists_target_iff h).mp ⟨t, htarget⟩) halias
  | error e =>
    have hexplains := explains_of_target htarget
    have hbuild : s.build d = .error e := by rw [build, htarget]; rfl
    obtain ⟨t₀, ht₀, -⟩ := h
    cases e with
    | updateOfSeveralTables first second =>
      obtain ⟨t, ht, u, hu, hdiffers, rfl, rfl⟩ := hexplains
      exact ⟨t, ht, u, hu, hdiffers, hbuild⟩
    | updateWithoutTable => exact absurd hexplains (List.ne_nil_of_mem ht₀)
    | updateWithoutColumns =>
      obtain ⟨a, ha, -⟩ := List.mem_filterMap.mp ht₀
      exact absurd hexplains (List.ne_nil_of_mem ha)
    | _ => exact hexplains.elim

/-- Where columns belong to tables of different names there is no insertion and no update, in any
dialect and whatever the rows, the values and the conditions: the error names two tables that do not
agree, or an earlier fault of a column. Only if all tables are under the alias of a first one without
a name they are taken for one, and a statement is built if nothing else is wrong. -/
theorem writes_to_several_tables (d : Dialect) :
    (∀ s : Insert, Table.Several s.tables →
      (¬Table.UnderOneAlias s.tables → ∃ e, s.build d = .error e ∧
        ((∃ t ∈ s.tables, ∃ u ∈ s.tables,
            ¬t.sameTable u ∧ e = .insertIntoSeveralTables t.describe u.describe) ∨
          (e = .insertUnnamedColumn ∧ ∃ c ∈ s.columns, c.name = none) ∨
          ∃ c ∈ s.columns, c.table = none ∧ e = .insertColumnWithoutTable c.describe)) ∧
      (Table.UnderOneAlias s.tables → ((∃ statement, s.build d = .ok statement) ↔
        (∀ c ∈ s.columns, c.name ≠ none ∧ c.table ≠ none) ∧ s.rows ≠ [] ∧
          ∀ row ∈ s.rows, row.length = s.columns.length))) ∧
    ∀ s : Update, Table.Several s.tables →
      (¬Table.UnderOneAlias s.tables → ∃ t ∈ s.tables, ∃ u ∈ s.tables,
        ¬t.sameTable u ∧ s.build d = .error (.updateOfSeveralTables t.describe u.describe)) ∧
      (Table.UnderOneAlias s.tables → ((∃ statement, s.build d = .ok statement) ↔
        Condition.checkAll d s.conditions = .ok ())) := by
  refine ⟨fun s h => ⟨s.rejects d h, fun halias => ?_⟩,
    fun s h => ⟨s.rejects d h, fun halias => ?_⟩⟩
  · rw [Insert.exists_build_iff, Insert.exists_target_iff h, and_iff_left halias]
  · rw [Update.exists_build_iff, Update.exists_target_iff h, and_iff_right halias]

/-! ## Several tables under one alias -/

def sharedAlias : Identifier := ⟨"x", by decide, by decide⟩

def unnamedTable : Table := ⟨none, .derived sharedAlias⟩

def invoices : Table := ⟨none, .named ⟨"Invoices", by decide, by decide⟩ (some sharedAlias)⟩

def customers : Table := ⟨none, .named ⟨"Customers", by decide, by decide⟩ (some sharedAlias)⟩

def invoiceNumber : Column := ⟨some ⟨"Number", by decide, by decide⟩, some unnamedTable, none⟩

def invoiceAmount : Column := ⟨some ⟨"Amount", by decide, by decide⟩, some invoices, none⟩

def customerName : Column := ⟨some ⟨"Name", by decide, by decide⟩, some customers, none⟩

/-- An insertion into the columns of three tables. -/
def insertionOfThree : Insert where
  columns := [invoiceNumber, invoiceAmount, customerName]
  rows := [[.integer 1, .integer 2, .text "Ann"]]

/-- An update of the columns of three tables. -/
def updateOfThree : Update where
  assignments :=
    [⟨invoiceNumber, some (.integer 1), rfl⟩, ⟨invoiceAmount, some (.integer 2), rfl⟩,
     ⟨customerName, some (.text "Ann"), rfl⟩]

theorem two_tables_under_one_alias :
    (Table.Several insertionOfThree.tables ∧
      (insertionOfThree.build .generic).map (·.text) =
        .ok "INSERT INTO x (Number, Amount, Name)\nVALUES (@p0, @p1, @p2)") ∧
    Table.Several updateOfThree.tables ∧
      (updateOfThree.build .generic).map (·.text) =
        .ok "UPDATE x\nSET Number = @p0, Amount = @p1, Name = @p2" := by
  have hdiffers : invoices.Differs customers := ⟨_, _, rfl, rfl, by decide⟩
  exact ⟨⟨⟨invoices, by decide, customers, by decide, hdiffers⟩, by decide +kernel⟩,
    ⟨invoices, by decide, customers, by decide, hdiffers⟩, by decide +kernel⟩

end EventStore.Sql
