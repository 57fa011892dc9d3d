import EventStore.Proofs.AppendAtomicity
import Mathlib.Data.Finset.Card
import Mathlib.Data.Finset.Dedup

/-!
# How many parameters the statements have

A database may limit the parameters of one statement. Insertions are cut to the limit; the ids of a
query are not, be it a query of the caller or one that looks for the rows of a batch after a clash.

Proved here, with an executor that notes the statements it is given and does nothing else besides:

* `notes_append`, `notes_read`: an append sends insertions of its rows and queries of its streams,
  a read the query of its filter;
* `insertion_within`, `length_select`: the parameters of an insertion stay within the limit, and
  those of a query are as many as its filter names;
* `mem_sent_append`: the queries of the streams are sent after every clash;
* `parameters_of_sent`: so only queries pass the limit, and they do if they name too many ids.
-/

namespace EventStore

open Sql Text

variable {σ α β : Type}

/-! ## Statements on their way -/

/-- An executor that also notes the statements it is given. -/
def Executor.noting (x : Executor σ) : Executor (σ × List Statement) where
  execute statement := fun (d, sent) =>
    let (result, d') := x.execute statement d
    (result, d', sent ++ [statement])
  executeBatch statements := fun (d, sent) =>
    let (result, d') := x.executeBatch statements d
    (result, d', sent ++ statements)
  queryEvents statement := fun (d, sent) =>
    let (result, d') := x.queryEvents statement d
    (result, d', sent ++ [statement])

/-- The statements that an action sends from a state. -/
def sent (m : StorageM (σ × List Statement) α) (d : σ) : List Statement := (m (d, [])).2.2

/-- An action runs as another one that notes nothing, and the statements that it notes have a
property. -/
def Notes (P : Statement → Prop) (m : StorageM (σ × List Statement) α) (m' : StorageM σ α) : Prop :=
  ∀ d before, ∃ statements, m (d, before) = ((m' d).1, (m' d).2, before ++ statements) ∧
    ∀ q ∈ statements, P q

variable {P Q : Statement → Prop} {m : StorageM (σ × List Statement) α} {m' : StorageM σ α}
  {f : α → StorageM (σ × List Statement) β} {f' : α → StorageM σ β}

theorem Notes.run_eq (h : Notes P m m') (d : σ) : m (d, []) = ((m' d).1, (m' d).2, sent m d) := by
  obtain ⟨statements, hrun, -⟩ := h d []
  rw [sent, hrun]

theorem Notes.of_mem_sent (h : Notes P m m') {d : σ} {q : Statement} (hq : q ∈ sent m d) : P q := by
  obtain ⟨statements, hrun, hall⟩ := h d []
  rw [sent, hrun] at hq
  exact hall q hq

theorem Notes.imp (h : Notes P m m') (hPQ : ∀ q, P q → Q q) : Notes Q m m' := fun d before =>
  (h d before).imp fun _ ⟨hrun, hall⟩ => ⟨hrun, fun q hq => hPQ q (hall q hq)⟩

theorem notes_pure (a : α) : Notes P (pure a) (pure a : StorageM σ α) := by
  refine fun d before => ⟨[], ?_, nofun⟩
  rw [List.append_nil]
  rfl

theorem notes_throw (e : StorageError) : Notes P (throw e) (throw e : StorageM σ α) := by
  refine fun d before => ⟨[], ?_, nofun⟩
  rw [List.append_nil]
  rfl

theorem Notes.bind (h : Notes P m m') (hf : ∀ a, Notes P (f a) (f' a)) :
    Notes P (m >>= f) (m' >>= f') := by
  intro d before
  obtain ⟨statements, hrun, hall⟩ := h d before
  rcases hm' : m' d with ⟨e | a, d'⟩ <;> rw [hm'] at hrun
  · exact ⟨statements, by rw [bind_of_error hrun, bind_of_error hm'], hall⟩
  · obtain ⟨statements', hrun', hall'⟩ := hf a d' (before ++ statements)
    refine ⟨statements ++ statements', ?_, fun q hq => ?_⟩
    · rw [bind_of_ok hrun, bind_of_ok hm', hrun', List.append_assoc]
    · exact (List.mem_append.mp hq).elim (hall q) (hall' q)

theorem Notes.tryCatch (h : Notes P m m') {f : StorageError → StorageM (σ × List Statement) α}
    {f' : StorageError → StorageM σ α} (hf : ∀ e, Notes P (f e) (f' e)) :
    Notes P (tryCatch m f) (tryCatch m' f') := by
  intro d before
  obtain ⟨statements, hrun, hall⟩ := h d before
  rcases hm' : m' d with ⟨e | a, d'⟩ <;> rw [hm'] at hrun
  · obtain ⟨statements', hrun', hall'⟩ := hf e d' (before ++ statements)
    refine ⟨statements ++ statements', ?_, fun q hq => ?_⟩
    · rw [tryCatch_of_error hrun, tryCatch_of_error hm', hrun', List.append_assoc]
    · exact (List.mem_append.mp hq).elim (hall q) (hall' q)
  · exact ⟨statements, by rw [tryCatch_of_ok hrun, tryCatch_of_ok hm'], hall⟩

theorem Notes.ofExcept {y : Except StorageError α} (hf : ∀ a, y = .ok a → Notes P (f a) (f' a)) :
    Notes P (StorageM.ofExcept y >>= f) (StorageM.ofExcept y >>= f') := by
  cases y with
  | error e => exact notes_throw e
  | ok a => exact hf a rfl

theorem Notes.mapM {γ : Type} {f : γ → StorageM (σ × List Statement) α} {f' : γ → StorageM σ α}
    {l : List γ} (h : ∀ c ∈ l, Notes P (f c) (f' c)) : Notes P (l.mapM f) (l.mapM f') := by
  induction l with
  | nil => exact notes_pure []
  | cons c l ih =>
    rw [List.mapM_cons, List.mapM_cons]
    refine (h c List.mem_cons_self).bind fun a => ?_
    exact (ih fun c hc => h c (List.mem_cons_of_mem _ hc)).bind fun as => notes_pure _

/-- What was noted stays noted. -/
theorem mem_noted_bind (hf : ∀ a, ∃ m', Notes P (f a) m') {state : σ × List Statement}
    {q : Statement} (hq : q ∈ (m state).2.2) : q ∈ ((m >>= f) state).2.2 := by
  rcases hm : m state with ⟨e | a, d, noted⟩ <;> rw [hm] at hq
  · rwa [bind_of_error hm]
  · obtain ⟨m', hnotes⟩ := hf a
    obtain ⟨statements, hrun, -⟩ := hnotes d noted
    rw [bind_of_ok hm, hrun]
    exact List.mem_append_left _ hq

theorem Executor.notes_executeBatch (x : Executor σ) {statements : List Statement}
    (h : ∀ q ∈ statements, P q) :
    Notes P (x.noting.executeBatch statements) (x.executeBatch statements) :=
  fun _ _ => ⟨statements, rfl, h⟩

theorem Executor.notes_queryEvents (x : Executor σ) {statement : Statement} (h : P statement) :
    Notes P (x.noting.queryEvents statement) (x.queryEvents statement) :=
  fun _ _ => ⟨[statement], rfl, fun _ hq => List.mem_singleton.mp hq ▸ h⟩

/-! ## Parameters -/

theorem length_parameters (d : Dialect) (l : List Token) :
    (Statement.ofTokens d l).parameters.length = (tokenValues l).length :=
  List.length_mapIdx

namespace TableStore

variable {s : TableStore} {x : Executor σ} {l : List EventRow}

/-- An insertion has one parameter for each cell. -/
theorem length_insertion (s : TableStore) (l : List EventRow) :
    (s.statementOf l).parameters.length = l.length * EventColumn.all.length := by
  have hline : ∀ r : EventRow, r.line.length = EventColumn.all.length := fun r => List.length_map _
  rw [statementOf, length_parameters, tokenValues_insert, Insert.values, insertion,
    List.length_flatten, List.map_map]
  simp only [Function.comp_def, hline, List.map_const', List.sum_replicate_nat]

/-- As many rows as one insertion may have keep within the limit. -/
theorem insertion_within (h : l.length ≤ maxRowsPerInsert) :
    (s.statementOf l).parameters.length ≤ maxParameters := by
  rw [length_insertion]
  exact (Nat.mul_le_mul_right _ h).trans (by decide)

/-- A query has one parameter for the type, one for each id, and one for a highest version. -/
theorem length_select {f : EventFilter} {statement : Statement}
    (h : s.selectStatement f = .ok statement) :
    statement.parameters.length =
      1 + (f.aggregateIds.getD []).length + f.maxVersion.toList.length := by
  rw [eq_of_selectStatement h, length_parameters, values_select]
  cases f.maxVersion <;> simp <;> omega

/-- The aggregates of a type that a batch has rows of. -/
def aggregatesOf (aggregateType : String) (l : List EventRow) : Finset String :=
  ((l.filter (·.aggregateType = aggregateType)).map (·.aggregateId)).toFinset

/-- A stream filter names every aggregate of its type once. -/
theorem length_ids_streamFilters {f : EventFilter} (h : f ∈ streamFilters l) :
    (f.aggregateIds.getD []).length = (aggregatesOf f.aggregateType l).card := by
  obtain ⟨aggregateType, -, rfl⟩ := List.mem_map.mp h
  let entries := Entries.ofList (((l.filter (·.aggregateType = aggregateType)).map
    (·.aggregateId)).map (·, ()))
  have hnodup : (entries.toList.map (·.1)).Nodup := by
    refine List.pairwise_map.mpr (entries.sorted.imp fun {p q} hlt heq => ?_)
    rw [heq] at hlt
    exact String.lt_irrefl _ hlt
  show (entries.toList.map (·.1)).length = _
  rw [← List.toFinset_card_of_nodup hnodup]
  congr 1
  ext id
  rw [List.mem_toFinset, mem_idsOfType, aggregatesOf, List.mem_toFinset]
  simp [and_assoc]

/-! ## The statements of a storage -/

/-- A statement that inserts no more rows than one insertion may have. -/
def SmallInsertion (s : TableStore) (statement : Statement) : Prop :=
  ∃ c, c.length ≤ maxRowsPerInsert ∧ statement = s.statementOf c

theorem smallInsertion_of_insertStatements {statements : List Statement}
    (h : s.insertStatements l = .ok statements) : ∀ q ∈ statements, s.SmallInsertion q := by
  intro q hq
  rw [insertStatements_eq (storable_of_insertStatements h)] at h
  rw [← Except.ok.inj h] at hq
  obtain ⟨c, hc, rfl⟩ := List.mem_map.mp hq
  exact ⟨c, (mem_chunks hc).2.1, rfl⟩

theorem notes_insert : Notes s.SmallInsertion (s.insert x.noting l) (s.insert x l) :=
  Notes.ofExcept fun _ hstatements =>
    x.notes_executeBatch (smallInsertion_of_insertStatements hstatements)

theorem notes_read (f : EventFilter) :
    Notes (fun q => s.selectStatement f = .ok q) (s.read x.noting f) (s.read x f) := by
  rw [TableStore.read, TableStore.read, run, run]
  split
  · exact notes_pure []
  · cases hstatement : (s.select f).build s.dialect with
    | error e => exact notes_throw _
    | ok statement => exact x.notes_queryEvents hstatement

/-- A statement that asks for the rows of the streams of a batch. -/
def StreamQuery (s : TableStore) (l : List EventRow) (statement : Statement) : Prop :=
  ∃ f ∈ streamFilters l, s.selectStatement f = .ok statement

theorem notes_unstored (e : StorageError) :
    Notes (s.StreamQuery l) (s.unstored x.noting l e) (s.unstored x l e) := by
  have hread : ∀ f ∈ streamFilters l, Notes (s.StreamQuery l) (s.read x.noting f) (s.read x f) :=
    fun f hf => (notes_read f).imp fun q hq => ⟨f, hf, hq⟩
  refine (Notes.mapM hread).bind fun stored => ?_
  split
  · exact notes_pure _
  · exact notes_throw e

theorem notes_recover (e : StorageError) :
    Notes (fun q => s.SmallInsertion q ∨ s.StreamQuery l q) (s.recover x.noting l e)
      (s.recover x l e) := by
  refine ((notes_unstored e).imp fun q => Or.inr).bind fun pending => ?_
  split
  · exact notes_pure ()
  · exact notes_insert.imp fun q => Or.inl

theorem notes_append :
    Notes (fun q => s.SmallInsertion q ∨ s.StreamQuery l q) (s.append x.noting l)
      (s.append x l) := by
  rw [append, append]
  split
  · exact notes_pure ()
  refine Notes.ofExcept fun statements hstatements => ?_
  have hinsert := smallInsertion_of_insertStatements hstatements
  refine (x.notes_executeBatch fun q hq => Or.inl (hinsert q hq)).tryCatch fun e => ?_
  split
  · exact notes_recover e
  · exact notes_throw e

/-- An append sends insertions within the limit on parameters. If it clashes, then it also sends
queries with as many parameters as the batch has aggregates of a type, and one more. The query of a
read has as many parameters as its filter has values. -/
theorem parameters_of_sent (s : TableStore) (x : Executor σ) (d : σ) :
    (∀ l, ∀ q ∈ sent ((s.storage x.noting).append l) d,
      q.parameters.length ≤ maxParameters ∨
        ∃ f ∈ streamFilters l, s.selectStatement f = .ok q ∧
          q.parameters.length = 1 + (aggregatesOf f.aggregateType l).card) ∧
    ∀ f, ∀ q ∈ sent ((s.storage x.noting).read f) d,
      s.selectStatement f = .ok q ∧
        q.parameters.length = 1 + (f.aggregateIds.getD []).length + f.maxVersion.toList.length := by
  refine ⟨fun l q hq => ?_, fun f q hq => ?_⟩
  · rcases notes_append.of_mem_sent hq with ⟨c, hc, rfl⟩ | ⟨f, hf, hquery⟩
    · exact Or.inl (insertion_within hc)
    · refine Or.inr ⟨f, hf, hquery, ?_⟩
      rw [length_select hquery, length_ids_streamFilters hf, maxVersion_of_mem_streamFilters hf]
      rfl
  · have hquery := (notes_read f).of_mem_sent hq
    exact ⟨hquery, length_select hquery⟩

/-! ## Statements that pass the limit -/

theorem read_of_selectStatement {f : EventFilter} {q : Statement}
    (hq : s.selectStatement f = .ok q) (x : Executor σ) : s.read x f = x.queryEvents q := by
  rw [TableStore.read, if_neg (by simp [isEmptySelection_of_selectStatement hq]), run,
    show (s.select f).build s.dialect = .ok q from hq]

theorem mem_sent_read {f : EventFilter} {q : Statement} (hq : s.selectStatement f = .ok q) (d : σ) :
    q ∈ sent ((s.storage x.noting).read f) d := by
  show q ∈ (s.read x.noting f (d, [])).2.2
  rw [read_of_selectStatement hq]
  exact List.mem_singleton_self q

/-- After a clash the first of the stream queries is sent, whatever comes of it. -/
theorem mem_sent_append {d d' : σ} {e : StorageError} {f : EventFilter} {fs : List EventFilter}
    {q : Statement} (hl : ∀ r ∈ l, r.Storable) (hne : l ≠ [])
    (hinsert : s.insert x l d = (.error e, d')) (hclash : e.isClash)
    (hf : streamFilters l = f :: fs) (hq : s.selectStatement f = .ok q) :
    q ∈ sent ((s.storage x.noting).append l) d := by
  have hnoted := (notes_insert (s := s) (x := x) (l := l)).run_eq d
  rw [hinsert] at hnoted
  generalize sent (s.insert x.noting l) d = noted at hnoted
  have happend : s.append x.noting l (d, []) = s.recover x.noting l e (d', noted) := by
    rw [append_eq_recover hl hne, tryCatch_of_error hnoted, if_pos hclash]
  have hread : q ∈ (s.read x.noting f (d', noted)).2.2 := by
    rw [read_of_selectStatement hq]
    exact List.mem_append_right _ (List.mem_singleton_self q)
  have hreads : q ∈ ((streamFilters l).mapM (s.read x.noting) (d', noted)).2.2 := by
    rw [hf, List.mapM_cons]
    have hrest : Notes (fun _ => True) (fs.mapM (s.read x.noting)) (fs.mapM (s.read x)) :=
      Notes.mapM fun f _ => (notes_read f).imp fun _ _ => trivial
    exact mem_noted_bind (fun out => ⟨_, hrest.bind fun _ => notes_pure _⟩) hread
  have hunstored : q ∈ (s.unstored x.noting l e (d', noted)).2.2 := by
    refine mem_noted_bind (P := fun _ => True) (fun outs => ?_) hreads
    split
    · exact ⟨_, notes_pure _⟩
    · exact ⟨_, notes_throw e⟩
  show q ∈ (s.append x.noting l (d, [])).2.2
  rw [happend]
  refine mem_noted_bind (P := s.SmallInsertion) (fun pending => ?_) hunstored
  split
  · exact ⟨_, notes_pure ()⟩
  · exact ⟨_, notes_insert⟩

/-- The ids of many aggregates. -/
def manyIds (n : Nat) : List String := (List.range n).map decimalText

/-- The first version of each of them. -/
def openings (n : Nat) : List EventRow :=
  (List.range n).map fun i =>
    { firstRow with aggregateId := decimalText i, eventId := (versionRow i).eventId }

theorem nodup_manyIds (n : Nat) : (manyIds n).Nodup := by
  refine List.Nodup.map (fun i j hij => ?_) List.nodup_range
  have hdigits : decimal i = decimal j := String.ofList_injective hij
  rw [← ofDigits_decimal i, hdigits, ofDigits_decimal]

theorem unique_openings {n : Nat} (hn : n ≤ 2 ^ 128) : Unique (openings n) where
  ids := by
    rw [openings, List.map_map]
    refine List.Nodup.map_on (fun i hi j hj hij => ?_) List.nodup_range
    have hi := List.mem_range.mp hi
    have hj := List.mem_range.mp hj
    exact eq_of_eventId_versionRow (by omega) (by omega) hij
  slots := by
    have hids : ((openings n).map (·.slot)).map (·.stream.aggregateId) = manyIds n := by
      rw [openings, List.map_map, List.map_map]
      rfl
    exact List.Nodup.of_map _ (hids ▸ nodup_manyIds n)

theorem card_aggregatesOf_openings (n : Nat) : (aggregatesOf "Account" (openings n)).card = n := by
  have hids : ((openings n).filter (·.aggregateType = "Account")).map (·.aggregateId) =
      manyIds n := by
    rw [List.filter_eq_self.mpr, openings, List.map_map]
    · rfl
    · intro r hr
      obtain ⟨i, -, rfl⟩ := List.mem_map.mp hr
      rfl
  rw [aggregatesOf, hids, List.toFinset_card_of_nodup (nodup_manyIds n), manyIds, List.length_map,
    List.length_range]

theorem mem_openings {n : Nat} {r : EventRow} (hr : r ∈ openings n) :
    r.Storable ∧ r.aggregateType = "Account" := by
  obtain ⟨i, -, rfl⟩ := List.mem_map.mp hr
  exact ⟨(by decide : firstRow.Storable), rfl⟩

/-- To append such rows once more sends a query with all ids. -/
theorem openings_again {n : Nat} (hn : n ≠ 0) (hn' : n ≤ 2 ^ 128) :
    ∃ q ∈ sent ((eventsTable.storage idealDatabase.noting).append (openings n)) (openings n),
      q.parameters.length = 1 + n := by
  have hl : ∀ r ∈ openings n, r.Storable := fun r hr => (mem_openings hr).1
  have hne : openings n ≠ [] := List.ne_nil_of_length_pos (by simp [openings]; omega)
  obtain ⟨r, hr⟩ := List.exists_mem_of_ne_nil _ hne
  have htwice : ¬ Unique (openings n ++ openings n) := by
    intro htwice
    obtain ⟨-, -, hfresh, -⟩ := unique_append.mp htwice
    exact hfresh r hr (List.mem_map_of_mem hr)
  obtain ⟨e, d', hinsert, hclash, -⟩ := insert_of_not_unique (ideal_idealDatabase eventsTable)
    (List.Perm.refl (openings n)) hl (unique_openings hn') htwice
  obtain ⟨f, fs, hf⟩ : ∃ f fs, streamFilters (openings n) = f :: fs := by
    obtain ⟨f, hf, -⟩ := (accepts_streamFilters_iff r).mpr ⟨r, hr, rfl⟩
    exact List.exists_cons_of_ne_nil (List.ne_nil_of_mem hf)
  have hmem : f ∈ streamFilters (openings n) := hf ▸ List.mem_cons_self
  have htype : f.aggregateType = "Account" := by
    obtain ⟨aggregateType, htypes, rfl⟩ := List.mem_map.mp hmem
    obtain ⟨r', hr', rfl⟩ := List.mem_map.mp (List.mem_eraseDups.mp htypes)
    exact (mem_openings hr').2
  have hquery := selectStatement_eq (s := eventsTable) (reads_dialect .generic)
    (isEmptySelection_of_mem_streamFilters hmem) (maxVersion_of_mem_streamFilters hmem)
  refine ⟨_, mem_sent_append hl hne hinsert hclash hf hquery, ?_⟩
  rw [length_select hquery, length_ids_streamFilters hmem, htype, card_aggregatesOf_openings,
    maxVersion_of_mem_streamFilters hmem]
  rfl

/-- A read that names as many aggregates as the limit sends a query that passes it, and so does an
append of an event of each of them that is retried after it was stored. -/
theorem limit_is_passed :
    let ids := manyIds maxParameters
    let l := openings maxParameters
    ids.Nodup ∧
      (∃ q ∈ sent ((eventsTable.storage idealDatabase.noting).read
          { aggregateType := "Account", aggregateIds := some ids }) [],
        maxParameters < q.parameters.length) ∧
      ∃ q ∈ sent ((eventsTable.storage idealDatabase.noting).append l) l,
        maxParameters < q.parameters.length := by
  intro ids l
  have hlength : ids.length = maxParameters := by simp [ids, manyIds]
  have hsome : ids ≠ [] := List.ne_nil_of_length_pos (hlength ▸ by decide)
  have hquery := selectStatement_eq (s := eventsTable) (reads_dialect .generic)
    (f := { aggregateType := "Account", aggregateIds := some ids })
    (by simpa [EventFilter.isEmptySelection] using hsome) rfl
  refine ⟨nodup_manyIds _, ⟨_, mem_sent_read hquery [], ?_⟩, ?_⟩
  · rw [length_select hquery, Option.getD_some, hlength]
    omega
  · obtain ⟨q, hq, hparameters⟩ := openings_again (by decide : maxParameters ≠ 0) (by decide)
    exact ⟨q, hq, by omega⟩

end TableStore

end EventStore
