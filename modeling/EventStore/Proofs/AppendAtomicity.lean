import EventStore.Proofs.AppendAttempts

/-!
# Appends that fail

The storage sends a long batch as several insertions. Whether an append that fails leaves nothing
behind is up to the executor, unless the batch fits one insertion.

Proved here, for an executor that keeps event ids and slots unique:

* `insert_fails`: of rows whose insertion fails nothing is stored if the executor runs the
  statements as one unit, or if there is one statement only; else those of the statements before
  the one that failed;
* `unstored_keeps`: to look for what is missing after a clash changes nothing;
* `append_fails`: so an append that fails leaves nothing behind in these two cases, and in any case
  no more than the rows of the insertions that came before one that failed.
-/

namespace EventStore

open Sql

variable {σ : Type}

/-- An executor that changes nothing if it fails to run a batch, as in a transaction. -/
def Executor.RunsAsUnit (x : Executor σ) (table : σ → List EventRow) : Prop :=
  ∀ statements d e d', x.executeBatch statements d = (.error e, d') → (table d').Perm (table d)

namespace TableStore

variable {s : TableStore} {x : Executor σ} {table : σ → List EventRow} {l p : List EventRow}
  {d d' : σ} {e : StorageError}

theorem storable_of_insertStatements {statements : List Statement}
    (h : s.insertStatements l = .ok statements) : ∀ r ∈ l, r.Storable := by
  intro r hr
  rw [← flatten_chunks (by decide : maxRowsPerInsert ≠ 0) l] at hr
  obtain ⟨c, hc, hrc⟩ := List.mem_flatten.mp hr
  obtain ⟨statement, hstatement⟩ := exists_mapM_iff.mp ⟨statements, h⟩ c hc
  obtain ⟨lines, hlines, -⟩ := except_bind_eq_ok_iff.mp hstatement
  obtain ⟨line, hline⟩ := exists_mapM_iff.mp ⟨lines, hlines⟩ r hrc
  by_contra hlarge
  rw [cells_of_large hlarge] at hline
  cases hline

/-- Rows are inserted unless they cannot be written. -/
theorem insert_cases_of_statements :
    (∃ e, s.insertStatements l = .error e ∧ s.insert x l d = (.error e, d)) ∨
      ∃ statements, (∀ r ∈ l, r.Storable) ∧ s.insert x l d = x.executeBatch statements d := by
  cases hstatements : s.insertStatements l with
  | error e =>
    refine Or.inl ⟨e, rfl, ?_⟩
    rw [insert, hstatements]
    rfl
  | ok statements =>
    refine Or.inr ⟨statements, storable_of_insertStatements hstatements, ?_⟩
    rw [insert, hstatements]
    rfl

/-! ## What is left behind -/

/-- The insertions of a batch, run in order, came to one that failed. Stored were then the rows of
those before it. -/
def StopsAfter (s : TableStore) (x : Executor σ) (table : σ → List EventRow) (l : List EventRow)
    (d : σ) (p : List EventRow) : Prop :=
  ∃ done c rest d₁ e d₂, chunks maxRowsPerInsert l = done ++ c :: rest ∧ p = done.flatten ∧
    (table d₁).Perm (table d ++ p) ∧ x.execute (s.statementOf c) d₁ = (.error e, d₂)

theorem StopsAfter.prefix_batch (h : s.StopsAfter x table l d p) : p <+: l := by
  obtain ⟨done, c, rest, -, -, -, hsplit, rfl, -, -⟩ := h
  exact ⟨_, (eq_of_chunks hsplit).symm⟩

/-- Before the only insertion there is none. -/
theorem StopsAfter.eq_nil (h : s.StopsAfter x table l d p) (hshort : l.length ≤ maxRowsPerInsert) :
    p = [] := by
  obtain ⟨done, c, rest, -, -, -, hsplit, rfl, -, -⟩ := h
  have hne : l ≠ [] := by
    rintro rfl
    rw [chunks, if_pos (Or.inr rfl)] at hsplit
    simp at hsplit
  rw [chunks_of_length_le hne hshort] at hsplit
  cases done with
  | nil => rfl
  | cons => simp at hsplit

/-- From the first state to the second, where the insertion of a batch failed, some rows have been
added. -/
structure LeavesPart (s : TableStore) (x : Executor σ) (table : σ → List EventRow)
    (l : List EventRow) (d d' : σ) (p : List EventRow) : Prop where
  unique : Unique (table d ++ p)
  perm : (table d').Perm (table d ++ p)
  stops : p = [] ∨ ¬ x.RunsAsUnit table ∧ s.StopsAfter x table l d p

theorem leavesPart_nil (hd : Unique (table d)) (h : (table d').Perm (table d)) :
    LeavesPart s x table l d d' [] :=
  ⟨by simpa using hd, by simpa using h, Or.inl rfl⟩

theorem LeavesPart.unique_after (h : LeavesPart s x table l d d' p) : Unique (table d') :=
  h.unique.of_perm h.perm.symm

theorem LeavesPart.prefix_batch (h : LeavesPart s x table l d d' p) : p <+: l := by
  rcases h.stops with rfl | ⟨-, hstops⟩
  · exact List.nil_prefix
  · exact hstops.prefix_batch

theorem LeavesPart.eq_nil (h : LeavesPart s x table l d d' p)
    (hone : x.RunsAsUnit table ∨ l.length ≤ maxRowsPerInsert) : p = [] := by
  rcases h.stops with hnone | ⟨hparts, hstops⟩
  · exact hnone
  · exact hstops.eq_nil (hone.resolve_left hparts)

section Fails

variable (hx : Enforcing s x table)

include hx

theorem insert_fails (hrun : x.RunsAsUnit table ∨ x.RunsInOrder) (hd : Unique (table d))
    (h : s.insert x l d = (.error e, d')) : ∃ p, LeavesPart s x table l d d' p := by
  rcases insert_cases_of_statements (s := s) (x := x) (l := l) (d := d) with
    ⟨e', -, hinsert⟩ | ⟨statements, hl, hinsert⟩
  · rw [hinsert] at h
    obtain ⟨-, rfl⟩ := Prod.mk.inj h
    exact ⟨[], leavesPart_nil hd (List.Perm.refl _)⟩
  by_cases hunit : x.RunsAsUnit table
  · exact ⟨[], leavesPart_nil hd (hunit statements d e d' (hinsert ▸ h))⟩
  rcases insert_in_order (Q := fun _ => True) hx (hrun.resolve_left hunit) hl hd trivial
      (fun _ _ _ _ _ _ _ => trivial) with
    ⟨d₁, hok, -⟩ | ⟨done, c, rest, d₁, e₁, d₂, hsplit, hunique, hperm, -, hc, hperm', herror⟩
  · rw [hok] at h
    cases h
  · rw [herror] at h
    obtain ⟨-, rfl⟩ := Prod.mk.inj h
    exact ⟨done.flatten, hunique, hperm'.trans hperm,
      Or.inr ⟨hunit, done, c, rest, d₁, e₁, d₂, hsplit, rfl, hperm, hc⟩⟩

theorem read_keeps {f : EventFilter} {result : Except StorageError (List EventRow)}
    (h : s.read x f d = (result, d')) : (table d').Perm (table d) := by
  rw [TableStore.read] at h
  by_cases hempty : f.isEmptySelection
  · rw [if_pos hempty] at h
    obtain ⟨-, rfl⟩ := Prod.mk.inj h
    exact List.Perm.refl _
  rw [if_neg hempty, run] at h
  cases hstatement : (s.select f).build s.dialect with
  | error e =>
    rw [hstatement] at h
    obtain ⟨-, rfl⟩ := Prod.mk.inj h
    exact List.Perm.refl _
  | ok statement =>
    rw [hstatement] at h
    exact hx.queries hstatement h

/-- To look for the rows that are missing changes nothing, and gives rows of the batch. -/
theorem unstored_keeps {result : Except StorageError (List EventRow)}
    (h : s.unstored x l e d = (result, d')) :
    (table d').Perm (table d) ∧ ∀ p, result = .ok p → p.Sublist l := by
  have hread : ∀ f ∈ streamFilters l, ∀ d₁, (table d₁).Perm (table d) →
      (∃ out d₂, s.read x f d₁ = (.ok out, d₂) ∧ True ∧ (table d₂).Perm (table d)) ∨
      ∃ e d₂, s.read x f d₁ = (.error e, d₂) ∧ (table d₂).Perm (table d) := by
    intro f _ d₁ hd₁
    rcases hrun : s.read x f d₁ with ⟨_ | out, d₂⟩
    · exact Or.inr ⟨_, d₂, rfl, (read_keeps hx hrun).trans hd₁⟩
    · exact Or.inl ⟨out, d₂, rfl, trivial, (read_keeps hx hrun).trans hd₁⟩
  rcases mapM_cases (R := fun _ _ => True) (streamFilters l) hread d (List.Perm.refl _) with
    ⟨outs, d₁, houts, -, hd₁⟩ | ⟨e', d₁, herror, hd₁⟩
  · rw [unstored_eq houts] at h
    obtain ⟨rfl, rfl⟩ := Prod.mk.inj h
    refine ⟨hd₁, fun p hp => ?_⟩
    cases hpending : pendingRows outs.flatten l with
    | none => simp [hpending] at hp
    | some pending =>
      simp only [hpending, Except.ok.injEq] at hp
      rw [← hp, (pendingRows_eq_some hpending).2]
      exact List.filter_sublist
  · have hunstored : s.unstored x l e d = (.error e', d₁) := bind_of_error herror
    rw [hunstored] at h
    obtain ⟨rfl, rfl⟩ := Prod.mk.inj h
    exact ⟨hd₁, nofun⟩

/-- What is inserted after a clash is a part of the batch. -/
theorem recover_fails (hrun : x.RunsAsUnit table ∨ x.RunsInOrder) {e₁ : StorageError}
    (hd : Unique (table d)) (h : s.recover x l e₁ d = (.error e, d')) :
    ∃ missing d₁ p, missing.Sublist l ∧ (table d₁).Perm (table d) ∧
      LeavesPart s x table missing d₁ d' p := by
  rcases hunstored : s.unstored x l e₁ d with ⟨e' | pending, d₁⟩ <;>
    obtain ⟨hd₁, hpending⟩ := unstored_keeps hx hunstored
  · rw [recover, bind_of_error hunstored] at h
    obtain ⟨-, rfl⟩ := Prod.mk.inj h
    exact ⟨[], d, [], List.nil_sublist l, List.Perm.refl _, leavesPart_nil hd hd₁⟩
  · rw [recover, bind_of_ok hunstored] at h
    split at h
    · cases h
    · obtain ⟨p, hpart⟩ := insert_fails hx hrun (hd.of_perm hd₁.symm) h
      exact ⟨pending, d₁, p, hpending pending rfl, hd₁, hpart⟩

end Fails

/-! ## A batch that clashes at its end -/

/-- After a clash with the rows of others the recovery fails too, and takes no row away. -/
theorem recover_refused {faults : σ → Nat} {k : Collation} {rows : List EventRow}
    (hx : Unsteady s x table faults k) (hs : Reads s.dialect) (hl : ∀ r ∈ l, r.Storable)
    (hids : (l.map (·.eventId)).Nodup) (hrows : Unique rows) (hd : (table d).Perm rows)
    (hfits : ¬ Fits rows l) (e : StorageError) :
    ∃ e' d' q, s.recover x l e d = (.error e', d') ∧ (table d').Perm (rows ++ q) := by
  rcases readBack_cases (l := l) hx hs hd with
    ⟨outs, d₁, hread, hmem, hd₁, -⟩ | ⟨e', d₁, hread, hd₁, -⟩
  · have hunstored := unstored_eq (s := s) (e := e) hread
    cases hpending : pendingRows outs.flatten l with
    | none =>
      rw [hpending] at hunstored
      exact ⟨e, d₁, [], bind_of_error hunstored, by simpa using hd₁⟩
    | some p =>
      rw [hpending] at hunstored
      have hagain := not_unique_of_pendingRows hrows (fun hjoins => hfits (hjoins.fits hids))
        (fun r hr => ((hmem r).mp hr).1) hpending
      have hpne : p ≠ [] := by
        rintro rfl
        exact hagain (by simpa using hrows)
      have hp : ∀ r ∈ p, r.Storable := by
        rw [(pendingRows_eq_some hpending).2]
        exact fun r hr => hl r (List.mem_filter.mp hr).1
      rw [recover, bind_of_ok hunstored, if_neg (by simpa using hpne)]
      rcases insert_cases hx hp hrows hd₁ with
        ⟨-, -, hunique, -⟩ | ⟨q, e', d', -, hinsert, -, hd', -⟩
      · exact absurd hunique hagain
      · exact ⟨e', d', q, hinsert, hd'⟩
  · exact ⟨e', d₁, [], bind_of_error (bind_of_error hread), by simpa using hd₁⟩

/-- Another event at the last version of the long history. -/
def takenRow : EventRow :=
  { versionRow (maxRowsPerInsert + 1) with eventId := (versionRow 0).eventId }

theorem unique_taken : Unique ([takenRow] ++ history maxRowsPerInsert) := by
  refine unique_append.mpr ⟨⟨List.nodup_singleton _, List.nodup_singleton _⟩,
    unique_history (by decide), fun r hr hid => ?_, fun r hr hslot => ?_⟩ <;>
    obtain ⟨i, hi, rfl⟩ := List.mem_map.mp hr
  · have hi := Nat.lt_trans (List.mem_range.mp hi) (by decide : maxRowsPerInsert < 2 ^ 127)
    have hzero := eq_of_eventId_versionRow (by omega) (by decide) (List.mem_singleton.mp hid)
    exact Nat.succ_ne_zero i hzero
  · have hversion : i + 1 = maxRowsPerInsert + 1 :=
      congrArg Slot.version (List.mem_singleton.mp hslot)
    exact absurd (Nat.succ.inj hversion) (Nat.ne_of_lt (List.mem_range.mp hi))

/-- The slot of the last row of the long history is taken, whatever else is stored. -/
theorem not_unique_taken (l : List EventRow) :
    ¬ Unique (takenRow :: l ++ [versionRow (maxRowsPerInsert + 1)]) := by
  intro hunique
  obtain ⟨-, -, -, hslots⟩ := unique_append.mp hunique
  exact hslots _ (List.mem_singleton_self _) (List.mem_map.mpr ⟨takenRow, List.mem_cons_self, rfl⟩)

theorem not_fits_taken (hnew : (versionRow (maxRowsPerInsert + 1)).eventId ∉ l.map (·.eventId)) :
    ¬ Fits (takenRow :: l) longHistory := by
  intro hfits
  have hmem : versionRow (maxRowsPerInsert + 1) ∈ newRows (takenRow :: l) longHistory := by
    rw [mem_newRows, longHistory, history_succ, List.map_cons, List.mem_cons, not_or]
    refine ⟨List.mem_append_right _ (List.mem_singleton_self _), fun hid => ?_, hnew⟩
    exact Nat.succ_ne_zero _ (eq_of_eventId_versionRow (by decide) (by decide) hid)
  exact hfits.free _ hmem (List.mem_map.mpr ⟨takenRow, List.mem_cons_self, rfl⟩)

theorem not_mem_history :
    (versionRow (maxRowsPerInsert + 1)).eventId ∉ (history maxRowsPerInsert).map (·.eventId) := by
  have hunique := unique_longHistory
  rw [longHistory, history_succ] at hunique
  obtain ⟨-, -, hids, -⟩ := unique_append.mp hunique
  exact hids _ (List.mem_singleton_self _)

/-! ## Appends -/

theorem runsAsUnit_idealDatabase : idealDatabase.RunsAsUnit id := by
  intro statements table e table' h
  have hrun : storeBatch statements table = (.error e, table') := h
  unfold storeBatch at hrun
  split at hrun <;> cases hrun
  exact List.Perm.refl _

/-- What may stay of a batch whose append failed: the rows of the insertions before the one that
failed, and, if the missing rows were then inserted, those of the insertions of these before the one
that failed. -/
def Stays (s : TableStore) (x : Executor σ) (table : σ → List EventRow) (l : List EventRow) (d : σ)
    (p : List EventRow) : Prop :=
  ∃ first second missing d₁, p = first ++ second ∧
    (first = [] ∨ s.StopsAfter x table l d first) ∧
    missing.Sublist l ∧ (table d₁).Perm (table d ++ first) ∧
    (second = [] ∨ s.StopsAfter x table missing d₁ second)

section Parts

variable {d₁ d₂ : σ} {missing q : List EventRow}

/-- What an insertion and the one of the missing rows have left behind. -/
theorem LeavesPart.and_then (h : LeavesPart s x table l d d₁ p) (hsub : missing.Sublist l)
    (hd₂ : (table d₂).Perm (table d₁)) (h' : LeavesPart s x table missing d₂ d' q) :
    Unique (table d') ∧ ∃ p ⊆ l, (table d').Perm (table d ++ p) ∧
      (x.RunsAsUnit table ∨ l.length ≤ maxRowsPerInsert → p = []) ∧ s.Stays x table l d p := by
  have hd₂' : (table d₂).Perm (table d ++ p) := hd₂.trans h.perm
  refine ⟨h'.unique_after, p ++ q, ?_, ?_, fun hone => ?_, ?_⟩
  · exact List.append_subset.mpr
      ⟨h.prefix_batch.subset, List.Subset.trans h'.prefix_batch.subset hsub.subset⟩
  · rw [← List.append_assoc]
    exact h'.perm.trans (hd₂'.append_right q)
  · rw [h.eq_nil hone, h'.eq_nil (hone.imp_right hsub.length_le.trans), List.append_nil]
  · exact ⟨p, q, missing, d₂, rfl, h.stops.imp_right And.right, hsub, hd₂',
      h'.stops.imp_right And.right⟩

theorem LeavesPart.alone (h : LeavesPart s x table l d d' p) :
    Unique (table d') ∧ ∃ p ⊆ l, (table d').Perm (table d ++ p) ∧
      (x.RunsAsUnit table ∨ l.length ≤ maxRowsPerInsert → p = []) ∧ s.Stays x table l d p :=
  h.and_then (List.nil_sublist l) (List.Perm.refl _)
    (leavesPart_nil h.unique_after (List.Perm.refl _))

end Parts

/-- An append that fails leaves nothing behind if the executor runs a batch as one unit, or if the
batch fits one insertion. If the statements are run in order, then the rows of those stay that came
before one that failed. -/
theorem append_fails (hx : Enforcing s x table)
    (hrun : x.RunsAsUnit table ∨ x.RunsInOrder) (hd : Unique (table d))
    (h : (s.storage x).append l d = (.error e, d')) :
    Unique (table d') ∧ ∃ p ⊆ l, (table d').Perm (table d ++ p) ∧
      (x.RunsAsUnit table ∨ l.length ≤ maxRowsPerInsert → p = []) ∧ s.Stays x table l d p := by
  have happend : s.append x l d = (.error e, d') := h
  by_cases hne : l = []
  · rw [hne] at happend
    cases happend
  rcases insert_cases_of_statements (s := s) (x := x) (l := l) (d := d) with
    ⟨e', hstatements, -⟩ | ⟨statements, hl, -⟩
  · have herror : s.append x l d = (.error e', d) := by
      rw [append, if_neg (by simpa using hne), hstatements]
      rfl
    rw [herror] at happend
    obtain ⟨-, rfl⟩ := Prod.mk.inj happend
    exact (leavesPart_nil hd (List.Perm.refl _)).alone
  rw [append_eq_recover hl hne] at happend
  rcases hinsert : s.insert x l d with ⟨e₁ | ⟨⟩, d₁⟩
  · obtain ⟨p, hpart⟩ := insert_fails hx hrun hd hinsert
    rw [tryCatch_of_error hinsert] at happend
    split at happend
    · obtain ⟨missing, d₂, q, hsub, hd₂, hagain⟩ :=
        recover_fails hx hrun hpart.unique_after happend
      exact hpart.and_then hsub hd₂ hagain
    · obtain ⟨-, rfl⟩ := Prod.mk.inj happend
      exact hpart.alone
  · rw [tryCatch_of_ok hinsert] at happend
    cases happend

/-- The long history clashes at its end, and nothing of it stays in a database that runs both of
its insertions as one unit. -/
theorem rejected_history_is_undone :
    let l := longHistory
    ∃ e d', Enforcing eventsTable idealDatabase id ∧
      (idealDatabase.RunsAsUnit id ∨ idealDatabase.RunsInOrder) ∧ Unique [takenRow] ∧
      (eventsTable.storage idealDatabase).append l [takenRow] = (.error e, d') ∧ Unique (id d') ∧
      ∃ p ⊆ l, (id d').Perm ([takenRow] ++ p) ∧
        (idealDatabase.RunsAsUnit id ∨ l.length ≤ maxRowsPerInsert → p = []) ∧
        eventsTable.Stays idealDatabase id l [takenRow] p := by
  intro l
  have hx := enforcing_idealDatabase eventsTable
  have hrun : idealDatabase.RunsAsUnit id ∨ idealDatabase.RunsInOrder :=
    Or.inl runsAsUnit_idealDatabase
  have hd : Unique [takenRow] := unique_taken.left
  obtain ⟨e, d', happend, -, -⟩ := append_of_not_fits (reads_dialect .generic)
    (ideal_idealDatabase eventsTable) (List.Perm.refl _) hd storable_longHistory
    unique_longHistory.ids (not_fits_taken List.not_mem_nil)
  exact ⟨e, d', hx, hrun, hd, happend, append_fails hx hrun hd happend⟩

/-- An executor that runs a batch in order keeps the rows of the first insertion when the second one
clashes: the append fails, but not without a trace. -/
theorem rejected_history_stays :
    let d : Flaky := { rows := [takenRow] }
    Enforcing eventsTable flakyDatabase Flaky.rows ∧ flakyDatabase.RunsInOrder ∧ Unique d.rows ∧
      ∃ e d', (eventsTable.storage flakyDatabase).append longHistory d = (.error e, d') ∧
        ¬ d'.rows.Perm d.rows := by
  intro d
  have hx := unsteady_flakyDatabase eventsTable
  have hd : Unique d.rows := unique_taken.left
  have hfirst : flakyDatabase.execute (eventsTable.statementOf (history maxRowsPerInsert)) d =
      (.ok (), { rows := takenRow :: history maxRowsPerInsert }) :=
    execute_statementOf (history_ne_nil (by decide)) (storable_history (by decide)) (by decide)
      unique_taken
  obtain ⟨e, hclash, hsecond⟩ := execute_of_not_unique
    (d := { rows := takenRow :: history maxRowsPerInsert })
    (build_insertion eventsTable.dialect (List.cons_ne_nil (versionRow (maxRowsPerInsert + 1)) []))
    (brings_insertion fun r hr => by rw [List.mem_singleton.mp hr]; decide) (by decide)
    unique_taken (not_unique_taken (history maxRowsPerInsert))
  have hinsert := insert_of_second_fails hx.inOrder storable_longHistory chunks_longHistory hfirst
    hsecond
  obtain ⟨e', d', q, hrecover, hd'⟩ := recover_refused hx (reads_dialect .generic)
    (d := { rows := takenRow :: history maxRowsPerInsert }) storable_longHistory
    unique_longHistory.ids unique_taken (List.Perm.refl _) (not_fits_taken not_mem_history) e
  refine ⟨hx.enforcing, hx.inOrder, hd, e', d', ?_, fun hperm => ?_⟩
  · show eventsTable.append flakyDatabase longHistory d = _
    rw [append_eq_recover storable_longHistory longHistory_ne_nil, tryCatch_of_error hinsert,
      if_pos hclash]
    exact hrecover
  · have hlength := (hd'.symm.trans hperm).length_eq
    rw [List.length_append, List.length_append, length_history] at hlength
    have hmany : 1 < maxRowsPerInsert := by decide
    simp only [d, List.length_cons, List.length_nil] at hlength
    omega

end TableStore

end EventStore
