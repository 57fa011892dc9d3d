import EventStore.Proofs.ParameterLimits
import EventStore.Proofs.Placeholders

/-!
# Batches that are cut

A batch may be longer than one insertion can be. It is cut into insertions of its rows in their
order, and all of them are built before the first is sent.

Proved here, for any table and dialect:

* `carries_statementOf`: the statement of some rows carries their cells, line by line;
* `ofCells?_values`: such lines are decoded to the rows again;
* `insertStatements_of_first_large`: all of them fail as the first row does that cannot be written;
* `batch_is_cut`: so a batch is sent in parts that together are the batch, unless a version is too
  large for the table. Then the first row with such a version is named, and nothing is sent.
-/

namespace EventStore

open Sql

namespace TableStore

variable {σ : Type} {s : TableStore} {l part before after : List EventRow} {r : EventRow}

/-! ## Parts of a batch -/

/-- A statement inserts a part of a batch: a line for each row, within the limits, with parameters
that are counted from the first one of this statement. -/
structure Carries (s : TableStore) (part : List EventRow) (statement : Statement) : Prop where
  nonempty : part ≠ []
  length : part.length ≤ maxRowsPerInsert
  build : (s.insertion part).build s.dialect = .ok statement
  values : statement.values = part.flatMap fun r =>
    [.text r.aggregateType, .text r.aggregateId, .text r.eventType, .text r.body,
     .text r.eventId.text, .ofOption .text r.actorId, .timestamp r.occurredOn,
     .integer (.ofNat r.version), .text r.deleteAction]
  parameters : statement.parameters.length ≤ maxParameters
  names : statement.parameters.map (·.name) =
    (List.range statement.parameters.length).map s.dialect.parameter
  /-- The parameters of a dialect that has a name are `p0`, `p1` and so on. -/
  usualNames : ∀ k : DialectKind, s.dialect = k.dialect → statement.parameters.map (·.name) =
    (List.range statement.parameters.length).map parameterName

theorem carries_statementOf (hne : part ≠ []) (hlength : part.length ≤ maxRowsPerInsert) :
    s.Carries part (s.statementOf part) where
  nonempty := hne
  length := hlength
  build := build_insertion s.dialect hne
  values := by
    rw [statementOf, Statement.values_ofTokens, tokenValues_insert]
    exact List.flatMap_def.symm
  parameters := insertion_within hlength
  names := by
    rw [statementOf, Statement.parameters_ofTokens, length_parameters]
  usualNames := by
    rintro k hk
    rw [statementOf, hk, Statement.names_ofTokens, length_parameters]

/-- The lines of statements are decoded to the rows of their parts. -/
theorem ofCells?_values {parts : List (List EventRow)} {statements : List Statement}
    (h : List.Forall₂ s.Carries parts statements) (hparts : ∀ r ∈ parts.flatten, r.Storable) :
    (chunks EventColumn.all.length (statements.flatMap (·.values))).map EventRow.ofCells? =
      parts.flatten.map some := by
  have hvalues : statements.flatMap (·.values) = (parts.flatten.map EventRow.line).flatten := by
    clear hparts
    induction h with
    | nil => rfl
    | cons hcarries _ ih =>
      rw [List.flatMap_cons, ih, hcarries.values, List.flatten_cons, List.map_append,
        List.flatten_append, List.flatMap_def]
      rfl
  have hlines : ∀ line ∈ parts.flatten.map EventRow.line, line.length = EventColumn.all.length := by
    intro line hline
    obtain ⟨r, -, rfl⟩ := List.mem_map.mp hline
    exact List.length_map _
  rw [hvalues, chunks_flatten (by decide) hlines, List.map_map]
  exact List.map_congr_left fun r hr => ofCells?_cells (hparts r hr)

/-! ## Versions that are too large -/

theorem insertStatement_of_first_large (hbefore : ∀ r' ∈ before, r'.Storable)
    (hr : ¬ r.Storable) :
    s.insertStatement (before ++ r :: after) = .error (.versionTooLarge r.slot) := by
  have hlines : (before ++ r :: after).mapM EventRow.cells = .error (.versionTooLarge r.slot) :=
    mapM_of_first_error (fun r' hr' => ⟨r'.line, cells_eq (hbefore r' hr')⟩) (cells_of_large hr)
  rw [insertStatement, hlines]
  rfl

/-- All insertions before the one with the row could be built. -/
theorem insertStatements_of_first_large (hbefore : ∀ r' ∈ before, r'.Storable)
    (hr : ¬ r.Storable) :
    s.insertStatements (before ++ r :: after) = .error (.versionTooLarge r.slot) := by
  obtain ⟨pieces, front, back, rest, hchunks, rfl⟩ :=
    exists_piece (flatten_chunks (by decide : maxRowsPerInsert ≠ 0) (before ++ r :: after))
  rw [insertStatements, hchunks]
  refine mapM_of_first_error (fun c hc => ?_) (insertStatement_of_first_large
    (fun r' hr' => hbefore r' (List.mem_append_right _ hr')) hr)
  have hne : c ≠ [] := (mem_chunks (hchunks ▸ List.mem_append_left _ hc)).1
  have hstorable : ∀ r' ∈ c, r'.Storable := fun r' hr' =>
    hbefore r' (List.mem_append_left _ (List.mem_flatten.mpr ⟨c, hc, hr'⟩))
  exact ⟨_, insertStatement_eq hne hstorable⟩

theorem append_of_insertStatements_error {e : StorageError} (hl : l ≠ [])
    (h : s.insertStatements l = .error e) (x : Executor σ) (d : σ) :
    (s.storage x).append l d = (.error e, d) := by
  show s.append x l d = _
  rw [append, if_neg (by simpa using hl), h]
  rfl

/-- A batch of versions that the table can hold is sent in statements that carry its parts, and the
lines of all of them are decoded to the batch. If a version is too large, no executor is sent a
statement, and the error names the first row with such a version. -/
theorem batch_is_cut (s : TableStore) (l : List EventRow) :
    ((∀ r ∈ l, r.Storable) → ∃ parts statements, parts.flatten = l ∧
      s.insertStatements l = .ok statements ∧ List.Forall₂ s.Carries parts statements ∧
      (chunks EventColumn.all.length (statements.flatMap (·.values))).map EventRow.ofCells? =
        l.map some) ∧
    ∀ r, (l.find? fun r => ¬ r.Storable) = some r →
      let e : StorageError := .versionTooLarge r.slot
      e.kind = "InvalidRow" ∧ s.insertStatements l = .error e ∧
        ∀ (σ : Type) (x : Executor σ) (d : σ), (s.storage x).append l d = (.error e, d) ∧
          sent ((s.storage x.noting).append l) d = [] := by
  constructor
  · intro hl
    have hflatten := flatten_chunks (by decide : maxRowsPerInsert ≠ 0) l
    have hcarries : List.Forall₂ s.Carries (chunks maxRowsPerInsert l)
        ((chunks maxRowsPerInsert l).map s.statementOf) := by
      refine List.forall₂_map_right_iff.mpr (List.forall₂_same.mpr fun c hc => ?_)
      exact carries_statementOf (mem_chunks hc).1 (mem_chunks hc).2.1
    have hdecodes := ofCells?_values hcarries (hflatten.symm ▸ hl)
    rw [hflatten] at hdecodes
    exact ⟨_, _, hflatten, insertStatements_eq hl, hcarries, hdecodes⟩
  · intro r hfirst
    obtain ⟨hr, before, after, rfl, hbefore⟩ := List.find?_eq_some_iff_append.mp hfirst
    have herror : s.insertStatements (before ++ r :: after) = .error (.versionTooLarge r.slot) :=
      insertStatements_of_first_large (by simpa using hbefore) (by simpa using hr)
    refine ⟨rfl, herror, fun σ x d => ?_⟩
    have hne : before ++ r :: after ≠ [] := by simp
    refine ⟨append_of_insertStatements_error hne herror x d, ?_⟩
    rw [sent, append_of_insertStatements_error hne herror x.noting (d, [])]

/-- A history that is too long for one insertion is sent in two. With one more row, whose version is
too large, nothing is sent of it. -/
theorem long_history_is_cut :
    let largeRow := versionRow (maxStoredVersion + 1)
    (∃ parts first second, parts.flatten = longHistory ∧
      eventsTable.insertStatements longHistory = .ok [first, second] ∧
      List.Forall₂ eventsTable.Carries parts [first, second]) ∧
    (eventsTable.storage idealDatabase).append (longHistory ++ [largeRow]) [] =
      (.error (.versionTooLarge largeRow.slot), []) := by
  intro largeRow
  constructor
  · obtain ⟨parts, statements, hparts, hstatements, hcarries, -⟩ :=
      (batch_is_cut eventsTable longHistory).1 storable_longHistory
    have htwo := insertStatements_eq (s := eventsTable) storable_longHistory
    rw [chunks_longHistory] at htwo
    obtain rfl := Except.ok.inj (hstatements.symm.trans htwo)
    exact ⟨parts, _, _, hparts, hstatements, hcarries⟩
  · have hnone : (longHistory.find? fun r => ¬ r.Storable) = none := by
      simpa using storable_longHistory
    have hfirst : ((longHistory ++ [largeRow]).find? fun r => ¬ r.Storable) = some largeRow := by
      rw [List.find?_append, hnone, Option.none_or]
      rfl
    obtain ⟨-, -, hfails⟩ := (batch_is_cut eventsTable (longHistory ++ [largeRow])).2 largeRow hfirst
    exact (hfails _ idealDatabase []).1

end TableStore

end EventStore
