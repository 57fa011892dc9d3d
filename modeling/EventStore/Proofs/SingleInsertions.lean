import EventStore.Proofs.AppendAgreement

/-!
# Insertions one after the other

An executor may run the statements of a batch in one transaction, or in order and each for itself.

Proved here, for an executor whose single insertions are atomic and leave event ids and slots unique:

* `insert_in_order`: rows that are inserted in order are stored up to the first insertion that
  fails;
* `chunks_of_length_le`: rows that fit one insertion are not cut.
-/

namespace EventStore

open Sql

/-- Rows that are no more than one chunk are not cut. -/
theorem chunks_of_length_le {α : Type} {size : Nat} {l : List α} (hne : l ≠ [])
    (h : l.length ≤ size) : chunks size l = [l] := by
  have hsize : size ≠ 0 := fun hzero => hne (List.length_eq_zero_iff.mp (by omega))
  rw [chunks, if_neg (by simp [hsize, hne]), List.take_of_length_le h, List.drop_of_length_le h,
    chunks, if_pos (Or.inr rfl)]

/-- Rows that are one chunk and a part of another one are cut there. -/
theorem chunks_append {α : Type} {size : Nat} {l l' : List α} (hl : l.length = size) (hl' : l' ≠ [])
    (h : l'.length ≤ size) : chunks size (l ++ l') = [l, l'] := by
  have hsize : size ≠ 0 := fun hzero => hl' (List.length_eq_zero_iff.mp (by omega))
  rw [chunks, if_neg (by simp [hsize, hl']), List.take_left' hl, List.drop_left' hl,
    chunks_of_length_le hl' h]

theorem eq_of_chunks {l c : List EventRow} {done rest : List (List EventRow)}
    (h : chunks maxRowsPerInsert l = done ++ c :: rest) :
    l = done.flatten ++ (c ++ rest.flatten) := by
  rw [← flatten_chunks (by decide : maxRowsPerInsert ≠ 0) l, h, List.flatten_append,
    List.flatten_cons]

theorem Unique.sublist {l l' : List EventRow} (h : Unique l') (hl : l.Sublist l') : Unique l :=
  ⟨h.ids.sublist (hl.map _), h.slots.sublist (hl.map _)⟩

/-- An executor that runs the statements of a batch in order, each for itself. -/
def Executor.RunsInOrder {σ : Type} (x : Executor σ) : Prop :=
  x.executeBatch = fun statements => statements.forM x.execute

/-- An executor over a database whose states hold the rows of `table`, in any order, with unique
event ids and slots. A single insertion stores its rows only if they stay unique, and stores
nothing if it fails. -/
structure Enforcing {σ : Type} (s : TableStore) (x : Executor σ) (table : σ → List EventRow) :
    Prop where
  stores : ∀ {d d' i statement rows}, i.build s.dialect = .ok statement → Brings s [i] rows →
    x.execute statement d = (.ok (), d') → Unique (table d) →
    Unique (table d ++ rows) ∧ (table d').Perm (table d ++ rows)
  fails : ∀ {d d' i statement rows e}, i.build s.dialect = .ok statement → Brings s [i] rows →
    x.execute statement d = (.error e, d') → Unique (table d) → (table d').Perm (table d)
  /-- Queries change nothing. -/
  queries : ∀ {d d' f statement result}, s.selectStatement f = .ok statement →
    x.queryEvents statement d = (result, d') → (table d').Perm (table d)

namespace TableStore

variable {σ : Type} {s : TableStore} {x : Executor σ} {table : σ → List EventRow}
  {l c : List EventRow} {d : σ}

/-- The statement that inserts rows. -/
def statementOf (s : TableStore) (l : List EventRow) : Statement :=
  .ofTokens s.dialect ((s.insertion l).tokens s.table)

theorem brings_insertion (h : ∀ r ∈ l, r.Storable) : Brings s [s.insertion l] l where
  columns := by
    intro i hi
    rw [List.mem_singleton.mp hi]
    rfl
  cells := by
    rw [List.flatMap_singleton, insertion, List.map_map]
    exact List.map_congr_left fun r hr => ofCells?_cells (h r hr)

theorem insert_eq (hrun : x.RunsInOrder) (hl : ∀ r ∈ l, r.Storable) :
    s.insert x l = (chunks maxRowsPerInsert l).forM fun c => x.execute (s.statementOf c) := by
  rw [insert, insertStatements_eq hl, hrun]
  show ((chunks maxRowsPerInsert l).map s.statementOf).forM x.execute = _
  rw [List.forM_eq_forM, List.forM_eq_forM, List.forM_map]

/-- Rows that are inserted in order are all stored, or those of the insertions before the first one
that fails. A property of the state that successful insertions keep is kept up to there. -/
theorem insert_in_order (hx : Enforcing s x table) (hrun : x.RunsInOrder)
    (hl : ∀ r ∈ l, r.Storable) (hd : Unique (table d)) {Q : σ → Prop} (hQ : Q d)
    (hkeep : ∀ c ∈ chunks maxRowsPerInsert l, ∀ d₁ d₂, Unique (table d₁) → Q d₁ →
      x.execute (s.statementOf c) d₁ = (.ok (), d₂) → Q d₂) :
    (∃ d', s.insert x l d = (.ok (), d') ∧ Unique (table d ++ l) ∧
      (table d').Perm (table d ++ l) ∧ Q d') ∨
    ∃ done c rest d₁ e d', chunks maxRowsPerInsert l = done ++ c :: rest ∧
      Unique (table d ++ done.flatten) ∧ (table d₁).Perm (table d ++ done.flatten) ∧ Q d₁ ∧
      x.execute (s.statementOf c) d₁ = (.error e, d') ∧ (table d').Perm (table d₁) ∧
      s.insert x l d = (.error e, d') := by
  have hchunk : ∀ c ∈ chunks maxRowsPerInsert l,
      (s.insertion c).build s.dialect = .ok (s.statementOf c) ∧ Brings s [s.insertion c] c :=
    fun c hc => ⟨build_insertion s.dialect (mem_chunks hc).1,
      brings_insertion fun r hr => hl r ((mem_chunks hc).2.2 r hr)⟩
  let stored (done : List (List EventRow)) (d₁ : σ) : Prop :=
    Unique (table d ++ done.flatten) ∧ (table d₁).Perm (table d ++ done.flatten) ∧ Q d₁
  have hstep : ∀ before, ∀ c ∈ chunks maxRowsPerInsert l, ∀ d₁ d₂, stored before d₁ →
      x.execute (s.statementOf c) d₁ = (.ok (), d₂) → stored (before ++ [c]) d₂ := by
    rintro before c hc d₁ d₂ ⟨hunique, hperm, hQ⟩ hexecute
    have hd₁ := hunique.of_perm hperm.symm
    obtain ⟨hunique', hperm'⟩ := hx.stores (hchunk c hc).1 (hchunk c hc).2 hexecute hd₁
    have happend : (table d₁ ++ c).Perm (table d ++ (before ++ [c]).flatten) := by
      rw [List.flatten_append, List.flatten_singleton, ← List.append_assoc]
      exact hperm.append_right c
    exact ⟨hunique'.of_perm happend, hperm'.trans happend, hkeep c hc d₁ d₂ hd₁ hQ hexecute⟩
  have hstart : stored [] d := ⟨by simpa using hd, by simp, hQ⟩
  rw [insert_eq hrun hl]
  rcases forM_cases _ hstep [] d hstart with
    ⟨d', hrun, hunique, hperm, hQ'⟩ | ⟨done, c, rest, d₁, e, d', hsplit, hd₁, hfail, hrun⟩
  · rw [List.nil_append, flatten_chunks (by decide)] at hunique hperm
    exact Or.inl ⟨d', hrun, hunique, hperm, hQ'⟩
  · obtain ⟨hunique, hperm, hQ'⟩ := hd₁
    have hc : c ∈ chunks maxRowsPerInsert l := by simp [hsplit]
    have hd' := hx.fails (hchunk c hc).1 (hchunk c hc).2 hfail (hunique.of_perm hperm.symm)
    exact Or.inr ⟨done, c, rest, d₁, e, d', hsplit, hunique, hperm, hQ', hfail, hd', hrun⟩

/-- What is done after a clash. -/
def recover (s : TableStore) (x : Executor σ) (l : List EventRow) (e : StorageError) :
    StorageM σ Unit := do
  let pending ← s.unstored x l e
  if pending.isEmpty then pure () else s.insert x pending

theorem append_eq_recover (hl : ∀ r ∈ l, r.Storable) (hne : l ≠ []) :
    s.append x l =
      tryCatch (s.insert x l) fun e => if e.isClash then s.recover x l e else throw e :=
  append_eq hl hne

end TableStore

end EventStore
