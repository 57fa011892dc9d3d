import EventStore.Proofs.UnsteadyDatabase

/-!
# Appends that are cut short

Without transactions an executor may fail between two insertions of one batch. What was stored by
then stays, and the next attempt must tell it from the rows of others.

Proved here, for an executor that may fail at any insertion and any query:

* `insert_cases`: an insertion stores the first rows of a batch, and all of them if it succeeds;
* `recover_attempted`: after a clash the rows that are still missing are found and inserted;
* `append_attempted`: so one attempt adds rows of the batch, all that are missing unless the
  executor fails;
* `appends_converge`: attempts in sequence store each row of the batch once, and change nothing
  after the first that succeeds.
-/

namespace EventStore

open Sql

variable {σ : Type}

/-! ## Batches that are tried again -/

/-- A batch of distinct rows whose event ids and slots are stored with its own rows only. -/
structure Retriable (rows l : List EventRow) : Prop where
  unique : Unique l
  own : ∀ r ∈ l, ∀ r' ∈ rows, r'.eventId = r.eventId ∨ r'.slot = r.slot → r' = r

section Retriable

variable {rows rows' l p : List EventRow}

theorem Unique.nodup (h : Unique rows) : rows.Nodup := h.ids.of_map _

/-- Rows that are stored are not added once more. -/
theorem Unique.eq_nil_of_subset (h : Unique (rows ++ p)) (hp : p ⊆ rows) : p = [] := by
  obtain ⟨-, -, hids, -⟩ := unique_append.mp h
  exact List.eq_nil_iff_forall_not_mem.mpr fun r hr => hids r hr (List.mem_map_of_mem (hp hr))

theorem Retriable.of_perm (h : Retriable rows l) (hperm : rows.Perm rows') : Retriable rows' l :=
  ⟨h.unique, fun r hr r' hr' => h.own r hr r' (hperm.mem_iff.mpr hr')⟩

/-- A batch some of whose rows have been stored may be tried again. -/
theorem Retriable.append (h : Retriable rows l) (hp : p ⊆ l) : Retriable (rows ++ p) l where
  unique := h.unique
  own := by
    intro r hr r' hr' hsame
    rcases List.mem_append.mp hr' with hr' | hr'
    · exact h.own r hr r' hr' hsame
    · rcases hsame with hid | hslot
      · exact List.inj_on_of_nodup_map h.unique.ids (hp hr') hr hid
      · exact List.inj_on_of_nodup_map h.unique.slots (hp hr') hr hslot

theorem Retriable.fits (h : Retriable rows l) : Fits rows l where
  ids := h.unique.ids
  owned := fun r hr r' hr' hid => congrArg EventRow.slot (h.own r hr r' hr' (Or.inl hid))
  free := by
    rintro r hr hslot
    obtain ⟨hrl, hid⟩ := mem_newRows.mp hr
    obtain ⟨r', hr', hsame⟩ := List.mem_map.mp hslot
    obtain rfl := h.own r hrl r' hr' (Or.inr hsame)
    exact hid (List.mem_map_of_mem hr')
  slots := h.unique.slots.sublist (List.filter_sublist.map _)

theorem newRows_subset (rows l : List EventRow) : newRows rows l ⊆ l :=
  fun _ hr => (mem_newRows.mp hr).1

/-- With its new rows the whole batch is stored. -/
theorem Retriable.subset_append_newRows (h : Retriable rows l) : l ⊆ rows ++ newRows rows l := by
  intro r hr
  by_cases hid : r.eventId ∈ rows.map (·.eventId)
  · obtain ⟨r', hr', hsame⟩ := List.mem_map.mp hid
    obtain rfl := h.own r hr r' hr' (Or.inl hsame)
    exact List.mem_append_left _ hr'
  · exact List.mem_append_right _ (mem_newRows.mpr ⟨hr, hid⟩)

end Retriable

/-- What an attempt at a batch may leave behind: some rows of the batch are added, and all of them
are stored then unless the executor has failed. -/
inductive Attempted (table : σ → List EventRow) (faults : σ → Nat) (rows l : List EventRow)
    (n : Nat) : Except StorageError Unit × σ → Prop
  | done {d' : σ} {p : List EventRow} (part : p ⊆ l) (unique : Unique (rows ++ p))
      (perm : (table d').Perm (rows ++ p)) (whole : l ⊆ rows ++ p) (same : faults d' = n) :
      Attempted table faults rows l n (.ok (), d')
  | cut {d' : σ} {p : List EventRow} {e : StorageError} (part : p ⊆ l)
      (unique : Unique (rows ++ p)) (perm : (table d').Perm (rows ++ p)) (more : n < faults d') :
      Attempted table faults rows l n (.error e, d')

namespace Attempted

variable {table : σ → List EventRow} {faults : σ → Nat} {rows l q : List EventRow} {n : Nat}
  {outcome : Except StorageError Unit × σ}

/-- The rows that were added before count as added by the whole attempt. -/
theorem of_append (h : Attempted table faults (rows ++ q) l n outcome) (hq : q ⊆ l) :
    Attempted table faults rows l n outcome := by
  cases h with
  | done part unique perm whole same =>
    rw [List.append_assoc] at unique perm whole
    exact .done (List.append_subset.mpr ⟨hq, part⟩) unique perm whole same
  | cut part unique perm more =>
    rw [List.append_assoc] at unique perm
    exact .cut (List.append_subset.mpr ⟨hq, part⟩) unique perm more

theorem exists_part (h : Attempted table faults rows l n outcome) :
    ∃ p ⊆ l, Unique (rows ++ p) ∧ (table outcome.2).Perm (rows ++ p) := by
  cases h with
  | done part unique perm _ _ => exact ⟨_, part, unique, perm⟩
  | cut part unique perm _ => exact ⟨_, part, unique, perm⟩

theorem ok_of_same (h : Attempted table faults rows l n outcome) (hfaults : faults outcome.2 = n) :
    outcome.1 = .ok () := by
  cases h with
  | done => rfl
  | cut _ _ _ more => exact absurd hfaults (Nat.ne_of_gt more)

theorem subset_of_ok (h : Attempted table faults rows l n outcome) (hok : outcome.1 = .ok ()) :
    l ⊆ table outcome.2 := by
  cases h with
  | done _ _ perm whole _ => exact fun r hr => perm.mem_iff.mpr (whole hr)
  | cut => cases hok

end Attempted

namespace TableStore

variable {s : TableStore} {x : Executor σ} {table : σ → List EventRow} {faults : σ → Nat}
  {k : Collation} {rows l : List EventRow} {d : σ}

section Steps

variable (hx : Unsteady s x table faults k)

include hx

theorem inserted_chunk (hl : ∀ r ∈ l, r.Storable) {c : List EventRow}
    (hc : c ∈ chunks maxRowsPerInsert l) (hd : Unique (table d)) :
    Inserted table faults d c (x.execute (s.statementOf c) d) :=
  hx.executes (build_insertion s.dialect (mem_chunks hc).1)
    (brings_insertion fun r hr => hl r ((mem_chunks hc).2.2 r hr)) hd

/-- An insertion stores all rows of a batch, or the first of them before it clashes or fails. -/
theorem insert_cases (hl : ∀ r ∈ l, r.Storable) (hrows : Unique rows) (hd : (table d).Perm rows) :
    (∃ d', s.insert x l d = (.ok (), d') ∧ Unique (rows ++ l) ∧ (table d').Perm (rows ++ l) ∧
      faults d' = faults d) ∨
    ∃ q e d', q <+: l ∧ s.insert x l d = (.error e, d') ∧ Unique (rows ++ q) ∧
      (table d').Perm (rows ++ q) ∧
      (e.isClash ∧ ¬ Unique (rows ++ l) ∧ faults d' = faults d ∨
        e.isClash = false ∧ faults d < faults d') := by
  have hkeep : ∀ c ∈ chunks maxRowsPerInsert l, ∀ d₁ d₂, Unique (table d₁) →
      faults d₁ = faults d → x.execute (s.statementOf c) d₁ = (.ok (), d₂) →
      faults d₂ = faults d := by
    intro c hc d₁ d₂ hd₁ hfaults hrun
    have h := inserted_chunk hx hl hc hd₁
    rw [hrun] at h
    cases h with
    | stored _ _ same => exact same.trans hfaults
  rcases insert_in_order (Q := fun d₁ => faults d₁ = faults d) hx.enforcing hx.inOrder hl
      (hrows.of_perm hd.symm) rfl hkeep with
    ⟨d', hrun, hunique, hperm, hfaults⟩ |
    ⟨done, c, rest, d₁, e, d', hsplit, hunique, hperm, hfaults, hfail, -, hrun⟩
  · have hd' := hd.append_right l
    exact Or.inl ⟨d', hrun, hunique.of_perm hd', hperm.trans hd', hfaults⟩
  · have hflat := eq_of_chunks hsplit
    have hd₁ := hperm.trans (hd.append_right done.flatten)
    have hunique₁ := hunique.of_perm (hd.append_right done.flatten)
    have h := inserted_chunk hx hl (by simp [hsplit] : c ∈ chunks maxRowsPerInsert l)
      (hunique₁.of_perm hd₁.symm)
    rw [hfail] at h
    refine Or.inr ⟨done.flatten, e, d', ⟨_, hflat.symm⟩, hrun, hunique₁, ?_⟩
    cases h with
    | refused clash taken perm same =>
      refine ⟨perm.trans hd₁, Or.inl ⟨clash, fun h => taken ?_, same.trans hfaults⟩⟩
      -- The insertion that clashed is a part of the batch, so the whole batch clashes.
      have hsub : (rows ++ done.flatten ++ c).Sublist (rows ++ l) := by
        rw [hflat, ← List.append_assoc rows, ← List.append_assoc]
        exact List.sublist_append_left _ _
      exact (h.sublist hsub).of_perm (hd₁.append_right c).symm
    | failed fault perm more => exact ⟨perm.trans hd₁, Or.inr ⟨fault, hfaults ▸ more⟩⟩

variable (hs : Reads s.dialect)

include hs

theorem read_cases {f : EventFilter} (hf : f ∈ streamFilters l) (hd : (table d).Perm rows) :
    Queried table faults d (rows.filter f.accepts) (s.read x f d) := by
  obtain ⟨statement, hstatement, hread⟩ := read_of_mem_streamFilters hs hf x
  have hquery := hx.queries (d := d) hstatement
  simp only [meets_of_mem_streamFilters hx.exact hf] at hquery
  rw [hread]
  exact hquery.of_perm (hd.filter _)

/-- After a clash the stored rows of the streams of a batch are read back, unless a query fails. -/
theorem readBack_cases (hd : (table d).Perm rows) :
    (∃ outs d', (streamFilters l).mapM (s.read x) d = (.ok outs, d') ∧
      (∀ r, r ∈ outs.flatten ↔ r ∈ rows ∧ ∃ r' ∈ l, r'.stream = r.stream) ∧
      (table d').Perm rows ∧ faults d' = faults d) ∨
    ∃ e d', (streamFilters l).mapM (s.read x) d = (.error e, d') ∧ (table d').Perm rows ∧
      faults d < faults d' := by
  have hstep : ∀ f ∈ streamFilters l, ∀ d₁,
      ((table d₁).Perm rows ∧ faults d₁ = faults d) →
      (∃ out d₂, s.read x f d₁ = (.ok out, d₂) ∧ out.Perm (rows.filter f.accepts) ∧
        (table d₂).Perm rows ∧ faults d₂ = faults d) ∨
      ∃ e d₂, s.read x f d₁ = (.error e, d₂) ∧ (table d₂).Perm rows ∧
        faults d < faults d₂ := by
    rintro f hf d₁ ⟨hd₁, hfaults⟩
    have h := read_cases hx hs hf hd₁
    revert h
    generalize s.read x f d₁ = outcome
    rintro (⟨answer, perm, same⟩ | ⟨-, perm, more⟩)
    · exact Or.inl ⟨_, _, rfl, answer, perm.trans hd₁, same.trans hfaults⟩
    · exact Or.inr ⟨_, _, rfl, perm.trans hd₁, hfaults ▸ more⟩
  rcases mapM_cases (streamFilters l) hstep d ⟨hd, rfl⟩ with
    ⟨outs, d', hread, hall, hd'⟩ | ⟨e, d', hread, hd'⟩
  · exact Or.inl ⟨outs, d', hread, mem_flatten_of_reads hall, hd'⟩
  · exact Or.inr ⟨e, d', hread, hd'⟩

/-- What is done after a clash, from a table that holds some rows of the batch already. -/
theorem recover_attempted (hl : ∀ r ∈ l, r.Storable) (hrows : Unique rows)
    (hd : (table d).Perm rows) (hretry : Retriable rows l) (hclash : ¬ Unique (rows ++ l))
    (e : StorageError) :
    Attempted table faults rows l (faults d) (s.recover x l e d) := by
  have hnew := newRows_subset rows l
  have hunique := hrows.append_newRows hretry.fits
  have hwhole := hretry.subset_append_newRows
  rcases readBack_cases (l := l) hx hs hd with
    ⟨outs, d₁, hread, hmem, hd₁, hfaults⟩ | ⟨e', d₁, hread, hd₁, hmore⟩
  · have hrun : s.unstored x l e d = (.ok (newRows rows l), d₁) := by
      rw [unstored_eq hread, pendingRows_of_joins (joins_of_fits hrows hretry.fits) hclash hmem]
    rw [recover, bind_of_ok hrun]
    by_cases hnil : newRows rows l = []
    · rw [hnil] at hunique hwhole hnew ⊢
      exact .done hnew hunique (by simpa using hd₁) hwhole hfaults
    rw [if_neg (by simpa using hnil)]
    rcases insert_cases hx (fun r hr => hl r (hnew hr)) hrows hd₁ with
      ⟨d', hrun', -, hd', hfaults'⟩ | ⟨q, e', d', hq, hrun', hunique', hd', houtcome⟩
    · rw [hrun']
      exact .done hnew hunique hd' hwhole (hfaults'.trans hfaults)
    · rw [hrun']
      rcases houtcome with ⟨-, htaken, -⟩ | ⟨-, hmore⟩
      · exact absurd hunique htaken
      · exact .cut (List.Subset.trans hq.subset hnew) hunique' hd' (hfaults ▸ hmore)
  · have hrun : s.unstored x l e d = (.error e', d₁) := bind_of_error hread
    rw [recover, bind_of_error hrun]
    exact .cut (List.nil_subset l) (by simpa using hrows) (by simpa using hd₁) hmore

/-- What one attempt at a batch leaves behind. -/
theorem append_attempted (hl : ∀ r ∈ l, r.Storable) (hrows : Unique rows)
    (hd : (table d).Perm rows) (hretry : Retriable rows l) :
    Attempted table faults rows l (faults d) (s.append x l d) := by
  by_cases hne : l = []
  · subst hne
    exact .done (List.Subset.refl _) (by simpa using hrows) (by simpa using hd)
      (List.nil_subset _) rfl
  rw [append_eq_recover hl hne]
  rcases insert_cases hx hl hrows hd with
    ⟨d', hrun, hunique, hd', hfaults⟩ | ⟨q, e, d₁, hq, hrun, hunique, hd₁, houtcome⟩
  · rw [tryCatch_of_ok hrun]
    exact .done (List.Subset.refl _) hunique hd' (List.subset_append_right _ _) hfaults
  rw [tryCatch_of_error hrun]
  rcases houtcome with ⟨hclash, htaken, hfaults⟩ | ⟨hfault, hmore⟩
  · rw [if_pos hclash]
    have htaken' : ¬ Unique (rows ++ q ++ l) := fun h =>
      htaken (h.sublist ((List.sublist_append_left rows q).append_right l))
    have h := recover_attempted hx hs hl hunique hd₁ (hretry.append hq.subset) htaken' e
    rw [hfaults] at h
    exact h.of_append hq.subset
  · rw [if_neg (by simp [hfault])]
    exact .cut hq.subset hunique hd₁ hmore

end Steps

/-! ## Attempts in sequence -/

/-- The states in which attempts at one batch start. Between two attempts the table does not
change. -/
def Attempts (s : TableStore) (x : Executor σ) (table : σ → List EventRow) (l : List EventRow)
    (d : Nat → σ) : Prop :=
  ∀ n, (table (d (n + 1))).Perm (table ((s.storage x).append l (d n)).2)

section Attempts

variable {d : Nat → σ} (hs : Reads s.dialect) (hx : Unsteady s x table faults k)
  (hl : ∀ r ∈ l, r.Storable) (hd : Unique (table (d 0))) (hretry : Retriable (table (d 0)) l)
  (hattempts : Attempts s x table l d)

include hs hx hl hd hretry hattempts

/-- Attempts add rows of the batch, each of them at most once. -/
theorem attempts_add (n : Nat) :
    Unique (table (d n)) ∧ ∃ p ⊆ l, (table (d n)).Perm (table (d 0) ++ p) := by
  induction n with
  | zero => exact ⟨hd, [], List.nil_subset l, by simp⟩
  | succ n ih =>
    obtain ⟨hunique, p, hp, hperm⟩ := ih
    have hretry' := (hretry.append hp).of_perm hperm.symm
    obtain ⟨q, hq, hunique', hperm'⟩ :=
      (append_attempted hx hs hl hunique (List.Perm.refl _) hretry').exists_part
    have hnext := (hattempts n).trans hperm'
    refine ⟨hunique'.of_perm hnext.symm, p ++ q, List.append_subset.mpr ⟨hp, hq⟩, ?_⟩
    rw [← List.append_assoc]
    exact hnext.trans (hperm.append_right q)

theorem attempt_attempted (n : Nat) :
    Attempted table faults (table (d n)) l (faults (d n)) ((s.storage x).append l (d n)) := by
  obtain ⟨hunique, p, hp, hperm⟩ := attempts_add hs hx hl hd hretry hattempts n
  exact append_attempted hx hs hl hunique (List.Perm.refl _)
    ((hretry.append hp).of_perm hperm.symm)

/-- Once the whole batch is stored, attempts change nothing. -/
theorem attempts_keep {n : Nat} (hstored : l ⊆ table (d n)) {m : Nat} (hm : n ≤ m) :
    (table (d m)).Perm (table (d n)) := by
  induction m, hm using Nat.le_induction with
  | base => exact List.Perm.refl _
  | succ m _ ih =>
    obtain ⟨p, hp, hunique, hperm⟩ :=
      (attempt_attempted hs hx hl hd hretry hattempts m).exists_part
    have hnil : p = [] := hunique.eq_nil_of_subset fun r hr => ih.mem_iff.mpr (hstored (hp hr))
    rw [hnil, List.append_nil] at hperm
    exact ((hattempts m).trans hperm).trans ih

end Attempts

/-- Attempts at a batch store each of its rows once. After each of them the table holds its first
rows and some of the batch, none twice. One that meets no failure but clashes succeeds. After one
that has succeeded each row of the batch is stored once, and attempts change nothing any more. -/
theorem appends_converge (hs : Reads s.dialect) (hx : Unsteady s x table faults k)
    (hl : ∀ r ∈ l, r.Storable) (hids : (l.map (·.eventId)).Nodup) (hslots : (l.map (·.slot)).Nodup)
    {d : Nat → σ} (hd : Unique (table (d 0)))
    (hown : ∀ r ∈ l, ∀ r' ∈ table (d 0), r'.eventId = r.eventId ∨ r'.slot = r.slot → r' = r)
    (hattempts : Attempts s x table l d) (n : Nat) :
    let attempt := (s.storage x).append l (d n)
    (Unique (table attempt.2) ∧ ∃ p ⊆ l, (table attempt.2).Perm (table (d 0) ++ p)) ∧
      (faults attempt.2 = faults (d n) → attempt.1 = .ok ()) ∧
      (attempt.1 = .ok () → (∀ r ∈ l, (table attempt.2).count r = 1) ∧
        ∀ m > n, (table ((s.storage x).append l (d m)).2).Perm (table attempt.2)) := by
  intro attempt
  have hretry : Retriable (table (d 0)) l := ⟨⟨hids, hslots⟩, hown⟩
  have hattempt := attempt_attempted hs hx hl hd hretry hattempts n
  obtain ⟨hunique, p, hp, hperm⟩ := attempts_add hs hx hl hd hretry hattempts (n + 1)
  have hunique' : Unique (table attempt.2) := hunique.of_perm (hattempts n)
  refine ⟨⟨hunique', p, hp, (hattempts n).symm.trans hperm⟩, hattempt.ok_of_same, fun hok => ?_⟩
  have hstored := hattempt.subset_of_ok hok
  refine ⟨fun r hr => List.count_eq_one_of_mem hunique'.nodup (hstored hr), fun m hm => ?_⟩
  have hstored' : l ⊆ table (d (n + 1)) := fun r hr => (hattempts n).mem_iff.mpr (hstored hr)
  have hkeep := attempts_keep hs hx hl hd hretry hattempts hstored' (Nat.le_succ_of_le hm)
  exact (hattempts m).symm.trans (hkeep.trans (hattempts n))

/-- Attempts of which each starts where the last one ended. -/
def retried (s : TableStore) (x : Executor σ) (l : List EventRow) (d : σ) : Nat → σ
  | 0 => d
  | n + 1 => ((s.storage x).append l (s.retried x l d n)).2

theorem attempts_retried (s : TableStore) (x : Executor σ) (table : σ → List EventRow)
    (l : List EventRow) (d : σ) : Attempts s x table l (s.retried x l d) :=
  fun _ => List.Perm.refl _

/-- A database that is lost between the two insertions of the first attempt. -/
def lostOnce : Flaky := { outages := [false, true] }

theorem append_lostOnce : (eventsTable.storage flakyDatabase).append longHistory lostOnce =
    (.error (.backend "away"), ⟨history maxRowsPerInsert, [], 1⟩) := by
  have hunique : Unique ([] ++ history maxRowsPerInsert) := unique_history (by decide)
  have hfirst : flakyDatabase.execute (eventsTable.statementOf (history maxRowsPerInsert))
      lostOnce = (.ok (), ⟨history maxRowsPerInsert, [true], 0⟩) :=
    execute_statementOf (history_ne_nil (by decide)) (storable_history (by decide)) (by decide)
      hunique
  have hinsert := insert_of_second_fails (unsteady_flakyDatabase eventsTable).inOrder
    storable_longHistory chunks_longHistory hfirst (execute_of_away rfl)
  show eventsTable.append flakyDatabase longHistory lostOnce = _
  rw [append_eq_recover storable_longHistory longHistory_ne_nil, tryCatch_of_error hinsert]
  rfl

/-- The states in which attempts start there. -/
def lostAttempts : Nat → Flaky := eventsTable.retried flakyDatabase longHistory lostOnce

/-- The first attempt stores the rows of one insertion, and the next ones add the missing row. -/
theorem lost_batch_converges :
    let attempt := (eventsTable.storage flakyDatabase).append longHistory (lostAttempts 1)
    (lostAttempts 1).rows = history maxRowsPerInsert ∧ Reads eventsTable.dialect ∧
      Unsteady eventsTable flakyDatabase Flaky.rows Flaky.failures plainCollation ∧
      (∀ r ∈ longHistory, r.Storable) ∧ (longHistory.map (·.eventId)).Nodup ∧
      (longHistory.map (·.slot)).Nodup ∧ Unique (lostAttempts 0).rows ∧
      (∀ r ∈ longHistory, ∀ r' ∈ (lostAttempts 0).rows,
        r'.eventId = r.eventId ∨ r'.slot = r.slot → r' = r) ∧
      Attempts eventsTable flakyDatabase Flaky.rows longHistory lostAttempts ∧
      (Unique attempt.2.rows ∧
        ∃ p ⊆ longHistory, attempt.2.rows.Perm ((lostAttempts 0).rows ++ p)) ∧
      (attempt.2.failures = (lostAttempts 1).failures → attempt.1 = .ok ()) ∧
      (attempt.1 = .ok () → (∀ r ∈ longHistory, attempt.2.rows.count r = 1) ∧
        ∀ m > 1, ((eventsTable.storage flakyDatabase).append longHistory
          (lostAttempts m)).2.rows.Perm attempt.2.rows) := by
  have hfirst : (lostAttempts 1).rows = history maxRowsPerInsert := by
    rw [lostAttempts, retried, retried, append_lostOnce]
  have hs : Reads eventsTable.dialect := reads_dialect .generic
  have hx := unsteady_flakyDatabase eventsTable
  have hd : Unique (lostAttempts 0).rows := ⟨List.nodup_nil, List.nodup_nil⟩
  have hown : ∀ r ∈ longHistory, ∀ r' ∈ (lostAttempts 0).rows,
      r'.eventId = r.eventId ∨ r'.slot = r.slot → r' = r :=
    fun _ _ _ hr' => absurd hr' List.not_mem_nil
  have hattempts : Attempts eventsTable flakyDatabase Flaky.rows longHistory lostAttempts :=
    attempts_retried eventsTable flakyDatabase Flaky.rows longHistory lostOnce
  exact ⟨hfirst, hs, hx, storable_longHistory, unique_longHistory.ids, unique_longHistory.slots, hd,
    hown, hattempts, appends_converge hs hx storable_longHistory unique_longHistory.ids
      unique_longHistory.slots hd hown hattempts 1⟩

end TableStore

end EventStore
