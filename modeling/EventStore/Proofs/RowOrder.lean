import EventStore.Proofs.ProjectedLoads

/-!
# Rows in any order and number

Proved here, for rows of any aggregates, of which those with one event id are the same:

* `eraseDups_firstOccurrences`: to pass over repeated rows changes neither the aggregates that occur
  nor their order;
* `aggregatesOfRows_eq_ok_iff_arranged`: so rows give their aggregates in the order of their first
  rows, each replayed from its rows, of which each counts once;
* `Arranged.exists_perm`: from the same rows in another order and number come the same aggregates;
* `aggregatesOfRows_of_same_rows`: hence both lists of rows fail, or both give these aggregates.
-/

namespace EventStore

namespace Mapping

variable {S P : Type} {m : Mapping S P} {options : LoadOptions} {rows rows' : List EventRow}

/-! ## Repeated rows -/

theorem firstOccurrences_concat (seen : List Uuid) (rows : List EventRow) (r : EventRow) :
    firstOccurrences seen (rows ++ [r]) =
      if r.eventId ∈ seen ∨ r.eventId ∈ rows.map (·.eventId) then firstOccurrences seen rows
      else firstOccurrences seen rows ++ [r] := by
  induction rows generalizing seen with
  | nil => simp [firstOccurrences]
  | cons r' l ih =>
    rw [List.cons_append, firstOccurrences, firstOccurrences, ih, ih, List.map_cons]
    split
    · rename_i hseen
      have hmem : r.eventId = r'.eventId → r.eventId ∈ seen := fun heq => heq ▸ hseen
      grind
    · grind

/-- Aggregates first occur in the rows where they first occur in the rows without repetitions. -/
theorem eraseDups_firstOccurrences
    (hsame : ∀ r ∈ rows, ∀ r' ∈ rows, r.eventId = r'.eventId → r = r') :
    ((firstOccurrences [] rows).map (·.aggregateId)).eraseDups =
      (rows.map (·.aggregateId)).eraseDups := by
  induction rows using List.reverseRecOn with
  | nil => rfl
  | append_singleton l r ih =>
    have hl : ∀ x ∈ l, ∀ y ∈ l, x.eventId = y.eventId → x = y := fun x hx y hy =>
      hsame x (List.mem_append_left _ hx) y (List.mem_append_left _ hy)
    have hids : r.aggregateId ∈ (firstOccurrences [] l).map (·.aggregateId) ↔
        r.aggregateId ∈ l.map (·.aggregateId) := by
      rw [← List.mem_eraseDups, ih hl, List.mem_eraseDups]
    rw [firstOccurrences_concat, List.map_append, List.map_singleton, eraseDups_concat]
    split
    · rename_i hseen
      obtain ⟨r', hr', heq⟩ := List.mem_map.mp (hseen.resolve_left List.not_mem_nil)
      obtain rfl := hsame r' (by simp [hr']) r (by simp) heq
      rw [if_pos (List.mem_map_of_mem hr'), ih hl]
    · rw [List.map_append, List.map_singleton, eraseDups_concat, ih hl]
      simp only [hids]

/-! ## The aggregates of rows -/

/-- The aggregates that a load selects rows of, in the order of the first of these rows. -/
def occurring (m : Mapping S P) (options : LoadOptions) (rows : List EventRow) : List String :=
  ((rows.filter (m.selects options)).map (·.aggregateId)).eraseDups

/-- Aggregates in the order of their first rows, each replayed from its rows, of which each counts
once, without those that the load does not give. -/
def Arranged (m : Mapping S P) (options : LoadOptions) (rows : List EventRow)
    (l : List (Aggregate S P)) : Prop :=
  ∃ as, List.Forall₂ (fun id a => m.rebuildRows id (m.rowsUpTo options id rows.eraseDups) = .ok a)
      (m.occurring options rows) as ∧
    l = as.filter (keeps options)

theorem aggregatesOfRows_eq_ok_iff_arranged
    (hsame : ∀ r ∈ rows, ∀ r' ∈ rows, r.eventId = r'.eventId → r = r')
    {l : List (Aggregate S P)} :
    m.aggregatesOfRows options rows = .ok l ↔ m.Arranged options rows l := by
  have hoccurring : ((m.replayed options rows).map (·.aggregateId)).eraseDups =
      m.occurring options rows := eraseDups_firstOccurrences fun r hr r' hr' =>
    hsame r (List.mem_of_mem_filter hr) r' (List.mem_of_mem_filter hr')
  have hids : (rows.eraseDups.map (·.eventId)).Nodup :=
    (nodup_eraseDups rows).map_on fun r hr r' hr' =>
      hsame r (List.mem_eraseDups.mp hr) r' (List.mem_eraseDups.mp hr')
  have hfinds : m.Finds options (fun _ => True) rows.eraseDups rows := fun r _ => by simp
  have hrebuild : ∀ id a, m.rebuildRows id (ofAggregate id (m.replayed options rows)) = .ok a ↔
      m.rebuildRows id (m.rowsUpTo options id rows.eraseDups) = .ok a :=
    fun id a => rebuildRows_replayed hfinds hids trivial
  rw [aggregatesOfRows_eq_ok_iff, hoccurring, Arranged]
  refine exists_congr fun as => and_congr_left fun _ => ⟨fun h => ?_, fun h => mapM_of_forall₂ ?_⟩
  · exact (forall₂_of_mapM h).imp fun id a => (hrebuild id a).mp
  · exact h.imp fun id a => (hrebuild id a).mpr

theorem pending_of_rebuildRows {id : String} {a : Aggregate S P}
    (h : m.rebuildRows id rows = .ok a) : a.pending = [] := by
  obtain ⟨events, -, hrebuild⟩ := except_bind_eq_ok_iff.mp h
  obtain ⟨i, -, hreplay⟩ := rebuild_eq_ok_iff.mp hrebuild
  obtain ⟨state, -, -, rfl⟩ := Aggregate.replay_eq_ok_iff.mp hreplay
  exact Aggregate.foldl_advance_pending _

theorem Arranged.pending_eq_nil {l : List (Aggregate S P)} (h : m.Arranged options rows l) :
    ∀ a ∈ l, a.pending = [] := by
  obtain ⟨as, hall, rfl⟩ := h
  intro a ha
  obtain ⟨id, -, hid⟩ := (mem_of_mapM (mapM_of_forall₂ hall)).mp (List.mem_of_mem_filter ha)
  exact pending_of_rebuildRows hid

section Same

variable (hrows : ∀ row, row ∈ rows ↔ row ∈ rows')

include hrows

theorem occurring_perm : (m.occurring options rows).Perm (m.occurring options rows') := by
  refine (List.perm_ext_iff_of_nodup (nodup_eraseDups _) (nodup_eraseDups _)).mpr fun id => ?_
  simp only [List.mem_eraseDups, List.mem_map, List.mem_filter, hrows]

theorem rowsUpTo_perm (id : String) :
    (m.rowsUpTo options id rows.eraseDups).Perm (m.rowsUpTo options id rows'.eraseDups) := by
  have hperm : rows.eraseDups.Perm rows'.eraseDups :=
    (List.perm_ext_iff_of_nodup (nodup_eraseDups _) (nodup_eraseDups _)).mpr fun row => by
      rw [List.mem_eraseDups, List.mem_eraseDups, hrows]
  exact (hperm.filter _).filter _

/-- The same rows in another order and number give the same aggregates. -/
theorem Arranged.exists_perm {l : List (Aggregate S P)} (h : m.Arranged options rows l) :
    ∃ l', m.Arranged options rows' l' ∧ l'.Perm l := by
  obtain ⟨as, hall, rfl⟩ := h
  have hall' := hall.imp fun id a ha => rebuildRows_of_perm (rowsUpTo_perm hrows id) ha
  obtain ⟨as', has', hperm⟩ := exists_mapM_of_perm (occurring_perm hrows) (mapM_of_forall₂ hall')
  exact ⟨_, ⟨as', forall₂_of_mapM has', rfl⟩, hperm.filter _⟩

end Same

/-- Whether rows give aggregates, and which, depends neither on their order nor on how often each of
them is there. The aggregates have nothing pending, and come in the order of their first rows. -/
theorem aggregatesOfRows_of_same_rows (hrows : ∀ row, row ∈ rows ↔ row ∈ rows')
    (hsame : ∀ r ∈ rows, ∀ r' ∈ rows, r.eventId = r'.eventId → r = r') :
    let result := m.aggregatesOfRows options rows
    let result' := m.aggregatesOfRows options rows'
    ((∃ l, result = .ok l) ↔ ∃ l', result' = .ok l') ∧
      ∀ l l', result = .ok l → result' = .ok l' →
        l.Perm l' ∧ (∀ a ∈ l, a.pending = []) ∧
        m.Arranged options rows l ∧ m.Arranged options rows' l' := by
  intro result result'
  have hsame' : ∀ r ∈ rows', ∀ r' ∈ rows', r.eventId = r'.eventId → r = r' := fun r hr r' hr' =>
    hsame r ((hrows r).mpr hr) r' ((hrows r').mpr hr')
  have hok : ∀ l, result = .ok l ↔ m.Arranged options rows l := fun l =>
    aggregatesOfRows_eq_ok_iff_arranged hsame
  have hok' : ∀ l, result' = .ok l ↔ m.Arranged options rows' l := fun l =>
    aggregatesOfRows_eq_ok_iff_arranged hsame'
  refine ⟨⟨?_, ?_⟩, fun l l' hl hl' => ?_⟩
  · rintro ⟨l, hl⟩
    obtain ⟨l', hl', -⟩ := ((hok l).mp hl).exists_perm hrows
    exact ⟨l', (hok' l').mpr hl'⟩
  · rintro ⟨l', hl'⟩
    obtain ⟨l, hl, -⟩ := ((hok' l').mp hl').exists_perm fun row => (hrows row).symm
    exact ⟨l, (hok l).mpr hl⟩
  · have harranged := (hok l).mp hl
    obtain ⟨l₁, hl₁, hperm⟩ := harranged.exists_perm hrows
    obtain rfl : l₁ = l' := Except.ok.inj (((hok' l₁).mpr hl₁).symm.trans hl')
    exact ⟨hperm.symm, harranged.pending_eq_nil, harranged, hl₁⟩

open Accounts
open Repository (accountLedger accountRows)

/-- The rows of the accounts, the other way round, and that of Bea twice. -/
def mixedAccountRows : List EventRow := accountRows.reverse ++ accountRows.drop 2

/-- The accounts as they were at first are the same, but that of Bea comes before that of Ann. -/
theorem mixedAccountRows_give_same :
    let options : LoadOptions := { maxVersion := some 1 }
    let shown := fun l : List (Aggregate Account AccountEvent) => l.map fun a => (a.id.text, a.version)
    let result := accountLedger.aggregatesOfRows options accountRows
    let result' := accountLedger.aggregatesOfRows options mixedAccountRows
    (∀ row, row ∈ accountRows ↔ row ∈ mixedAccountRows) ∧
      (∀ r ∈ accountRows, ∀ r' ∈ accountRows, r.eventId = r'.eventId → r = r') ∧
      result.map shown = .ok [("ann", 1), ("bea", 1)] ∧
      result'.map shown = .ok [("bea", 1), ("ann", 1)] ∧
      ((∃ l, result = .ok l) ↔ ∃ l', result' = .ok l') ∧
      ∀ l l', result = .ok l → result' = .ok l' →
        l.Perm l' ∧ (∀ a ∈ l, a.pending = []) ∧
        accountLedger.Arranged options accountRows l ∧
        accountLedger.Arranged options mixedAccountRows l' := by
  intro options shown result result'
  have hrows : ∀ row, row ∈ accountRows ↔ row ∈ mixedAccountRows := fun row => by
    rw [mixedAccountRows, List.mem_append, List.mem_reverse]
    exact ⟨Or.inl, fun h => h.elim id List.mem_of_mem_drop⟩
  have hsame : ∀ r ∈ accountRows, ∀ r' ∈ accountRows, r.eventId = r'.eventId → r = r' := by
    decide +kernel
  have hresult : result.map shown = .ok [("ann", 1), ("bea", 1)] := by decide +kernel
  have hresult' : result'.map shown = .ok [("bea", 1), ("ann", 1)] := by decide +kernel
  exact ⟨hrows, hsame, hresult, hresult', aggregatesOfRows_of_same_rows hrows hsame⟩

end Mapping

end EventStore
