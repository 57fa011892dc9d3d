import EventStore.Proofs.ReplayedHistories

/-!
# Rows that are passed over

When aggregates are rebuilt from rows, an event may be read many times, and its first row counts.
Event ids alone tell which rows are the same, so a row that has the event id of an earlier one is
passed over whatever it says, before it is decoded.

Proved here, for any rows:

* `mem_replayed_iff_leads`: the rows that are replayed are those that `Lead`: of the selected rows
  with their event ids they come first;
* `exists_rebuildRows_iff`: rows of one aggregate can be rebuilt if each of them is decoded, the
  aggregate can be made, and no two of them are at one version;
* `rebuilt_from_leading_rows`: so a rebuild succeeds exactly if the leading rows allow it, and then
  each selected row stands in its aggregate, if it leads, or else has a leading row in its place.
-/

namespace EventStore.Mapping

open Aggregate

variable {S P : Type} {m : Mapping S P} {options : LoadOptions} {rows : List EventRow}
  {id : String}

/-! ## Leading rows -/

/-- The first row that a load selects among those with its event id. -/
def Leads (m : Mapping S P) (options : LoadOptions) (rows : List EventRow) (row : EventRow) :
    Prop :=
  (rows.find? fun r => m.selects options r && r.eventId = row.eventId) = some row

theorem mem_firstOccurrences_iff {seen : List Uuid} {row : EventRow} :
    row ∈ firstOccurrences seen rows ↔
      row.eventId ∉ seen ∧ (rows.find? fun r => r.eventId = row.eventId) = some row := by
  induction rows generalizing seen with
  | nil => simp [firstOccurrences]
  | cons r l ih =>
    rw [firstOccurrences]
    by_cases hid : r.eventId = row.eventId
    · rw [List.find?_cons_of_pos (by simpa using hid), Option.some.injEq]
      split
      · rename_i hseen
        refine iff_of_false (fun hmem => (ih.mp hmem).1 (hid ▸ hseen)) fun h => h.1 (hid ▸ hseen)
      · rename_i hseen
        rw [List.mem_cons, ih]
        constructor
        · rintro (rfl | ⟨hnot, -⟩)
          · exact ⟨hseen, rfl⟩
          · exact absurd (hid ▸ List.mem_cons_self) hnot
        · rintro ⟨-, rfl⟩
          exact Or.inl rfl
    · have hne : row ≠ r := fun heq => hid (congrArg EventRow.eventId heq.symm)
      rw [List.find?_cons_of_neg (by simpa using hid)]
      split
      · exact ih
      · rw [List.mem_cons, ih, List.mem_cons]
        simp [hne, Ne.symm hid]

theorem mem_replayed_iff_leads {row : EventRow} :
    row ∈ m.replayed options rows ↔ m.Leads options rows row := by
  rw [replayed, mem_firstOccurrences_iff, List.find?_filter, Leads]
  simp

theorem exists_leads {row : EventRow} (hrow : row ∈ rows) (hselects : m.selects options row) :
    ∃ first, m.Leads options rows first ∧ first.eventId = row.eventId := by
  have hsome : (rows.find? fun r => m.selects options r && r.eventId = row.eventId).isSome := by
    rw [List.find?_isSome]
    exact ⟨row, hrow, by simp [hselects]⟩
  obtain ⟨first, hfirst⟩ := Option.isSome_iff_exists.mp hsome
  have hid : first.eventId = row.eventId := by
    have hboth := List.find?_some hfirst
    simp only [Bool.and_eq_true, decide_eq_true_eq] at hboth
    exact hboth.2
  refine ⟨first, ?_, hid⟩
  rw [Leads, hid]
  exact hfirst

/-! ## One aggregate -/

/-- An aggregate can be made of the identity that a text gives. -/
def Makes (m : Mapping S P) (id : String) : Prop :=
  ∃ i : AggregateId, Identity.ofText id = .ok i ∧ ∃ state, m.blueprint.create i = some state

theorem own_of_mapM {i : AggregateId} {events : List (DomainEvent P)}
    (hid : Identity.ofText id = .ok i) (hrows : ∀ row ∈ rows, row.aggregateId = id)
    (h : rows.mapM m.ofRow = .ok events) : ∀ e ∈ events, e.aggregateId = some i := by
  intro e he
  obtain ⟨row, hrow, hdecoded⟩ := (mem_of_mapM h).mp he
  obtain ⟨j, hj, howner⟩ := aggregateId_of_ofRow hdecoded
  rw [hrows row hrow, hid] at hj
  rw [howner, Except.ok.inj hj]

theorem exists_rebuildRows_iff (hrows : ∀ row ∈ rows, row.aggregateId = id) :
    (∃ a, m.rebuildRows id rows = .ok a) ↔
      (∀ row ∈ rows, ∃ e, m.ofRow row = .ok e) ∧ m.Makes id ∧ (rows.map (·.version)).Nodup := by
  have hversions : ∀ events, rows.mapM m.ofRow = .ok events →
      events.map (·.versionNumber) = rows.map (·.version) := fun events =>
    map_eq_map_of_mapM fun _ _ _ he => versionNumber_of_ofRow he
  constructor
  · rintro ⟨a, ha⟩
    obtain ⟨events, hevents, hrebuild⟩ := except_bind_eq_ok_iff.mp ha
    obtain ⟨i, hid, hreplay⟩ := rebuild_eq_ok_iff.mp hrebuild
    obtain ⟨hcreate, hhistory⟩ := exists_replay_iff.mp ⟨a, hreplay⟩
    exact ⟨exists_mapM_iff.mp ⟨events, hevents⟩, ⟨i, hid, hcreate⟩,
      hversions events hevents ▸ hhistory.distinct⟩
  · rintro ⟨hdecodes, ⟨i, hid, hcreate⟩, hdistinct⟩
    obtain ⟨events, hevents⟩ := exists_mapM_iff.mpr hdecodes
    rw [← hversions events hevents] at hdistinct
    obtain ⟨a, hreplay⟩ := exists_replay_iff.mpr
      ⟨hcreate, own_of_mapM hid hrows hevents, hdistinct⟩
    exact ⟨a, except_bind_eq_ok_iff.mpr ⟨events, hevents, rebuild_eq_ok_iff.mpr ⟨i, hid, hreplay⟩⟩⟩

/-! ## All aggregates -/

/-- A leading row that can be replayed with all other leading rows of its aggregate. -/
structure Replayable (m : Mapping S P) (options : LoadOptions) (rows : List EventRow)
    (row : EventRow) : Prop where
  decodes : ∃ e, m.ofRow row = .ok e
  makes : m.Makes row.aggregateId
  alone : ∀ row', m.Leads options rows row' → row'.aggregateId = row.aggregateId →
    row'.version = row.version → row' = row

/-- An aggregate that was replayed from the leading rows under an identity, one of which is given. -/
structure RebuiltWith (m : Mapping S P) (options : LoadOptions) (rows : List EventRow)
    (row : EventRow) (a : Aggregate S P) : Prop where
  id : Identity.ofText row.aggregateId = .ok a.id
  replay : ∃ events, Aggregate.replay m.blueprint a.id events = .ok a ∧
    ∀ e, e ∈ events ↔ ∃ row', m.Leads options rows row' ∧ row'.aggregateId = row.aggregateId ∧
      m.ofRow row' = .ok e

/-- The leading rows of an aggregate. -/
theorem mem_ofAggregate_iff {row : EventRow} : row ∈ ofAggregate id (m.replayed options rows) ↔
    m.Leads options rows row ∧ row.aggregateId = id := by
  rw [ofAggregate, List.mem_filter, mem_replayed_iff_leads, decide_eq_true_eq]

theorem nodup_version_iff :
    ((ofAggregate id (m.replayed options rows)).map (·.version)).Nodup ↔
      ∀ row, m.Leads options rows row → row.aggregateId = id →
        ∀ row', m.Leads options rows row' → row'.aggregateId = id →
          row'.version = row.version → row' = row := by
  rw [List.nodup_map_iff_inj_on (nodup_ofAggregate_replayed id)]
  simp only [mem_ofAggregate_iff]
  constructor
  · intro h row hrow hid row' hrow' hid' hversion
    exact h row' ⟨hrow', hid'⟩ row ⟨hrow, hid⟩ hversion
  · rintro h row ⟨hrow, hid⟩ row' ⟨hrow', hid'⟩ hversion
    exact h row' hrow' hid' row hrow hid hversion

theorem exists_rebuildRows_group_iff :
    (∃ a, m.rebuildRows id (ofAggregate id (m.replayed options rows)) = .ok a) ↔
      (∀ row, m.Leads options rows row → row.aggregateId = id → ∃ e, m.ofRow row = .ok e) ∧
        m.Makes id ∧ ((ofAggregate id (m.replayed options rows)).map (·.version)).Nodup := by
  rw [exists_rebuildRows_iff fun row hrow => (mem_ofAggregate_iff.mp hrow).2]
  simp only [mem_ofAggregate_iff, and_imp]

theorem mem_aggregateIds_iff :
    id ∈ ((m.replayed options rows).map (·.aggregateId)).eraseDups ↔
      ∃ row, m.Leads options rows row ∧ row.aggregateId = id := by
  simp only [List.mem_eraseDups, List.mem_map, mem_replayed_iff_leads]

theorem exists_aggregatesOfRows_iff : (∃ l, m.aggregatesOfRows options rows = .ok l) ↔
    ∀ row, m.Leads options rows row → m.Replayable options rows row := by
  have hgroups : (∃ l, m.aggregatesOfRows options rows = .ok l) ↔
      ∀ id ∈ ((m.replayed options rows).map (·.aggregateId)).eraseDups,
        ∃ a, m.rebuildRows id (ofAggregate id (m.replayed options rows)) = .ok a := by
    simp only [aggregatesOfRows_eq_ok_iff, ← exists_mapM_iff]
    exact ⟨fun ⟨_, as, has, _⟩ => ⟨as, has⟩, fun ⟨as, has⟩ => ⟨_, as, has, rfl⟩⟩
  rw [hgroups]
  constructor
  · intro h row hrow
    obtain ⟨hdecodes, hmakes, hdistinct⟩ := exists_rebuildRows_group_iff.mp
      (h row.aggregateId (mem_aggregateIds_iff.mpr ⟨row, hrow, rfl⟩))
    exact ⟨hdecodes row hrow rfl, hmakes, nodup_version_iff.mp hdistinct row hrow rfl⟩
  · intro h id hid
    obtain ⟨row, hrow, rfl⟩ := mem_aggregateIds_iff.mp hid
    refine exists_rebuildRows_group_iff.mpr
      ⟨fun r hr _ => (h r hr).decodes, (h row hrow).makes, nodup_version_iff.mpr ?_⟩
    intro r hr hid r' hr' hid'
    exact (h r hr).alone r' hr' (hid'.trans hid.symm)

/-- The aggregate of a text has the events of the leading rows with that text. -/
theorem of_rebuildRows_group {a : Aggregate S P}
    (h : m.rebuildRows id (ofAggregate id (m.replayed options rows)) = .ok a) :
    Identity.ofText id = .ok a.id ∧ ∃ events, Aggregate.replay m.blueprint a.id events = .ok a ∧
      ∀ e, e ∈ events ↔ ∃ row, m.Leads options rows row ∧ row.aggregateId = id ∧
        m.ofRow row = .ok e := by
  obtain ⟨events, hevents, hrebuild⟩ := except_bind_eq_ok_iff.mp h
  obtain ⟨i, hid, hreplay⟩ := rebuild_eq_ok_iff.mp hrebuild
  obtain rfl : a.id = i := by
    obtain ⟨state, -, -, rfl⟩ := replay_eq_ok_iff.mp hreplay
    exact foldl_advance_id _
  refine ⟨hid, events, hreplay, fun e => ?_⟩
  simp only [mem_of_mapM hevents, mem_ofAggregate_iff, and_assoc]

theorem rebuiltWith_of_rebuildRows {row : EventRow} {a : Aggregate S P}
    (h : m.rebuildRows row.aggregateId (ofAggregate row.aggregateId (m.replayed options rows)) =
      .ok a) : m.RebuiltWith options rows row a := by
  obtain ⟨hid, hreplay⟩ := of_rebuildRows_group h
  exact ⟨hid, hreplay⟩

/-- With deleted aggregates included, rows are rebuilt exactly if each row that leads can be replayed
with the others of its aggregate. Then each selected row stands in the aggregate under its identity
if it leads; if it does not, the first row with its event id stands there in its place, whatever the
two rows say. -/
theorem rebuilt_from_leading_rows (m : Mapping S P) (ceiling : Option Nat)
    (rows : List EventRow) :
    let options : LoadOptions := ⟨ceiling, true⟩
    ((∃ l, m.aggregatesOfRows options rows = .ok l) ↔
      ∀ row, m.Leads options rows row → m.Replayable options rows row) ∧
    ∀ l, m.aggregatesOfRows options rows = .ok l → ∀ row ∈ rows, m.selects options row →
      ∃ first, m.Leads options rows first ∧ first.eventId = row.eventId ∧
        ∃ a ∈ l, m.RebuiltWith options rows first a := by
  intro options
  refine ⟨exists_aggregatesOfRows_iff, fun l hl row hrow hselects => ?_⟩
  obtain ⟨first, hfirst, hid⟩ := exists_leads hrow hselects
  obtain ⟨as, has, rfl⟩ := aggregatesOfRows_eq_ok_iff.mp hl
  have hmem : first.aggregateId ∈ ((m.replayed options rows).map (·.aggregateId)).eraseDups :=
    mem_aggregateIds_iff.mpr ⟨first, hfirst, rfl⟩
  obtain ⟨a, ha⟩ := exists_mapM_iff.mp ⟨as, has⟩ _ hmem
  have hkept : a ∈ as.filter (keeps options) :=
    List.mem_filter.mpr ⟨(mem_of_mapM has).mpr ⟨_, hmem, ha⟩, by simp [keeps, options]⟩
  exact ⟨first, hfirst, hid, a, hkept, rebuiltWith_of_rebuildRows ha⟩

open Accounts

/-- The rows of the account of Ann. -/
def annsLedger : Mapping Account AccountEvent := ⟨Account.blueprint, .json AccountEvent⟩

/-- The account is opened at version 1. -/
def openingRow : EventRow :=
  annsLedger.rowOf ⟨⟨1⟩, Life.annsId, 1, .system, .epoch, .none, .opened "Ann" 5⟩

/-- A deposit at version 2 has the event id of the opening. -/
def depositRow : EventRow :=
  annsLedger.rowOf ⟨⟨1⟩, Life.annsId, 2, .system, .epoch, .none, .moneyDeposited 3⟩

/-- A row of the same event id, whose body cannot be decoded. -/
def garbledRow : EventRow := { depositRow with body := "null" }

/-- Behind the opening the deposit is lost without an error, and so is a row that cannot be decoded,
which is an error if it comes first. -/
theorem deposit_is_passed_over :
    let options : LoadOptions := { includeDeleted := true }
    let opened : Aggregate Account AccountEvent :=
      ⟨Life.annsId, 1, true, false, [], { owner := "Ann", balance := 5, trail := ["Opened@1"] }⟩
    annsLedger.selects options depositRow ∧ depositRow ≠ openingRow ∧
      (annsLedger.ofRow depositRow).map (·.versionNumber) = .ok 2 ∧
      annsLedger.aggregatesOfRows options [openingRow, depositRow] = .ok [opened] ∧
      annsLedger.aggregatesOfRows options [openingRow, garbledRow] = .ok [opened] ∧
      annsLedger.aggregatesOfRows options [garbledRow, openingRow] =
        .error (.undecodable garbledRow (.malformed "MoneyDeposited" .wrongShape)) := by
  refine ⟨?_, ?_, ?_, ?_, ?_, ?_⟩ <;> decide +kernel

end EventStore.Mapping
