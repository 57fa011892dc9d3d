import EventStore.Proofs.PassedOverRows

/-!
# Identities and the texts that give them

Texts that differ in the blanks around them give the same identity. Rows are put into groups by the
texts of their aggregates, and only then an identity is made of the text of each group.

Proved here, for any rows:

* `ofText_eq_iff`: two texts give one identity exactly if they are the same once they are trimmed;
* `forall₂_rebuiltAs`: of the texts that rows have, each gives an aggregate that has the rows with
  this very text, or one that a load leaves out;
* `nodup_ids_iff`: these aggregates have distinct identities exactly if no two of their texts give
  the same one;
* `aggregates_by_text`: so a load gives each aggregate once, with all of its rows, if each identity
  is written in one way, and a load with deleted aggregates only then.
-/

namespace EventStore

/-- Texts that differ in their blanks alone give the same. -/
theorem Identity.ofText_congr {kind : IdentityKind} {s t : String} (h : Text.trim s = Text.trim t) :
    (Identity.ofText s : Except IdentityError (Identity kind)) = Identity.ofText t := by
  simp only [Identity.ofText, h]

namespace Mapping

variable {S P : Type} {m : Mapping S P} {options : LoadOptions} {rows : List EventRow}
  {texts : List String} {l : List (Aggregate S P)}

theorem ofText_eq_iff {kind : IdentityKind} {s t : String} {i : Identity kind}
    (h : Identity.ofText s = .ok i) :
    Identity.ofText t = .ok i ↔ Text.trim s = Text.trim t := by
  constructor
  · intro ht
    rw [← text_of_ofText h, text_of_ofText ht]
  · intro htrim
    rw [← Identity.ofText_congr htrim, h]

/-! ## Aggregates of texts -/

/-- An aggregate was replayed from the leading rows whose texts have a property. -/
def HasRows (m : Mapping S P) (options : LoadOptions) (rows : List EventRow)
    (written : String → Prop) (a : Aggregate S P) : Prop :=
  ∃ events, Aggregate.replay m.blueprint a.id events = .ok a ∧
    ∀ e, e ∈ events ↔ ∃ row, m.Leads options rows row ∧ written row.aggregateId ∧
      m.ofRow row = .ok e

/-- An aggregate that a text gives, with the rows that have this very text. -/
structure RebuiltAs (m : Mapping S P) (options : LoadOptions) (rows : List EventRow)
    (text : String) (a : Aggregate S P) : Prop where
  id : Identity.ofText text = .ok a.id
  rows : m.HasRows options rows (· = text) a

/-- No identity is written in two ways. -/
def WrittenAlike (m : Mapping S P) (options : LoadOptions) (rows : List EventRow) : Prop :=
  ∀ row, m.Leads options rows row → ∀ row', m.Leads options rows row' →
    Text.trim row.aggregateId = Text.trim row'.aggregateId → row.aggregateId = row'.aggregateId

theorem rebuiltAs_of_rebuildRows {text : String} {a : Aggregate S P}
    (h : m.rebuildRows text (ofAggregate text (m.replayed options rows)) = .ok a) :
    m.RebuiltAs options rows text a := by
  obtain ⟨hid, hreplay⟩ := of_rebuildRows_group h
  exact ⟨hid, hreplay⟩

/-- Each text of a leading row gives an aggregate, which is left out only if it is deleted. -/
theorem forall₂_rebuiltAs (h : m.aggregatesOfRows options rows = .ok l) :
    ∃ texts : List String, texts.Nodup ∧ List.Forall₂ (m.RebuiltAs options rows) texts l ∧
      (∀ text ∈ texts, ∃ row, m.Leads options rows row ∧ row.aggregateId = text) ∧
      ∀ row, m.Leads options rows row → row.aggregateId ∈ texts ∨
        ∃ a, m.RebuiltAs options rows row.aggregateId a ∧ a.isDeleted ∧ !options.includeDeleted := by
  obtain ⟨as, has, rfl⟩ := aggregatesOfRows_eq_ok_iff.mp h
  have hall := (forall₂_of_mapM has).imp fun _ _ => rebuiltAs_of_rebuildRows
  obtain ⟨texts, hsublist, hkept, hrest⟩ := exists_forall₂_filter hall (keeps options)
  refine ⟨texts, (nodup_eraseDups _).sublist hsublist, hkept,
    fun text htext => mem_aggregateIds_iff.mp (hsublist.subset htext), fun row hrow => ?_⟩
  refine (hrest _ (mem_aggregateIds_iff.mpr ⟨row, hrow, rfl⟩)).imp_right ?_
  rintro ⟨a, ha, hleft⟩
  simp only [keeps, Bool.or_eq_false_iff, Bool.not_eq_false'] at hleft
  exact ⟨a, ha, hleft.1, by simp [hleft.2]⟩

/-- Aggregates have distinct identities exactly if no two of their texts give the same one. -/
theorem nodup_ids_iff (htexts : texts.Nodup)
    (h : List.Forall₂ (m.RebuiltAs options rows) texts l) :
    (l.map (·.id)).Nodup ↔
      ∀ s ∈ texts, ∀ t ∈ texts, Text.trim s = Text.trim t → s = t := by
  have hids : texts.map Text.trim = (l.map (·.id)).map (·.text) := by
    rw [List.map_map, ← List.forall₂_eq_eq_eq, List.forall₂_map_left_iff,
      List.forall₂_map_right_iff]
    exact h.imp fun _ _ hrebuilt => (text_of_ofText hrebuilt.id).symm
  have hinjective : Function.Injective fun i : AggregateId => i.text :=
    fun _ _ hij => Identity.ext hij
  rw [← List.nodup_map_iff hinjective, ← hids, List.nodup_map_iff_inj_on htexts]

/-! ## Identities that are written in one way -/

/-- The rows with the text of an aggregate are all rows that its identity is written in. -/
theorem RebuiltAs.hasRows {text : String} {a : Aggregate S P}
    (h : m.RebuiltAs options rows text a) (halike : m.WrittenAlike options rows)
    (hrow : ∃ row, m.Leads options rows row ∧ row.aggregateId = text) :
    m.HasRows options rows (fun t => Identity.ofText t = .ok a.id) a := by
  obtain ⟨first, hfirst, rfl⟩ := hrow
  obtain ⟨events, hreplay, hmem⟩ := h.rows
  refine ⟨events, hreplay, fun e => (hmem e).trans ⟨?_, ?_⟩⟩
  · rintro ⟨row, hleads, htext, hdecoded⟩
    exact ⟨row, hleads, htext ▸ h.id, hdecoded⟩
  · rintro ⟨row, hleads, hid, hdecoded⟩
    have htrim := (ofText_eq_iff h.id).mp hid
    exact ⟨row, hleads, (halike first hfirst row hleads htrim).symm, hdecoded⟩

/-- A load gives one aggregate for each text that its rows have for an aggregate, with the rows that
have this very text; it leaves out deleted ones unless it is told otherwise. So if no identity is
written in two ways, no aggregate is given twice, and each has all rows of its identity. If it
includes deleted ones, no aggregate is given twice only then. -/
theorem aggregates_by_text (m : Mapping S P) (options : LoadOptions) (rows : List EventRow)
    (l : List (Aggregate S P)) (h : m.aggregatesOfRows options rows = .ok l) :
    (∃ texts : List String, texts.Nodup ∧ List.Forall₂ (m.RebuiltAs options rows) texts l ∧
      (∀ text ∈ texts, ∃ row, m.Leads options rows row ∧ row.aggregateId = text) ∧
      ∀ row, m.Leads options rows row → row.aggregateId ∈ texts ∨
        ∃ a, m.RebuiltAs options rows row.aggregateId a ∧ a.isDeleted ∧ !options.includeDeleted) ∧
    (m.WrittenAlike options rows → (l.map (·.id)).Nodup ∧
      ∀ a ∈ l, m.HasRows options rows (fun text => Identity.ofText text = .ok a.id) a) ∧
    (options.includeDeleted → (l.map (·.id)).Nodup → m.WrittenAlike options rows) := by
  obtain ⟨texts, htexts, hall, hrow, hrest⟩ := forall₂_rebuiltAs h
  refine ⟨⟨texts, htexts, hall, hrow, hrest⟩, fun halike => ⟨?_, fun a ha => ?_⟩, ?_⟩
  · refine (nodup_ids_iff htexts hall).mpr fun s hs t ht htrim => ?_
    obtain ⟨row, hleads, rfl⟩ := hrow s hs
    obtain ⟨row', hleads', rfl⟩ := hrow t ht
    exact halike row hleads row' hleads' htrim
  · obtain ⟨text, htext, hrebuilt⟩ := exists_of_forall₂ hall a ha
    exact hrebuilt.hasRows halike (hrow text htext)
  · intro hdeleted hnodup row hleads row' hleads' htrim
    have hmem : ∀ row, m.Leads options rows row → row.aggregateId ∈ texts := by
      intro row hleads
      refine (hrest row hleads).resolve_right ?_
      rintro ⟨a, -, -, hexcluded⟩
      simp [hdeleted] at hexcluded
    exact (nodup_ids_iff htexts hall).mp hnodup _ (hmem row hleads) _ (hmem row' hleads') htrim

open Accounts

/-- A row as a column of a fixed width gives it back, with a blank behind its aggregate. -/
def paddedRow (row : EventRow) : EventRow := { row with aggregateId := row.aggregateId ++ " " }

/-- The account of Ann is opened at version 1, and there is a deposit at version 2. -/
def annsEntries : List (RecordedEvent AccountEvent) :=
  [⟨⟨1⟩, Life.annsId, 1, .system, .epoch, .none, .opened "Ann" 5⟩,
   ⟨⟨2⟩, Life.annsId, 2, .system, .epoch, .none, .moneyDeposited 3⟩]

/-- The row of the deposit. -/
def secondEntry : EventRow :=
  annsLedger.rowOf ⟨⟨2⟩, Life.annsId, 2, .system, .epoch, .none, .moneyDeposited 3⟩

/-- The account with both. -/
def annsDeposit : Aggregate Account AccountEvent :=
  ⟨Life.annsId, 2, true, false, [],
    { owner := "Ann", balance := 8, trail := ["Opened@1", "MoneyDeposited@2"] }⟩

theorem replay_annsEntries :
    Aggregate.replay Account.blueprint Life.annsId (annsEntries.map (·.event)) =
      .ok annsDeposit := by
  have hcreate : Account.blueprint.create Life.annsId = some {} := by decide
  have howner : ∀ e ∈ annsEntries.map (·.event), e.aggregateId = some Life.annsId := by decide
  have hincreasing : (annsEntries.map (·.event)).Pairwise
      fun e f => e.versionNumber < f.versionNumber := by decide
  have hresult : (annsEntries.map (·.event)).foldl (Aggregate.advance Account.blueprint)
      (Aggregate.fresh Life.annsId {}) = annsDeposit := by decide +kernel
  rw [← hresult]
  exact Aggregate.replay_of_perm hcreate (List.Perm.refl _)
    (Aggregate.follows_fresh howner hincreasing)

/-- Rows of one text give the account if they are decoded to its two events. -/
theorem aggregatesOfRows_annsDeposit (id : String)
    (hid : (Identity.ofText id : Except IdentityError AggregateId) = .ok Life.annsId)
    (hids : ((annsLedger.replayed options rows).map (·.aggregateId)).eraseDups = [id])
    (hrows : (ofAggregate id (annsLedger.replayed options rows)).mapM annsLedger.ofRow =
      .ok (annsEntries.map (·.event))) :
    annsLedger.aggregatesOfRows options rows = .ok [annsDeposit] := by
  have hrebuilt : annsLedger.rebuildRows id (ofAggregate id (annsLedger.replayed options rows)) =
      .ok annsDeposit := except_bind_eq_ok_iff.mpr
    ⟨_, hrows, rebuild_eq_ok_iff.mpr ⟨Life.annsId, hid, replay_annsEntries⟩⟩
  refine aggregatesOfRows_eq_ok_iff.mpr ⟨[annsDeposit], ?_, rfl⟩
  rw [hids]
  exact mapM_of_forall₂ (.cons hrebuilt .nil)

/-- If both rows are padded, the account has both. -/
theorem padded_account_is_one :
    let options : LoadOptions := { includeDeleted := true }
    let rows := [paddedRow openingRow, paddedRow secondEntry]
    annsLedger.aggregatesOfRows options rows = .ok [annsDeposit] ∧
      annsLedger.WrittenAlike options rows ∧
      annsLedger.HasRows options rows (fun text => Identity.ofText text = .ok Life.annsId)
        annsDeposit := by
  intro options rows
  have hload : annsLedger.aggregatesOfRows options rows = .ok [annsDeposit] :=
    aggregatesOfRows_annsDeposit "ann " (by decide) (by decide) (by decide +kernel)
  obtain ⟨-, halone, honly⟩ := aggregates_by_text annsLedger options rows [annsDeposit] hload
  have halike : annsLedger.WrittenAlike options rows := honly rfl (List.nodup_singleton _)
  exact ⟨hload, halike, (halone halike).2 annsDeposit (List.mem_singleton_self _)⟩

/-- If one of the two rows is padded, the load gives two accounts of one identity. -/
theorem padded_deposit_is_apart :
    let options : LoadOptions := { includeDeleted := true }
    let opened : Aggregate Account AccountEvent :=
      ⟨Life.annsId, 1, true, false, [], { owner := "Ann", balance := 5, trail := ["Opened@1"] }⟩
    let deposited : Aggregate Account AccountEvent :=
      ⟨Life.annsId, 2, true, false, [], { balance := 3, trail := ["MoneyDeposited@2"] }⟩
    annsLedger.aggregatesOfRows options [openingRow, paddedRow secondEntry] =
        .ok [opened, deposited] ∧
      opened.id = deposited.id ∧
      annsLedger.aggregatesOfRows options [openingRow, secondEntry] = .ok [annsDeposit] := by
  refine ⟨by decide +kernel, rfl, ?_⟩
  exact aggregatesOfRows_annsDeposit "ann" (by decide) (by decide) (by decide +kernel)

end Mapping

end EventStore
