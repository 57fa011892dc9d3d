import EventStore.Proofs.MemoryRuns

/-!
# What a memory accepts

A row of a batch replays a stored one if its event id is stored, in the slot of the row. Any other
row has to bring an event id and a slot that are free. Both can be told from the rows that are
stored and from the batch alone, whatever the order of its rows.

Proved here:

* `fits_iff_acceptable`: a batch fits exactly if each of its rows is a replay or brings what is free;
* `Acceptable.of_perm`: the order of the rows does not matter;
* `Holds.append_of_replays`: a batch of replays changes nothing;
* `append_exact`: so after any uses of a memory an append is accepted if the batch is acceptable, and
  then stores the rows that are no replays.
-/

namespace EventStore

/-- A row whose event id is stored in the slot of the row. -/
def Replays (rows : List EventRow) (r : EventRow) : Prop :=
  ∃ r' ∈ rows, r'.eventId = r.eventId ∧ r'.slot = r.slot

instance (rows : List EventRow) (r : EventRow) : Decidable (Replays rows r) :=
  inferInstanceAs (Decidable (∃ r' ∈ rows, _))

/-- The rows of a batch that are no replays, in the order of the batch. -/
def arriving (rows l : List EventRow) : List EventRow := l.filter fun r => ¬ Replays rows r

/-- A row of a batch whose event id is not stored, and whose slot is neither taken by a stored row
nor by another row of the batch that is no replay. -/
structure Arrives (rows l : List EventRow) (r : EventRow) : Prop where
  id : r.eventId ∉ rows.map (·.eventId)
  free : r.slot ∉ rows.map (·.slot)
  alone : ∀ r' ∈ l, r' ≠ r → ¬ Replays rows r' → r'.slot ≠ r.slot

/-- A batch without repeated event ids, each of whose rows is a replay or brings what is free. -/
structure Acceptable (rows l : List EventRow) : Prop where
  ids : (l.map (·.eventId)).Nodup
  each : ∀ r ∈ l, Replays rows r ∨ Arrives rows l r

variable {rows l l' : List EventRow} {r : EventRow}

/-! ## Replays -/

theorem Replays.eventId_mem (h : Replays rows r) : r.eventId ∈ rows.map (·.eventId) := by
  obtain ⟨r', hr', hid, -⟩ := h
  exact hid ▸ List.mem_map_of_mem hr'

/-- A stored event id makes a row a replay, unless it is stored in another slot. -/
theorem replays_of_mem (howned : ∀ r' ∈ rows, r'.eventId = r.eventId → r'.slot = r.slot)
    (h : r.eventId ∈ rows.map (·.eventId)) : Replays rows r := by
  obtain ⟨r', hr', hid⟩ := List.mem_map.mp h
  exact ⟨r', hr', hid, howned r' hr' hid⟩

theorem Fits.replays_iff (h : Fits rows l) (hr : r ∈ l) :
    Replays rows r ↔ r.eventId ∈ rows.map (·.eventId) :=
  ⟨Replays.eventId_mem, replays_of_mem (h.owned r hr)⟩

theorem Fits.newRows_eq (h : Fits rows l) : newRows rows l = arriving rows l :=
  List.filter_congr fun r hr => by simp only [h.replays_iff hr]

/-! ## Batches that fit -/

theorem Fits.acceptable (h : Fits rows l) : Acceptable rows l where
  ids := h.ids
  each := by
    intro r hr
    by_cases hreplay : Replays rows r
    · exact Or.inl hreplay
    · have hnew : r ∈ newRows rows l :=
        mem_newRows.mpr ⟨hr, fun hid => hreplay ((h.replays_iff hr).mpr hid)⟩
      refine Or.inr ⟨(mem_newRows.mp hnew).2, h.free r hnew, fun r' hr' hne hother heq => hne ?_⟩
      have hnew' : r' ∈ newRows rows l :=
        mem_newRows.mpr ⟨hr', fun hid => hother ((h.replays_iff hr').mpr hid)⟩
      exact List.inj_on_of_nodup_map h.slots hnew' hnew heq

theorem Acceptable.fits (hrows : Unique rows) (h : Acceptable rows l) : Fits rows l := by
  have howned : ∀ r ∈ l, ∀ r' ∈ rows, r'.eventId = r.eventId → r'.slot = r.slot := by
    intro r hr r' hr' hid
    rcases h.each r hr with ⟨r₁, hr₁, hid₁, hslot⟩ | harrives
    · rwa [List.inj_on_of_nodup_map hrows.ids hr' hr₁ (hid.trans hid₁.symm)]
    · exact absurd (hid ▸ List.mem_map_of_mem hr') harrives.id
  have harrives : ∀ r ∈ newRows rows l, Arrives rows l r := by
    intro r hr
    obtain ⟨hr, hid⟩ := mem_newRows.mp hr
    exact (h.each r hr).resolve_left fun hreplay => hid hreplay.eventId_mem
  refine ⟨h.ids, howned, fun r hr => (harrives r hr).free, ?_⟩
  -- two new rows in one slot would stand in the way of each other
  refine (List.Nodup.of_map _ (h.ids.sublist (List.filter_sublist.map _))).map_on ?_
  intro r hr r' hr' heq
  by_contra hne
  obtain ⟨hmem, hid⟩ := mem_newRows.mp hr
  exact (harrives r' hr').alone r hmem hne (fun hreplay => hid hreplay.eventId_mem) heq

theorem fits_iff_acceptable (hrows : Unique rows) : Fits rows l ↔ Acceptable rows l :=
  ⟨Fits.acceptable, Acceptable.fits hrows⟩

theorem Acceptable.of_perm (h : Acceptable rows l) (hperm : l.Perm l') : Acceptable rows l' where
  ids := (hperm.map _).nodup h.ids
  each := by
    intro r hr
    refine (h.each r (hperm.mem_iff.mpr hr)).imp_right fun harrives => ?_
    exact ⟨harrives.id, harrives.free, fun r' hr' => harrives.alone r' (hperm.mem_iff.mpr hr')⟩

/-! ## Batches of replays -/

theorem arriving_eq_nil (h : ∀ r ∈ l, Replays rows r) : arriving rows l = [] :=
  List.filter_eq_nil_iff.mpr fun r hr => by simpa using h r hr

/-- Once its batch is stored, each row is a replay. -/
theorem replays_append_arriving (hr : r ∈ l) : Replays (rows ++ arriving rows l) r := by
  by_cases hreplay : Replays rows r
  · obtain ⟨r', hr', hsame⟩ := hreplay
    exact ⟨r', List.mem_append_left _ hr', hsame⟩
  · exact ⟨r, List.mem_append_right _ (List.mem_filter.mpr ⟨hr, by simpa using hreplay⟩), rfl, rfl⟩

namespace MemoryStore

variable {s s' : MemoryStore}

/-- A batch of replays is accepted and changes nothing. -/
theorem Holds.append_of_replays (h : s.Holds rows) (hids : (l.map (·.eventId)).Nodup)
    (hl : ∀ r ∈ l, Replays rows r) : s.append l = .ok s := by
  have hfits := Acceptable.fits h.unique ⟨hids, fun r hr => Or.inl (hl r hr)⟩
  have hnone : newRows rows l = [] := hfits.newRows_eq.trans (arriving_eq_nil hl)
  obtain ⟨log, hkeeps, rfl⟩ := h
  have hunstored : s.unstored l = .ok [] := hkeeps.unstored_eq_ok_iff.mpr ⟨hfits, hnone.symm⟩
  rw [append, hunstored]
  rfl

theorem storage_append_eq_ok_iff : storage.append l s = (.ok (), s') ↔ s.append l = .ok s' := by
  refine ⟨fun h => ?_, storage_append_of_ok⟩
  cases happend : s.append l with
  | ok s₁ =>
    rw [storage_append_of_ok happend] at h
    exact congrArg Except.ok (congrArg Prod.snd h)
  | error e =>
    rw [storage_append_of_error happend] at h
    cases h

theorem eq_of_storage_append_error {e : StorageError} (h : storage.append l s = (.error e, s')) :
    s' = s := by
  cases happend : s.append l with
  | ok s₁ =>
    rw [storage_append_of_ok happend] at h
    cases h
  | error e' =>
    rw [storage_append_of_error happend] at h
    exact (congrArg Prod.snd h).symm

/-- A memory accepts the batches that are acceptable and no others. -/
theorem Holds.exists_append_iff (h : s.Holds rows) :
    (∃ s', storage.append l s = (.ok (), s')) ↔ Acceptable rows l := by
  simp only [storage_append_eq_ok_iff, ← fits_iff_acceptable h.unique]
  constructor
  · rintro ⟨s', happend⟩
    exact (h.of_append_eq_ok happend).1
  · intro hfits
    obtain ⟨s', happend, -⟩ := h.append_of_fits hfits
    exact ⟨s', happend⟩

/-- After any uses of a memory, an append is accepted exactly if its batch is acceptable, in
whatever order its rows come. Then the rows that are no replays come after those that are stored,
and any part of the batch may be appended again, in any order, which changes nothing. A batch that is
not accepted changes nothing. -/
theorem append_exact (uses : List Use) (l : List EventRow) :
    let s := (({} : InUse).run uses).store
    ((∃ s', storage.append l s = (.ok (), s')) ↔ Acceptable s.rows l) ∧
      (∀ e s', storage.append l s = (.error e, s') → s' = s) ∧
      (∀ s', storage.append l s = (.ok (), s') →
        s'.rows = s.rows ++ arriving s.rows l ∧
        ∀ part : List EventRow, part.Subperm l → storage.append part s' = (.ok (), s')) ∧
      ∀ l' : List EventRow, l'.Perm l →
        ((∃ s', storage.append l' s = (.ok (), s')) ↔ ∃ s', storage.append l s = (.ok (), s')) := by
  intro s
  have hs : s.Holds s.rows := InUse.holds_rows uses
  refine ⟨hs.exists_append_iff, fun e s' => eq_of_storage_append_error, fun s' happend => ?_,
    fun l' hperm => ?_⟩
  · obtain ⟨hfits, hs'⟩ := hs.of_append_eq_ok (storage_append_eq_ok_iff.mp happend)
    rw [hfits.newRows_eq] at hs'
    refine ⟨hs'.rows_eq, fun part hpart => storage_append_eq_ok_iff.mpr ?_⟩
    obtain ⟨sorted, hperm, hsublist⟩ := hpart
    have hids : (part.map (·.eventId)).Nodup :=
      (hperm.map _).nodup (hfits.ids.sublist (hsublist.map _))
    exact hs'.append_of_replays hids fun r hr =>
      replays_append_arriving (hsublist.subset (hperm.mem_iff.mpr hr))
  · rw [hs.exists_append_iff, hs.exists_append_iff]
    exact ⟨fun h => h.of_perm hperm, fun h => h.of_perm hperm.symm⟩

end MemoryStore

end EventStore
