import EventStore.Proofs.Dispatch
import EventStore.Proofs.Loading

/-!
# Aggregates of mixed rows

Proved here, for rows of any number of aggregates, in any order and with any repetitions:

* `grouped_eq`: events are grouped by the first occurrences of their keys, and keep their order;
* `aggregatesOfRows_eq_ok_iff`: the aggregates of rows are those of the groups, in the order of the
  first rows, if each group gives one;
* `rebuildRows_of_perm`: the rows of a group may be given in any order;
* `aggregatesOfRows_fails_iff`, `of_aggregatesOfRows`: so from a read that has the rows of some
  aggregates, in any order and number, those aggregates are rebuilt, each once.
-/

namespace EventStore

/-! ## Replays in any order -/

theorem Aggregate.replay_eq_of_perm {S P : Type} {b : Blueprint S P} {id : AggregateId}
    {events events' : List (DomainEvent P)} {a : Aggregate S P} (hperm : events'.Perm events)
    (h : replay b id events = .ok a) : replay b id events' = .ok a := by
  obtain ⟨state, hcreate, hfollows, rfl⟩ := replay_eq_ok_iff.mp h
  exact replay_of_perm hcreate (hperm.trans (sortByVersion_perm events).symm) hfollows

namespace Mapping

variable {S P : Type} {m : Mapping S P} {options : LoadOptions} {rows rows' : List EventRow}

/-! ## One aggregate -/

/-- The aggregate that rows are replayed to, all of which are decoded first. -/
def rebuildRows (m : Mapping S P) (id : String) (rows : List EventRow) :
    Except RepositoryError (Aggregate S P) :=
  rows.mapM m.ofRow >>= m.rebuild id

/-- Whether a load gives an aggregate that it has replayed. -/
def keeps (options : LoadOptions) (a : Aggregate S P) : Bool :=
  !a.isDeleted || options.includeDeleted

theorem rebuild_eq_ok_iff {id : String} {events : List (DomainEvent P)} {a : Aggregate S P} :
    m.rebuild id events = .ok a ↔ ∃ i : AggregateId, Identity.ofText id = .ok i ∧
      Aggregate.replay m.blueprint i events = .ok a := by
  unfold rebuild
  cases (Identity.ofText id : Except IdentityError AggregateId) with
  | error e => simp
  | ok i => cases hreplay : Aggregate.replay m.blueprint i events <;> simp [hreplay]

theorem rebuildRows_of_perm {id : String} {a : Aggregate S P} (hperm : rows.Perm rows')
    (h : m.rebuildRows id rows = .ok a) : m.rebuildRows id rows' = .ok a := by
  obtain ⟨events, hevents, hrebuild⟩ := except_bind_eq_ok_iff.mp h
  obtain ⟨i, hid, hreplay⟩ := rebuild_eq_ok_iff.mp hrebuild
  obtain ⟨events', hevents', hperm'⟩ := exists_mapM_of_perm hperm hevents
  refine except_bind_eq_ok_iff.mpr ⟨events', hevents', rebuild_eq_ok_iff.mpr ⟨i, hid, ?_⟩⟩
  exact Aggregate.replay_eq_of_perm hperm' hreplay

theorem text_of_ofText {kind : IdentityKind} {s : String} {i : Identity kind}
    (h : Identity.ofText s = .ok i) : i.text = Text.trim s := by
  simp only [Identity.ofText] at h
  split at h
  · cases h
  · split at h
    · rw [← Except.ok.inj h]
    · cases h

theorem id_of_rebuildRows {id : String} {a : Aggregate S P} (h : m.rebuildRows id rows = .ok a) :
    a.id.text = Text.trim id := by
  obtain ⟨events, -, hrebuild⟩ := except_bind_eq_ok_iff.mp h
  obtain ⟨i, hid, hreplay⟩ := rebuild_eq_ok_iff.mp hrebuild
  obtain ⟨state, -, -, rfl⟩ := Aggregate.replay_eq_ok_iff.mp hreplay
  rw [Aggregate.foldl_advance_id]
  exact text_of_ofText hid

/-! ## Groups -/

theorem addToGroup_map {f : String → List (DomainEvent P)} {ids : List String} (id : String)
    (e : DomainEvent P) (hids : ids.Nodup) (hnew : id ∉ ids → f id = []) :
    addToGroup id e (ids.map fun k => (k, f k)) =
      (if id ∈ ids then ids else ids ++ [id]).map fun k =>
        (k, if k = id then f k ++ [e] else f k) := by
  induction ids with
  | nil => simp [addToGroup, hnew]
  | cons k ids ih =>
    obtain ⟨hk, hids⟩ := List.nodup_cons.mp hids
    by_cases heq : id = k
    · subst heq
      have hrest : ids.map (fun k => (k, f k)) =
          ids.map fun k => (k, if k = id then f k ++ [e] else f k) := by
        refine List.map_congr_left fun k' hk' => ?_
        rw [if_neg (by rintro rfl; exact hk hk')]
      simp [addToGroup, hrest]
    · have hrest := ih hids fun hmem => hnew (by simp [heq, hmem])
      have hne : k ≠ id := fun h => heq h.symm
      rw [List.map_cons, addToGroup, if_neg heq, hrest]
      by_cases hmem : id ∈ ids <;> simp [heq, hne, hmem]

/-- Events are grouped by the first occurrences of their keys, and keep their order. -/
theorem grouped_eq (l : List (String × DomainEvent P)) :
    grouped l = (l.map (·.1)).eraseDups.map fun id =>
      (id, (l.filter (·.1 = id)).map (·.2)) := by
  induction l using List.reverseRecOn with
  | nil => rfl
  | append_singleton l x ih =>
    obtain ⟨id, e⟩ := x
    have hfold : grouped (l ++ [(id, e)]) = addToGroup id e (grouped l) := by
      simp [grouped, List.foldl_append]
    have hnew : id ∉ (l.map (·.1)).eraseDups →
        (l.filter fun p => p.1 = id).map (·.2) = [] := by
      intro hid
      have hnone : l.filter (fun p => p.1 = id) = [] := by
        refine List.filter_eq_nil_iff.mpr fun p hp hpid => hid ?_
        rw [List.mem_eraseDups]
        exact List.mem_map.mpr ⟨p, hp, by simpa using hpid⟩
      rw [hnone, List.map_nil]
    rw [hfold, ih, addToGroup_map id e (nodup_eraseDups _) hnew, List.map_append, List.map_cons,
      List.map_nil, eraseDups_concat]
    simp only [List.mem_eraseDups]
    refine List.map_congr_left fun k _ => ?_
    by_cases hk : k = id
    · simp [hk]
    · have hk' : id ≠ k := fun h => hk h.symm
      simp [hk, hk']

/-! ## First occurrences of event ids -/

theorem firstOccurrences_sublist (seen : List Uuid) (rows : List EventRow) :
    (firstOccurrences seen rows).Sublist rows := by
  induction rows generalizing seen with
  | nil => exact List.Sublist.refl _
  | cons r l ih =>
    rw [firstOccurrences]
    split
    · exact (ih seen).cons r
    · exact (ih _).cons_cons r

theorem eventId_firstOccurrences (seen : List Uuid) (rows : List EventRow) :
    ((firstOccurrences seen rows).map (·.eventId)).Nodup ∧
      ∀ id, id ∈ (firstOccurrences seen rows).map (·.eventId) ↔
        id ∈ rows.map (·.eventId) ∧ id ∉ seen := by
  induction rows generalizing seen with
  | nil => simp [firstOccurrences]
  | cons r l ih =>
    rw [firstOccurrences]
    split
    · rename_i hseen
      refine ⟨(ih seen).1, fun id => ?_⟩
      rw [(ih seen).2, List.map_cons, List.mem_cons]
      constructor
      · rintro ⟨hid, hnot⟩
        exact ⟨Or.inr hid, hnot⟩
      · rintro ⟨rfl | hid, hnot⟩
        · exact absurd hseen hnot
        · exact ⟨hid, hnot⟩
    · rename_i hseen
      obtain ⟨hnodup, hmem⟩ := ih (r.eventId :: seen)
      rw [List.map_cons]
      refine ⟨List.nodup_cons.mpr ⟨fun hid => ?_, hnodup⟩, fun id => ?_⟩
      · exact ((hmem _).mp hid).2 List.mem_cons_self
      · rw [List.mem_cons, hmem, List.map_cons, List.mem_cons, List.mem_cons]
        constructor
        · rintro (rfl | ⟨hid, hnot⟩)
          · exact ⟨Or.inl rfl, hseen⟩
          · exact ⟨Or.inr hid, fun h => hnot (Or.inr h)⟩
        · rintro ⟨rfl | hid, hnot⟩
          · exact Or.inl rfl
          · by_cases heq : id = r.eventId
            · exact Or.inl heq
            · exact Or.inr ⟨hid, by simp [heq, hnot]⟩

/-- Of rows that are the same if their event ids are, each occurs once. -/
theorem mem_firstOccurrences
    (hsame : ∀ r ∈ rows, ∀ r' ∈ rows, r.eventId = r'.eventId → r = r') {r : EventRow} :
    r ∈ firstOccurrences [] rows ↔ r ∈ rows := by
  refine ⟨fun hr => (firstOccurrences_sublist [] rows).subset hr, fun hr => ?_⟩
  obtain ⟨-, hmem⟩ := eventId_firstOccurrences [] rows
  obtain ⟨r', hr', hid⟩ := List.mem_map.mp
    ((hmem r.eventId).mpr ⟨List.mem_map_of_mem hr, List.not_mem_nil⟩)
  have heq := hsame r' ((firstOccurrences_sublist [] rows).subset hr') r hr hid
  exact heq ▸ hr'

/-! ## All aggregates -/

/-- The rows that are replayed: those that are selected, and of those with one event id the first. -/
def replayed (m : Mapping S P) (options : LoadOptions) (rows : List EventRow) : List EventRow :=
  firstOccurrences [] (rows.filter (m.selects options))

/-- The rows of an aggregate. -/
def ofAggregate (id : String) (rows : List EventRow) : List EventRow :=
  rows.filter (·.aggregateId = id)

theorem nodup_ofAggregate_replayed (id : String) :
    (ofAggregate id (m.replayed options rows)).Nodup := by
  refine List.Nodup.of_map (·.eventId) ?_
  exact (eventId_firstOccurrences [] _).1.sublist (List.filter_sublist.map _)

theorem ofAggregate_events {keyed : List (String × DomainEvent P)}
    (h : (rows.mapM fun row => (m.ofRow row).map (row.aggregateId, ·)) = .ok keyed) (id : String) :
    (ofAggregate id rows).mapM m.ofRow = .ok ((keyed.filter (·.1 = id)).map (·.2)) := by
  have hfilter := mapM_filter (p := fun r => r.aggregateId = id)
    (q := fun p : String × DomainEvent P => p.1 = id) (fun r _ p hp => by
      obtain ⟨e, -, rfl⟩ := except_map_eq_ok_iff.mp hp
      rfl) h
  have hall := forall₂_of_mapM hfilter
  refine mapM_of_forall₂ (List.forall₂_map_right_iff.mpr (hall.imp fun r p hp => ?_))
  obtain ⟨e, he, rfl⟩ := except_map_eq_ok_iff.mp hp
  exact he

theorem mapM_grouped {keyed : List (String × DomainEvent P)}
    (h : (rows.mapM fun row => (m.ofRow row).map (row.aggregateId, ·)) = .ok keyed) :
    ((grouped keyed).mapM fun (id, events) => m.rebuild id events) =
      (rows.map (·.aggregateId)).eraseDups.mapM fun id =>
        m.rebuildRows id (ofAggregate id rows) := by
  have hkeys : keyed.map (·.1) = rows.map (·.aggregateId) :=
    map_eq_map_of_mapM (fun r _ p hp => by
      obtain ⟨e, -, rfl⟩ := except_map_eq_ok_iff.mp hp
      rfl) h
  have hgroup : ∀ id, m.rebuildRows id (ofAggregate id rows) =
      m.rebuild id ((keyed.filter (·.1 = id)).map (·.2)) := fun id => by
    simp only [rebuildRows, ofAggregate_events h, bind, Except.bind]
  simp only [grouped_eq, hkeys, List.mapM_map, hgroup, Function.comp_def]

/-- The aggregates of rows are those of the groups, in the order of the first rows. -/
theorem aggregatesOfRows_eq_ok_iff {l : List (Aggregate S P)} :
    m.aggregatesOfRows options rows = .ok l ↔
      ∃ as, ((m.replayed options rows).map (·.aggregateId)).eraseDups.mapM (fun id =>
          m.rebuildRows id (ofAggregate id (m.replayed options rows))) = .ok as ∧
        l = as.filter (keeps options) := by
  constructor
  · intro h
    obtain ⟨keyed, hkeyed, h⟩ := except_bind_eq_ok_iff.mp h
    obtain ⟨as, has, h⟩ := except_bind_eq_ok_iff.mp h
    exact ⟨as, mapM_grouped hkeyed ▸ has, (Except.ok.inj h).symm⟩
  · rintro ⟨as, has, rfl⟩
    -- every row is in a group, so all of them can be decoded
    have hdecodes : ∀ r ∈ m.replayed options rows,
        ∃ p, (m.ofRow r).map (r.aggregateId, ·) = .ok p := by
      intro r hr
      have hid : r.aggregateId ∈ ((m.replayed options rows).map (·.aggregateId)).eraseDups :=
        List.mem_eraseDups.mpr (List.mem_map_of_mem hr)
      obtain ⟨a, ha⟩ := exists_mapM_iff.mp ⟨as, has⟩ _ hid
      obtain ⟨events, hevents, -⟩ := except_bind_eq_ok_iff.mp ha
      obtain ⟨e, he⟩ := exists_mapM_iff.mp ⟨events, hevents⟩ r
        (List.mem_filter.mpr ⟨hr, by simp⟩)
      exact ⟨_, except_map_eq_ok_iff.mpr ⟨e, he, rfl⟩⟩
    obtain ⟨keyed, hkeyed⟩ := exists_mapM_iff.mpr hdecodes
    refine except_bind_eq_ok_iff.mpr ⟨keyed, hkeyed, ?_⟩
    refine except_bind_eq_ok_iff.mpr ⟨as, (mapM_grouped hkeyed).trans has, rfl⟩

/-! ## Reads -/

/-- The rows of an aggregate up to the ceiling of a load. -/
def rowsUpTo (m : Mapping S P) (options : LoadOptions) (id : String) (rows : List EventRow) :
    List EventRow :=
  ofAggregate id (rows.filter (m.selects options))

/-- Of the rows that a load selects, a read has those of some aggregates, in any order and number. -/
def Finds (m : Mapping S P) (options : LoadOptions) (found : String → Prop)
    (rows read : List EventRow) : Prop :=
  ∀ row, m.selects options row → (row ∈ read ↔ row ∈ rows ∧ found row.aggregateId)

section Finds

variable {found : String → Prop} {read : List EventRow} (hread : m.Finds options found rows read)
  (hids : (rows.map (·.eventId)).Nodup)

include hread hids

theorem mem_replayed {row : EventRow} : row ∈ m.replayed options read ↔
    m.selects options row ∧ row ∈ rows ∧ found row.aggregateId := by
  -- a row may be read many times, but no other row has its event id
  have hsame : ∀ row ∈ read.filter (m.selects options), ∀ row' ∈ read.filter (m.selects options),
      row.eventId = row'.eventId → row = row' := by
    intro row hrow row' hrow' heq
    obtain ⟨hrow, hselects⟩ := List.mem_filter.mp hrow
    obtain ⟨hrow', hselects'⟩ := List.mem_filter.mp hrow'
    exact List.inj_on_of_nodup_map hids ((hread row hselects).mp hrow).1
      ((hread row' hselects').mp hrow').1 heq
  rw [replayed, mem_firstOccurrences hsame, List.mem_filter, and_comm]
  exact and_congr_right (hread row)

/-- Of each aggregate that is found the rows are read, each once. -/
theorem ofAggregate_replayed {id : String} (hid : found id) :
    (ofAggregate id (m.replayed options read)).Perm (m.rowsUpTo options id rows) := by
  have hnodup : (m.rowsUpTo options id rows).Nodup := ((hids.of_map _).filter _).filter _
  refine (List.perm_ext_iff_of_nodup (nodup_ofAggregate_replayed id) hnodup).mpr fun row => ?_
  rw [rowsUpTo, ofAggregate, ofAggregate, List.mem_filter, mem_replayed hread hids, List.mem_filter,
    List.mem_filter]
  constructor
  · rintro ⟨⟨hselects, hrow, -⟩, heq⟩
    exact ⟨⟨hrow, hselects⟩, heq⟩
  · rintro ⟨⟨hrow, hselects⟩, heq⟩
    have hid' : row.aggregateId = id := by simpa using heq
    exact ⟨⟨hselects, hrow, hid' ▸ hid⟩, heq⟩

theorem mem_aggregateId_replayed {id : String} :
    id ∈ ((m.replayed options read).map (·.aggregateId)).eraseDups ↔
      found id ∧ m.rowsUpTo options id rows ≠ [] := by
  rw [List.mem_eraseDups]
  constructor
  · intro hid
    obtain ⟨row, hrow, rfl⟩ := List.mem_map.mp hid
    obtain ⟨hselects, hrow, hfound⟩ := (mem_replayed hread hids).mp hrow
    have hmem : row ∈ m.rowsUpTo options row.aggregateId rows :=
      List.mem_filter.mpr ⟨List.mem_filter.mpr ⟨hrow, hselects⟩, by simp⟩
    exact ⟨hfound, List.ne_nil_of_mem hmem⟩
  · rintro ⟨hfound, hne⟩
    obtain ⟨row, hrow⟩ := List.exists_mem_of_ne_nil _ hne
    have hmem := (ofAggregate_replayed hread hids hfound).mem_iff.mpr hrow
    obtain ⟨hmem, hid⟩ := List.mem_filter.mp hmem
    exact List.mem_map.mpr ⟨row, hmem, by simpa using hid⟩

theorem rebuildRows_replayed {id : String} (hid : found id) {a : Aggregate S P} :
    m.rebuildRows id (ofAggregate id (m.replayed options read)) = .ok a ↔
      m.rebuildRows id (m.rowsUpTo options id rows) = .ok a := by
  have hperm := ofAggregate_replayed hread hids hid
  exact ⟨rebuildRows_of_perm hperm, rebuildRows_of_perm hperm.symm⟩

/-- The aggregates of a read cannot be rebuilt if one of them cannot. -/
theorem aggregatesOfRows_fails_iff :
    (∃ e, m.aggregatesOfRows options read = .error e) ↔
      ∃ id, (found id ∧ m.rowsUpTo options id rows ≠ []) ∧
        ∃ e, m.rebuildRows id (m.rowsUpTo options id rows) = .error e := by
  have hok : (∃ l, m.aggregatesOfRows options read = .ok l) ↔
      ∀ id, found id ∧ m.rowsUpTo options id rows ≠ [] →
        ∃ a, m.rebuildRows id (m.rowsUpTo options id rows) = .ok a := by
    simp only [aggregatesOfRows_eq_ok_iff]
    constructor
    · rintro ⟨-, as, has, -⟩ id hid
      obtain ⟨a, ha⟩ :=
        exists_mapM_iff.mp ⟨as, has⟩ id ((mem_aggregateId_replayed hread hids).mpr hid)
      exact ⟨a, (rebuildRows_replayed hread hids hid.1).mp ha⟩
    · intro hall
      obtain ⟨as, has⟩ := exists_mapM_iff.mpr fun id hid => by
        have hid := (mem_aggregateId_replayed hread hids).mp hid
        obtain ⟨a, ha⟩ := hall id hid
        exact ⟨a, (rebuildRows_replayed hread hids hid.1).mpr ha⟩
      exact ⟨_, as, has, rfl⟩
  rw [exists_error_iff, hok]
  simp only [exists_error_iff, not_forall, exists_prop]

theorem of_aggregatesOfRows {l : List (Aggregate S P)}
    (htrim : ∀ row ∈ rows, Text.trim row.aggregateId = row.aggregateId)
    (h : m.aggregatesOfRows options read = .ok l) :
    (l.map (·.id.text)).Nodup ∧ (l.map (·.id.text)).Sublist (read.map (·.aggregateId)) ∧
      ∀ a, a ∈ l ↔ (found a.id.text ∧ m.rowsUpTo options a.id.text rows ≠ []) ∧
        m.rebuildRows a.id.text (m.rowsUpTo options a.id.text rows) = .ok a ∧ keeps options a := by
  obtain ⟨as, has, rfl⟩ := aggregatesOfRows_eq_ok_iff.mp h
  have htext : ∀ id ∈ ((m.replayed options read).map (·.aggregateId)).eraseDups,
      ∀ a, m.rebuildRows id (ofAggregate id (m.replayed options read)) = .ok a →
      a.id.text = id := by
    intro id hid a ha
    obtain ⟨row, hrow, rfl⟩ := List.mem_map.mp (List.mem_eraseDups.mp hid)
    rw [id_of_rebuildRows ha, htrim row ((mem_replayed hread hids).mp hrow).2.1]
  have htexts := (map_eq_map_of_mapM (k := id) htext has).trans (List.map_id _)
  have hsublist : ((as.filter (keeps options)).map (·.id.text)).Sublist
      ((m.replayed options read).map (·.aggregateId)).eraseDups :=
    htexts ▸ List.filter_sublist.map _
  refine ⟨(nodup_eraseDups _).sublist hsublist, ?_, fun a => ?_⟩
  · have hreplayed := (firstOccurrences_sublist [] (read.filter (m.selects options))).trans
      List.filter_sublist
    exact hsublist.trans ((eraseDups_sublist _).trans (hreplayed.map _))
  · rw [List.mem_filter, mem_of_mapM has, ← and_assoc]
    refine and_congr_left fun _ => ⟨?_, fun ⟨hid, ha⟩ => ?_⟩
    · rintro ⟨id, hid, ha⟩
      obtain rfl := htext id hid a ha
      have hid := (mem_aggregateId_replayed hread hids).mp hid
      exact ⟨hid, (rebuildRows_replayed hread hids hid.1).mp ha⟩
    · exact ⟨_, (mem_aggregateId_replayed hread hids).mpr hid,
        (rebuildRows_replayed hread hids hid.1).mpr ha⟩

end Finds

end Mapping

end EventStore
