import EventStore.Proofs.MemoryLog
import EventStore.Proofs.Runs
import EventStore.Proofs.Saving

/-!
# Loads from a memory

Proved here, for every repository over a memory:

* `ofRow_eq_ok_iff`: what the event of a row is, part by part;
* `ofRow_rowOf`: an event whose payload is read back is read back from its row;
* `versionNumber_of_ofRow`, `aggregateId_of_ofRow`: where the event of a row belongs;
* `aggregatesOfRows_eq`: rows of one aggregate, with distinct event ids, give what their replay
  gives;
* `load_eq`: so a load replays the stored rows of its aggregate, up to the ceiling, and changes
  nothing.
-/

namespace EventStore

namespace Mapping

variable {S P : Type} {m : Mapping S P}

/-! ## Events of rows -/

/-- The event of a row. Its identities are those that the texts in the row give, and its payload is
decoded from the body. -/
structure Decodes (m : Mapping S P) (row : EventRow) (e : DomainEvent P) : Prop where
  id : e.id = some row.eventId
  aggregateId : ∃ i : AggregateId, Identity.ofText row.aggregateId = .ok i ∧ e.aggregateId = some i
  version : e.version = some row.version
  actorId : Option.Rel (fun s i => Identity.ofText s = .ok i) row.actorId e.actorId
  occurredOn : e.occurredOn = some row.occurredOn
  deleteAction : DeleteAction.ofTag? row.deleteAction = some e.deleteAction
  payload : m.codec.decode row.eventType row.body = .ok e.payload

theorem rowIdentity_eq_ok_iff {kind : IdentityKind} {row : EventRow} {s : String}
    {i : Identity kind} : rowIdentity row s = .ok i ↔ Identity.ofText s = .ok i := by
  unfold rowIdentity
  cases (Identity.ofText s : Except IdentityError (Identity kind)) <;> simp

theorem ofTag_eq_ok_iff {s : String} {a : DeleteAction} :
    DeleteAction.ofTag s = .ok a ↔ DeleteAction.ofTag? s = some a := by
  unfold DeleteAction.ofTag
  cases DeleteAction.ofTag? s <;> simp

theorem ofRow_eq_ok_iff {row : EventRow} {e : DomainEvent P} :
    m.ofRow row = .ok e ↔ m.Decodes row e := by
  constructor
  · intro h
    obtain ⟨i, hid, hrest⟩ := except_bind_eq_ok_iff.mp h
    clear h
    have hid := rowIdentity_eq_ok_iff.mp hid
    simp only [bind, Except.bind, pure, Except.pure] at hrest
    -- An event comes only where nothing was at fault, with an actor or without one.
    repeat' split at hrest
    all_goals cases hrest
    · rename_i hactor _ _ haction _ _ hpayload
      exact ⟨rfl, ⟨i, hid, rfl⟩, rfl, hactor ▸ .none, rfl, ofTag_eq_ok_iff.mp haction, hpayload⟩
    · rename_i hactor _ _ hmap _ _ haction _ _ hpayload
      obtain ⟨actor, hactorId, rfl⟩ := except_map_eq_ok_iff.mp hmap
      exact ⟨rfl, ⟨i, hid, rfl⟩, rfl, hactor ▸ .some (rowIdentity_eq_ok_iff.mp hactorId), rfl,
        ofTag_eq_ok_iff.mp haction, hpayload⟩
  · obtain ⟨id, owner, version, actor, occurredOn, action, payload⟩ := e
    rintro ⟨rfl, ⟨i, hid, rfl⟩, rfl, hactor, rfl, haction, hpayload⟩
    have hid : rowIdentity row row.aggregateId = .ok i := rowIdentity_eq_ok_iff.mpr hid
    have haction := ofTag_eq_ok_iff.mpr haction
    cases hrow : row.actorId with
    | none =>
      rw [hrow] at hactor
      cases hactor
      simp [ofRow, hid, hrow, haction, hpayload, bind, Except.bind, pure, Except.pure]
    | some s =>
      rw [hrow] at hactor
      obtain ⟨hs⟩ := hactor
      simp [ofRow, hid, hrow, rowIdentity_eq_ok_iff.mpr hs, haction, hpayload, bind, Except.bind,
        pure, Except.pure, Except.map]

/-- A payload that is read back from what it is encoded as. -/
def ReadsBack (m : Mapping S P) (p : P) : Prop :=
  ∀ encoded, m.codec.encode p = .ok encoded →
    m.codec.decode encoded.eventType encoded.body = .ok p

theorem ofRow_rowOf {e : RecordedEvent P} (henc : m.Encodes e.payload)
    (hread : m.ReadsBack e.payload) : m.ofRow (m.rowOf e) = .ok e.event := by
  obtain ⟨encoded, henc⟩ := henc
  have hdecode := hread encoded henc
  have hrow : m.rowOf e = ⟨m.blueprint.name, e.aggregateId.text, encoded.eventType, encoded.body,
      e.id, some e.actorId.text, e.occurredOn, e.version, e.deleteAction.tag⟩ := by
    simp only [rowOf, henc, Except.toOption, Option.getD_some]
  rw [hrow]
  exact ofRow_eq_ok_iff.mpr ⟨rfl, ⟨e.aggregateId, e.aggregateId.ofText_text, rfl⟩, rfl,
    .some e.actorId.ofText_text, rfl, DeleteAction.ofTag?_tag _, hdecode⟩

theorem versionNumber_of_ofRow {row : EventRow} {e : DomainEvent P} (h : m.ofRow row = .ok e) :
    e.versionNumber = row.version := by
  rw [DomainEvent.versionNumber, (ofRow_eq_ok_iff.mp h).version, Option.getD_some]

/-- An event belongs to the aggregate that its row names. -/
theorem aggregateId_of_ofRow {row : EventRow} {e : DomainEvent P} (h : m.ofRow row = .ok e) :
    ∃ id : AggregateId, Identity.ofText row.aggregateId = .ok id ∧ e.aggregateId = some id :=
  (ofRow_eq_ok_iff.mp h).aggregateId

/-! ## One aggregate -/

/-- The filter of a load of one aggregate. -/
def filterOne (m : Mapping S P) (id : AggregateId) (options : LoadOptions) : EventFilter :=
  { m.filter options with aggregateIds := some [id.text] }

/-- The rows of an aggregate up to the ceiling of a load. -/
def history (m : Mapping S P) (id : AggregateId) (options : LoadOptions) (rows : List EventRow) :
    List EventRow :=
  rows.filter (m.filterOne id options).accepts

theorem accepts_filterOne_iff {id : AggregateId} {options : LoadOptions} {row : EventRow} :
    (m.filterOne id options).accepts row ↔
      row.stream = m.streamOf id ∧ ∀ version ∈ options.maxVersion, row.version ≤ version := by
  have haccepts : (m.filterOne id options).accepts row =
      (row.aggregateType = m.blueprint.name && row.aggregateId ∈ [id.text] &&
        options.maxVersion.all fun version => row.version ≤ version : Bool) := rfl
  rw [haccepts]
  cases options.maxVersion <;> simp [streamOf, EventRow.stream]

theorem selects_iff {options : LoadOptions} {row : EventRow} :
    m.selects options row ↔ row.aggregateType = m.blueprint.name ∧
      ∀ version ∈ options.maxVersion, row.version ≤ version := by
  rw [selects]
  cases options.maxVersion <;> simp

/-- Replays the rows of an aggregate; there is none without rows, or if it is deleted. -/
def replayRows (m : Mapping S P) (id : AggregateId) (options : LoadOptions)
    (rows : List EventRow) : Except RepositoryError (Option (Aggregate S P)) :=
  match rows.mapM m.ofRow with
  | .error e => .error e
  | .ok [] => .ok none
  | .ok events =>
    match Aggregate.replay m.blueprint id events with
    | .error e => .error (.aggregate e)
    | .ok a => .ok (if !a.isDeleted || options.includeDeleted then some a else none)

theorem replayRows_eq_some_iff {id : AggregateId} {options : LoadOptions} {rows : List EventRow}
    {a : Aggregate S P} :
    m.replayRows id options rows = .ok (some a) ↔
      ∃ events, rows.mapM m.ofRow = .ok events ∧ events ≠ [] ∧
        Aggregate.replay m.blueprint id events = .ok a ∧
        (!a.isDeleted || options.includeDeleted) = true := by
  unfold replayRows
  cases rows.mapM m.ofRow with
  | error e => simp
  | ok events =>
    cases events with
    | nil => simp
    | cons e l =>
      have hcons : e :: l ≠ [] := List.cons_ne_nil e l
      cases hreplay : Aggregate.replay m.blueprint id (e :: l) with
      | error x => simp [hreplay]
      | ok b =>
        simp only [Except.ok.injEq, Option.ite_none_right_eq_some, Option.some.injEq,
          exists_eq_left', hreplay, hcons, ne_eq, not_false_eq_true, true_and]
        constructor
        · rintro ⟨hkept, rfl⟩
          exact ⟨rfl, hkept⟩
        · rintro ⟨rfl, hkept⟩
          exact ⟨hkept, rfl⟩

theorem firstOccurrences_eq_self {seen : List Uuid} {rows : List EventRow}
    (h : (rows.map (·.eventId)).Nodup) (hseen : ∀ row ∈ rows, row.eventId ∉ seen) :
    firstOccurrences seen rows = rows := by
  induction rows generalizing seen with
  | nil => rfl
  | cons row l ih =>
    obtain ⟨hrow, hl⟩ := List.nodup_cons.mp h
    rw [firstOccurrences, if_neg (hseen row List.mem_cons_self), ih hl]
    intro row' hrow' hmem
    rcases List.mem_cons.mp hmem with heq | hmem
    · exact hrow (List.mem_map.mpr ⟨row', hrow', heq⟩)
    · exact hseen row' (List.mem_cons_of_mem _ hrow') hmem

/-- Events of one aggregate make one group. -/
theorem grouped_of_one (k : String) (e : DomainEvent P) (l : List (DomainEvent P)) :
    grouped ((e :: l).map (k, ·)) = [(k, e :: l)] := by
  have hfold : ∀ sofar : List (DomainEvent P),
      (l.map (k, ·)).foldl (fun groups (p : String × DomainEvent P) => addToGroup p.1 p.2 groups)
        [(k, sofar)] = [(k, sofar ++ l)] := by
    induction l with
    | nil => simp
    | cons f l ih =>
      intro sofar
      rw [List.map_cons, List.foldl_cons, addToGroup, if_pos rfl, ih, List.append_assoc]
      rfl
  exact hfold [e]

theorem mapM_keyed {k : String} {rows : List EventRow} (h : ∀ row ∈ rows, row.aggregateId = k) :
    (rows.mapM fun row => (m.ofRow row).map (row.aggregateId, ·)) =
      (rows.mapM m.ofRow).map fun events => events.map (k, ·) := by
  induction rows with
  | nil => rfl
  | cons row l ih =>
    rw [List.mapM_cons, List.mapM_cons, ih fun x hx => h x (List.mem_cons_of_mem _ hx),
      h row List.mem_cons_self]
    cases m.ofRow row with
    | error e => rfl
    | ok e => cases l.mapM m.ofRow <;> rfl

theorem aggregatesOfRows_eq {id : AggregateId} {options : LoadOptions} {rows : List EventRow}
    (hselects : ∀ row ∈ rows, m.selects options row) (hid : ∀ row ∈ rows, row.aggregateId = id.text)
    (hnodup : (rows.map (·.eventId)).Nodup) :
    m.aggregatesOfRows options rows = (m.replayRows id options rows).map Option.toList := by
  unfold aggregatesOfRows replayRows
  rw [List.filter_eq_self.mpr hselects, firstOccurrences_eq_self hnodup (by simp)]
  simp only [bind, Except.bind, pure, Except.pure, mapM_keyed hid]
  cases rows.mapM m.ofRow with
  | error e => rfl
  | ok events =>
    cases events with
    | nil => rfl
    | cons e l =>
      simp only [Except.map, grouped_of_one, List.mapM_cons, List.mapM_nil, bind, Except.bind, pure,
        Except.pure, rebuild, Identity.ofText_text]
      cases Aggregate.replay m.blueprint id (e :: l) with
      | error e => rfl
      | ok a => cases ha : (!a.isDeleted || options.includeDeleted) <;> simp [ha]

end Mapping

/-! ## Loads -/

namespace Repository

variable {S P π : Type} {r : Repository S P MemoryStore π} {s : MemoryStore} {p : π}
  {rows : List EventRow}

theorem load_eq (hmem : r.storage = MemoryStore.storage) (hs : s.Holds rows) (id : AggregateId)
    (options : LoadOptions) :
    r.load id options (s, p) = (r.replayRows id options (r.history id options rows), (s, p)) := by
  have hread : (stored (r.storage.read (r.filterOne id options)) :
      RepositoryM _ π (List EventRow)) (s, p) = (.ok (r.history id options rows), (s, p)) := by
    rw [hmem, Mapping.history, ← hs.read_eq]
    rfl
  have hmine : ∀ row ∈ r.history id options rows, row.stream = r.streamOf id ∧
      ∀ version ∈ options.maxVersion, row.version ≤ version :=
    fun row hrow => Mapping.accepts_filterOne_iff.mp (List.mem_filter.mp hrow).2
  have hselects : ∀ row ∈ r.history id options rows, r.selects options row := by
    intro row hrow
    obtain ⟨hstream, hversion⟩ := hmine row hrow
    exact Mapping.selects_iff.mpr ⟨congrArg StreamKey.aggregateType hstream, hversion⟩
  have hrows := Mapping.aggregatesOfRows_eq hselects
    (fun row hrow => congrArg StreamKey.aggregateId (hmine row hrow).1)
    (hs.unique.ids.sublist (List.filter_sublist.map _))
  have hmany : r.loadMany [id] options (s, p) =
      ((r.replayRows id options (r.history id options rows)).map Option.toList, (s, p)) := by
    show (stored (r.storage.read (r.filterOne id options)) >>= fun rows =>
      ofExcept (r.aggregatesOfRows options rows)) (s, p) = _
    rw [← hrows, bind_of_ok hread]
    cases r.aggregatesOfRows options (r.history id options rows) <;> rfl
  unfold load
  cases hreplay : r.replayRows id options (r.history id options rows) with
  | error e =>
    rw [hreplay] at hmany
    exact bind_of_error hmany
  | ok a =>
    rw [hreplay] at hmany
    rw [bind_of_ok hmany]
    cases a <;> rfl

end Repository

end EventStore
