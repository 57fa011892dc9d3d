import EventStore.Proofs.Lists
import EventStore.Proofs.MemoryLog
import EventStore.Proofs.Runs
import EventStore.Repository

/-!
# Saves to a memory

Proved here, for every repository over a memory:

* `pendingRows_eq_ok_iff`: the rows of pending events are `rowOf` each, if all payloads can be
  encoded;
* `appendPending_cases`: all that the append of a save can do;
* `saveAll_of_refused`, `saveAll_of_interrupted`: a save that fails leaves the aggregates as they
  were, since they are changed after the last step that may fail;
* `saveAll_of_delivers`, `save_of_delivers`: what is stored and then delivered is saved;
* `of_save_eq_ok`: what is saved was stored.
-/

namespace EventStore

/-! ## Rows of events -/

namespace Mapping

variable {S P : Type} (m : Mapping S P)

/-- A payload that can be encoded. -/
def Encodes (p : P) : Prop := ∃ encoded, m.codec.encode p = .ok encoded

/-- The row of an event; one whose payload cannot be encoded has no body. -/
def rowOf (e : RecordedEvent P) : EventRow :=
  let encoded := (m.codec.encode e.payload).toOption.getD ⟨"", ""⟩
  { aggregateType := m.blueprint.name
    aggregateId := e.aggregateId.text
    eventType := encoded.eventType
    body := encoded.body
    eventId := e.id
    actorId := some e.actorId.text
    occurredOn := e.occurredOn
    version := e.version
    deleteAction := e.deleteAction.tag }

/-- The stream of an aggregate. -/
def streamOf (id : AggregateId) : StreamKey := ⟨m.blueprint.name, id.text⟩

@[simp] theorem rowOf_eventId (e : RecordedEvent P) : (m.rowOf e).eventId = e.id := rfl

@[simp] theorem rowOf_version (e : RecordedEvent P) : (m.rowOf e).version = e.version := rfl

@[simp] theorem rowOf_stream (e : RecordedEvent P) :
    (m.rowOf e).stream = m.streamOf e.aggregateId := rfl

variable {m}

theorem toRow_of_encodes {e : RecordedEvent P} (h : m.Encodes e.payload) :
    m.toRow e = .ok (m.rowOf e) := by
  obtain ⟨encoded, h⟩ := h
  have hpayload : m.codec.encode e.event.payload = .ok encoded := h
  simp only [toRow, eventRow, hpayload, rowOf, h, Except.map, Except.toOption, Option.getD_some]
  rfl

theorem encodes_of_toRow {e : RecordedEvent P} {row : EventRow} (h : m.toRow e = .ok row) :
    m.Encodes e.payload := by
  obtain ⟨encoded, henc, -⟩ := except_map_eq_ok_iff.mp h
  exact ⟨encoded, henc⟩

theorem pendingRows_eq (a : Aggregate S P) :
    m.pendingRows a = a.pending.mapM fun e => (m.toRow e).mapError
      (.unencodable m.blueprint.name a.id.text (m.blueprint.eventType e.payload)) := by
  unfold pendingRows
  congr
  funext e
  cases m.toRow e <;> rfl

theorem pendingRows_eq_ok_iff {a : Aggregate S P} {rows : List EventRow} :
    m.pendingRows a = .ok rows ↔
      (∀ e ∈ a.pending, m.Encodes e.payload) ∧ rows = a.pending.map m.rowOf := by
  rw [pendingRows_eq]
  constructor
  · intro h
    obtain ⟨hrows, hall⟩ := eq_map_of_mapM (fun e _ row h => by
      have hto := except_mapError_eq_ok_iff.mp h
      rw [toRow_of_encodes (encodes_of_toRow hto)] at hto
      exact (Except.ok.inj hto).symm) h
    exact ⟨fun e he => encodes_of_toRow (except_mapError_eq_ok_iff.mp (hall e he)), hrows⟩
  · rintro ⟨henc, rfl⟩
    refine mapM_eq_ok fun e he => ?_
    rw [toRow_of_encodes (henc e he)]
    rfl

end Mapping

theorem Aggregate.clearChanges_of_none {S P : Type} {a : Aggregate S P} (h : a.pending = []) :
    a.clearChanges = a := by
  cases a
  cases h
  rfl

/-! ## Publishers -/

/-- All calls of a publisher for a list of events succeed, one after the other. -/
def Publisher.Delivers {P π : Type} (publisher : Publisher P π) :
    List (RecordedEvent P) → π → Prop
  | [], _ => True
  | e :: l, p => ∃ p', publisher.publish e p = (.ok (), p') ∧ publisher.Delivers l p'

/-! ## Appends -/

namespace Repository

variable {S P π : Type} {r : Repository S P MemoryStore π} {l : List (Aggregate S P)}
  {a : Aggregate S P} {s s' : MemoryStore} {p : π}

/-- The pending events of aggregates as rows. -/
def batch (r : Repository S P MemoryStore π) (l : List (Aggregate S P)) : List EventRow :=
  (l.flatMap (·.pending)).map r.rowOf

theorem flatten_pendingRows {rows : List (List EventRow)} (h : l.mapM r.pendingRows = .ok rows) :
    rows.flatten = r.batch l := by
  have hrows := (eq_map_of_mapM (fun a _ rows h => (Mapping.pendingRows_eq_ok_iff.mp h).2) h).1
  rw [hrows, batch, List.map_flatMap, List.flatMap_def]

theorem mapM_pendingRows (henc : ∀ a ∈ l, ∀ e ∈ a.pending, r.Encodes e.payload) :
    l.mapM r.pendingRows = .ok (l.map fun a => a.pending.map r.rowOf) :=
  mapM_eq_ok fun a ha => Mapping.pendingRows_eq_ok_iff.mpr ⟨henc a ha, rfl⟩

theorem batch_eq_nil_iff : r.batch l = [] ↔ ∀ a ∈ l, a.pending = [] := by
  simp [batch, List.flatMap_eq_nil_iff]

theorem appendPending_of_unencodable {e : RepositoryError} (h : l.mapM r.pendingRows = .error e) :
    r.appendPending l (s, p) = (.error e, (s, p)) := by
  unfold appendPending
  rw [h]
  exact bind_of_error rfl

theorem appendPending_eq {rows : List (List EventRow)} (hrows : l.mapM r.pendingRows = .ok rows) :
    r.appendPending l =
      if (r.batch l).isEmpty then pure false
      else stored (r.storage.append (r.batch l)) >>= fun _ => pure true := by
  unfold appendPending
  rw [hrows, ← flatten_pendingRows hrows]
  exact pure_bind rows _

theorem appendPending_of_none (hnone : ∀ a ∈ l, a.pending = []) :
    r.appendPending l (s, p) = (.ok false, (s, p)) := by
  have hrows := mapM_pendingRows (r := r) (l := l) fun a ha e he => by
    rw [hnone a ha] at he
    cases he
  rw [appendPending_eq hrows, batch_eq_nil_iff.mpr hnone]
  rfl

section Append

variable (hmem : r.storage = MemoryStore.storage) {rows : List (List EventRow)}
  (hrows : l.mapM r.pendingRows = .ok rows) (hbatch : r.batch l ≠ [])

include hmem hrows hbatch

theorem appendPending_of_ok (h : s.append (r.batch l) = .ok s') :
    r.appendPending l (s, p) = (.ok true, (s', p)) := by
  have hstored : (stored (r.storage.append (r.batch l)) : RepositoryM _ π Unit) (s, p) =
      (.ok (), (s', p)) := by
    rw [hmem, stored, MemoryStore.storage_append_of_ok h]
  rw [appendPending_eq hrows, if_neg (by simpa using hbatch), bind_of_ok hstored]
  rfl

theorem appendPending_of_error {e : StorageError} (h : s.append (r.batch l) = .error e) :
    r.appendPending l (s, p) = (.error (.storage e), (s, p)) := by
  have hstored : (stored (r.storage.append (r.batch l)) : RepositoryM _ π Unit) (s, p) =
      (.error (.storage e), (s, p)) := by
    rw [hmem, stored, MemoryStore.storage_append_of_error h]
  rw [appendPending_eq hrows, if_neg (by simpa using hbatch)]
  exact bind_of_error hstored

end Append

/-- An append fails and changes nothing, or there is nothing to append, or the batch is stored. -/
theorem appendPending_cases (hmem : r.storage = MemoryStore.storage) (l : List (Aggregate S P))
    (s : MemoryStore) (p : π) :
    (∃ e, r.appendPending l (s, p) = (.error e, (s, p))) ∨
    ((∀ a ∈ l, a.pending = []) ∧ r.appendPending l (s, p) = (.ok false, (s, p))) ∨
    (∃ s', (∀ a ∈ l, ∀ e ∈ a.pending, r.Encodes e.payload) ∧ s.append (r.batch l) = .ok s' ∧
      r.batch l ≠ [] ∧ r.appendPending l (s, p) = (.ok true, (s', p))) := by
  cases hrows : l.mapM r.pendingRows with
  | error e => exact Or.inl ⟨e, appendPending_of_unencodable hrows⟩
  | ok rows =>
    by_cases hbatch : r.batch l = []
    · have hnone := batch_eq_nil_iff.mp hbatch
      exact Or.inr (Or.inl ⟨hnone, appendPending_of_none hnone⟩)
    · cases happend : s.append (r.batch l) with
      | error e => exact Or.inl ⟨_, appendPending_of_error hmem hrows hbatch happend⟩
      | ok s' =>
        have hall := (eq_map_of_mapM
          (fun a _ rows h => (Mapping.pendingRows_eq_ok_iff.mp h).2) hrows).2
        exact Or.inr (Or.inr ⟨s', fun a ha => (Mapping.pendingRows_eq_ok_iff.mp (hall a ha)).1,
          rfl, hbatch, appendPending_of_ok hmem hrows hbatch happend⟩)

/-! ## Saves -/

theorem published_of_ok {σ : Type} {r : Repository S P σ π} {e : RecordedEvent P} {p p' : π}
    (h : r.publisher.publish e p = (.ok (), p')) (s : σ) :
    r.published e (s, p) = (.ok (), (s, p')) := by
  simp only [published, h]

theorem published_of_error {σ : Type} {r : Repository S P σ π} {e : RecordedEvent P} {p p' : π}
    {x : BusError} (h : r.publisher.publish e p = (.error x, p')) (s : σ) :
    r.published e (s, p) = (.error (.publish x), (s, p')) := by
  simp only [published, h]

theorem forM_published {events : List (RecordedEvent P)} (h : r.publisher.Delivers events p) :
    ∃ p', (events.forM r.published : RepositoryM _ π Unit) (s, p) = (.ok (), (s, p')) := by
  induction events generalizing p with
  | nil => exact ⟨p, rfl⟩
  | cons e l ih =>
    obtain ⟨p₁, hpublish, hrest⟩ := h
    obtain ⟨p₂, hrun⟩ := ih hrest
    exact ⟨p₂, (bind_of_ok (published_of_ok hpublish s)).trans hrun⟩

/-- To publish leaves the storage alone. -/
theorem fst_forM_published {σ : Type} {r : Repository S P σ π} (events : List (RecordedEvent P))
    (q : σ × π) : ((events.forM r.published : RepositoryM σ π Unit) q).2.1 = q.1 := by
  induction events generalizing q with
  | nil => rfl
  | cons e events ih =>
    show ((r.published e >>= fun _ => events.forM r.published : RepositoryM σ π Unit) q).2.1 = q.1
    rcases hpublish : r.publisher.publish e q.2 with ⟨x | ⟨⟩, p⟩
    · rw [bind_of_error (published_of_error hpublish q.1)]
    · rw [bind_of_ok (published_of_ok hpublish q.1), ih]

section Stages

variable {σ : Type} {r : Repository S P σ π} {q q' q'' : σ × π} {e : RepositoryError}

theorem leaving_of_eq {α β : Type} {action : RepositoryM σ π α} {result : Except RepositoryError α}
    (h : action q = (result, q')) (b : β) :
    (leaving action : SaveM β σ π α) (b, q) = (result, (b, q')) := by
  rw [leaving, h]

theorem saveAll_of_refused (h : r.appendPending l q = (.error e, q')) :
    r.saveAll (l, q) = (.error e, (l, q')) := by
  have hget : (get : SaveM (List (Aggregate S P)) σ π _) (l, q) = (.ok (l, q), (l, q)) := rfl
  exact (bind_of_ok hget).trans (bind_of_error (leaving_of_eq h l))

theorem saveAll_of_none (h : r.appendPending l q = (.ok false, q')) :
    r.saveAll (l, q) = (.ok (), (l, q')) :=
  bind_of_ok (leaving_of_eq h l)

section Publish

variable (happend : r.appendPending l q = (.ok true, q'))

include happend

/-- A call of the publisher that fails ends a save before any aggregate is touched. -/
theorem saveAll_of_interrupted
    (hpublish : ((l.flatMap (·.pending)).forM r.published : RepositoryM σ π Unit) q' =
      (.error e, q'')) : r.saveAll (l, q) = (.error e, (l, q'')) :=
  (bind_of_ok (leaving_of_eq happend l)).trans (bind_of_error (leaving_of_eq hpublish l))

theorem saveAll_of_published
    (hpublish : ((l.flatMap (·.pending)).forM r.published : RepositoryM σ π Unit) q' =
      (.ok (), q'')) : r.saveAll (l, q) = (.ok (), (l.map Aggregate.clearChanges, q'')) :=
  (bind_of_ok (leaving_of_eq happend l)).trans (bind_of_ok (leaving_of_eq hpublish l))

end Publish

theorem save_of_saveAll {result : Except RepositoryError Unit} {a' : Aggregate S P}
    (h : r.saveAll ([a], q) = (result, ([a'], q'))) : r.save (a, q) = (result, (a', q')) := by
  rw [save, h]
  rfl

end Stages

theorem saveAll_of_nothing (hnone : ∀ a ∈ l, a.pending = []) :
    r.saveAll (l, (s, p)) = (.ok (), (l, (s, p))) :=
  saveAll_of_none (appendPending_of_none hnone)

theorem saveAll_of_delivers (hmem : r.storage = MemoryStore.storage)
    (henc : ∀ a ∈ l, ∀ e ∈ a.pending, r.Encodes e.payload) (hbatch : r.batch l ≠ [])
    (happend : s.append (r.batch l) = .ok s')
    (hdelivers : r.publisher.Delivers (l.flatMap (·.pending)) p) :
    ∃ p', r.saveAll (l, (s, p)) = (.ok (), (l.map Aggregate.clearChanges, (s', p'))) := by
  obtain ⟨p', hpublish⟩ := forM_published (s := s') hdelivers
  have hstored : r.appendPending l (s, p) = (.ok true, (s', p)) :=
    appendPending_of_ok hmem (mapM_pendingRows henc) hbatch happend
  exact ⟨p', saveAll_of_published hstored hpublish⟩

theorem save_of_delivers (hmem : r.storage = MemoryStore.storage)
    (henc : ∀ e ∈ a.pending, r.Encodes e.payload)
    (happend : s.append (a.pending.map r.rowOf) = .ok s')
    (hdelivers : r.publisher.Delivers a.pending p) :
    ∃ p', r.save (a, (s, p)) = (.ok (), (a.clearChanges, (s', p'))) := by
  have hone : r.batch [a] = a.pending.map r.rowOf := by simp [batch]
  by_cases hnone : a.pending = []
  · have hsame : s = s' := by
      rw [hnone] at happend
      exact Except.ok.inj happend
    rw [Aggregate.clearChanges_of_none hnone, ← hsame]
    exact ⟨p, save_of_saveAll (saveAll_of_nothing (by simpa using hnone))⟩
  · obtain ⟨p', hsave⟩ := saveAll_of_delivers (r := r) (l := [a]) hmem (by simpa using henc)
      (by simpa [hone] using hnone) (hone.symm ▸ happend) (by simpa using hdelivers)
    exact ⟨p', save_of_saveAll hsave⟩

/-- A save that the storage refuses changes nothing. -/
theorem save_of_append_error (hmem : r.storage = MemoryStore.storage)
    (henc : ∀ e ∈ a.pending, r.Encodes e.payload) (hsome : a.pending ≠ []) {e : StorageError}
    (happend : s.append (a.pending.map r.rowOf) = .error e) :
    r.save (a, (s, p)) = (.error (.storage e), (a, (s, p))) := by
  have hone : r.batch [a] = a.pending.map r.rowOf := by simp [batch]
  have hfails : r.appendPending [a] (s, p) = (.error (.storage e), (s, p)) :=
    appendPending_of_error hmem (mapM_pendingRows (by simpa using henc))
      (by simpa [hone] using hsome) (hone.symm ▸ happend)
  exact save_of_saveAll (saveAll_of_refused hfails)

/-- A save that succeeds has stored what was pending. -/
theorem of_save_eq_ok (hmem : r.storage = MemoryStore.storage) {a' : Aggregate S P} {p' : π}
    (h : r.save (a, (s, p)) = (.ok (), (a', (s', p')))) :
    a' = a.clearChanges ∧ (∀ e ∈ a.pending, r.Encodes e.payload) ∧
      s.append (a.pending.map r.rowOf) = .ok s' := by
  have hone : r.batch [a] = a.pending.map r.rowOf := by simp [batch]
  rcases appendPending_cases hmem [a] s p with ⟨e, happend⟩ | ⟨hnone, -⟩ |
    ⟨store, henc, hstored, -, happend⟩
  · rw [save_of_saveAll (saveAll_of_refused happend)] at h
    cases h
  · have hpending : a.pending = [] := hnone a (List.mem_singleton_self a)
    rw [save_of_saveAll (saveAll_of_nothing hnone)] at h
    cases h
    rw [Aggregate.clearChanges_of_none hpending, hpending]
    exact ⟨rfl, by simp, rfl⟩
  · have hkept := fst_forM_published (r := r) ([a].flatMap (·.pending)) (store, p)
    rcases hcalls : ([a].flatMap (·.pending)).forM r.published (store, p) with ⟨x | ⟨⟩, q⟩ <;>
      rw [hcalls] at hkept
    · rw [save_of_saveAll (saveAll_of_interrupted happend hcalls)] at h
      cases h
    · rw [save_of_saveAll (saveAll_of_published happend hcalls)] at h
      cases h
      obtain rfl : s' = store := hkept
      exact ⟨rfl, by simpa using henc, hone ▸ hstored⟩

end Repository

end EventStore
