import EventStore.Proofs.EnvelopeRules
import EventStore.Proofs.Grouping

/-!
# Histories that replay

Proved here, for events in any order, of which some may have no version:

* `follows_sorted_iff`: sorted by their versions they follow a new aggregate exactly if they are a
  `History` of it, which is to say that they are its own and at distinct versions;
* `exists_replay_iff`: so these are the events that replay;
* `deletedBy_iff`: in the order of versions, the last event with an effect on deletion is the one at
  the highest version;
* `resultsIn_foldl_advance`: what comes of a history, told without the order that it is given in;
* `replay_exact`: and so the order of the events does not matter.
-/

namespace EventStore.Aggregate

variable {S P : Type} {b : Blueprint S P} {id : AggregateId} {state : S} {a : Aggregate S P}
  {events sorted : List (DomainEvent P)}

/-- Events of an aggregate, no two of them at one version; an event without version is at zero. -/
structure History (id : AggregateId) (events : List (DomainEvent P)) : Prop where
  own : ∀ e ∈ events, e.aggregateId = some id
  distinct : (events.map (·.versionNumber)).Nodup

/-- What a history leads to from a new aggregate in a state. -/
structure ResultsIn (b : Blueprint S P) (id : AggregateId) (state : S)
    (events : List (DomainEvent P)) (a : Aggregate S P) : Prop where
  id_eq : a.id = id
  /-- The events take effect in the order of their versions. -/
  state_eq : ∃ sorted : List (DomainEvent P), sorted.Perm events ∧
    (sorted.Pairwise fun e f => e.versionNumber < f.versionNumber) ∧
    a.state = sorted.foldl b.handle state
  version_eq : a.version = (events.map (·.versionNumber)).max?.getD 0
  /-- Of the events with an effect on deletion, the one at the highest version deletes. -/
  isDeleted_iff : a.isDeleted ↔ ∃ e ∈ events, e.deleteAction = .delete ∧
    ∀ f ∈ events, f.deleteAction ≠ .none → f.versionNumber ≤ e.versionNumber
  pending_eq : a.pending = []

/-! ## Which events follow -/

theorem History.of_perm (h : History id events) (hperm : events.Perm sorted) :
    History id sorted where
  own e he := h.own e (hperm.mem_iff.mpr he)
  distinct := (hperm.map _).nodup h.distinct

theorem Follows.history (h : (fresh id state : Aggregate S P).Follows events) :
    History id events where
  own e he := (h.accepts e he).1
  distinct := List.pairwise_map.mpr (h.increasing.imp Nat.ne_of_lt)

theorem follows_sorted_iff :
    (fresh id state : Aggregate S P).Follows (sortByVersion events) ↔ History id events := by
  constructor
  · intro h
    exact h.history.of_perm (sortByVersion_perm events)
  · intro h
    have hsorted := h.of_perm (sortByVersion_perm events).symm
    exact follows_fresh hsorted.own (pairwise_lt_mergeSort_key h.distinct)

theorem exists_replay_iff : (∃ a, replay b id events = .ok a) ↔
    (∃ state, b.create id = some state) ∧ History id events := by
  constructor
  · rintro ⟨a, h⟩
    obtain ⟨state, hcreate, hfollows, -⟩ := replay_eq_ok_iff.mp h
    exact ⟨⟨state, hcreate⟩, follows_sorted_iff.mp hfollows⟩
  · rintro ⟨⟨state, hcreate⟩, hhistory⟩
    exact ⟨_, replay_eq_ok_iff.mpr ⟨state, hcreate, follows_sorted_iff.mpr hhistory, rfl⟩⟩

/-! ## What they lead to -/

theorem foldl_advance_state :
    (events.foldl (advance b) a).state = events.foldl b.handle a.state := by
  induction events generalizing a with
  | nil => rfl
  | cons e l ih => exact ih

theorem deletedBy_iff
    (h : sorted.Pairwise fun e f => e.versionNumber < f.versionNumber) :
    DomainEvent.deletedBy sorted ↔ ∃ e ∈ sorted, e.deleteAction = .delete ∧
      ∀ f ∈ sorted, f.deleteAction ≠ .none → f.versionNumber ≤ e.versionNumber := by
  induction sorted using List.reverseRecOn with
  | nil => simp [DomainEvent.deletedBy]
  | append_singleton l last ih =>
    obtain ⟨hl, -, hlt⟩ := List.pairwise_append.mp h
    have hlt : ∀ e ∈ l, e.versionNumber < last.versionNumber := fun e he => hlt e he last (by simp)
    rw [DomainEvent.deletedBy_concat]
    cases haction : last.deleteAction with
    | none =>
      rw [DeleteAction.apply, ih hl]
      simp only [List.mem_append, List.mem_singleton]
      constructor
      · rintro ⟨e, he, hdelete, hmax⟩
        refine ⟨e, Or.inl he, hdelete, ?_⟩
        rintro f (hf | rfl) heffect
        · exact hmax f hf heffect
        · exact absurd haction heffect
      · rintro ⟨e, he | rfl, hdelete, hmax⟩
        · exact ⟨e, he, hdelete, fun f hf => hmax f (Or.inl hf)⟩
        · rw [haction] at hdelete
          cases hdelete
    | delete =>
      refine iff_of_true rfl ⟨last, by simp, haction, fun f hf _ => ?_⟩
      rcases List.mem_append.mp hf with hf | hf
      · exact Nat.le_of_lt (hlt f hf)
      · exact Nat.le_of_eq (by rw [List.mem_singleton.mp hf])
    | undelete =>
      refine iff_of_false (by simp [DeleteAction.apply]) ?_
      rintro ⟨e, he, hdelete, hmax⟩
      have hle := hmax last (by simp) (by simp [haction])
      rcases List.mem_append.mp he with he | he
      · exact absurd (hlt e he) (Nat.not_lt.mpr hle)
      · rw [List.mem_singleton.mp he, haction] at hdelete
        cases hdelete

theorem max?_versions (h : sorted.Pairwise fun e f => e.versionNumber < f.versionNumber) :
    (sorted.map (·.versionNumber)).max? = sorted.getLast?.map (·.versionNumber) := by
  rcases List.eq_nil_or_concat' sorted with rfl | ⟨l, last, rfl⟩
  · rfl
  · obtain ⟨-, -, hlt⟩ := List.pairwise_append.mp h
    rw [List.getLast?_concat, Option.map_some, List.max?_eq_some_iff]
    refine ⟨List.mem_map_of_mem (by simp), fun v hv => ?_⟩
    obtain ⟨e, he, rfl⟩ := List.mem_map.mp hv
    rcases List.mem_append.mp he with he | he
    · exact Nat.le_of_lt (hlt e he last (by simp))
    · exact Nat.le_of_eq (by rw [List.mem_singleton.mp he])

theorem max?_of_perm {l l' : List Nat} (h : l.Perm l') : l.max? = l'.max? := by
  cases hmax : l'.max? with
  | none =>
    rw [List.max?_eq_none_iff] at hmax ⊢
    exact List.perm_nil.mp (hmax ▸ h)
  | some v =>
    rw [List.max?_eq_some_iff] at hmax ⊢
    exact ⟨h.mem_iff.mpr hmax.1, fun w hw => hmax.2 w (h.mem_iff.mp hw)⟩

/-- What comes of events in the order of their versions can be told of them in any order. -/
theorem resultsIn_foldl_advance (hperm : sorted.Perm events)
    (h : sorted.Pairwise fun e f => e.versionNumber < f.versionNumber) :
    ResultsIn b id state events (sorted.foldl (advance b) (fresh id state)) where
  id_eq := foldl_advance_id sorted
  state_eq := ⟨sorted, hperm, h, foldl_advance_state⟩
  version_eq := by
    rw [foldl_advance_version, ← max?_of_perm (hperm.map _), max?_versions h]
    rfl
  isDeleted_iff := by
    rw [foldl_advance_isDeleted rfl, deletedBy_iff h]
    simp only [hperm.mem_iff]
  pending_eq := foldl_advance_pending sorted

/-- Events replay exactly if an aggregate can be made and they are a history of it, and this is what
they replay to. Whether they do, and to what, is the same in every order of the events. -/
theorem replay_exact (b : Blueprint S P) (id : AggregateId) (events : List (DomainEvent P)) :
    ((∃ a, replay b id events = .ok a) ↔
      (∃ state, b.create id = some state) ∧ History id events) ∧
    (∀ a, replay b id events = .ok a →
      ∃ state, b.create id = some state ∧ ResultsIn b id state events a) ∧
    ∀ events' : List (DomainEvent P), events'.Perm events →
      ∀ a, replay b id events' = .ok a ↔ replay b id events = .ok a := by
  refine ⟨exists_replay_iff, ?_, ?_⟩
  · intro a h
    obtain ⟨state, hcreate, hfollows, rfl⟩ := replay_eq_ok_iff.mp h
    exact ⟨state, hcreate, resultsIn_foldl_advance (sortByVersion_perm events) hfollows.increasing⟩
  · intro events' hperm a
    exact ⟨replay_eq_of_perm hperm.symm, replay_eq_of_perm hperm⟩

end EventStore.Aggregate
