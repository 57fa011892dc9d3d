import EventStore.Aggregate
import EventStore.Proofs.Lists
import EventStore.Proofs.Runs

/-!
# What an aggregate accepts

`Accepts` is the rule of the envelope, and `advance` the effect of an accepted event.

Proved here:

* `dispatch_of_accepts`, `dispatch_of_not_accepts`: dispatching is `advance` where the rule holds,
  and leaves the aggregate as it was elsewhere, since the checks come before the first write;
* `foldlM_dispatch_eq_ok_iff`: a list of events is dispatched to its end exactly when it `Follows`
  the aggregate, that is, when all events are its own, their versions increase strictly, and each is
  admissible at the start;
* `replay_of_perm`: a history that follows the new aggregate may be given in any order.
-/

namespace EventStore

namespace Aggregate

variable {S P : Type} {b : Blueprint S P} {a a' : Aggregate S P}

/-! ## One event -/

/-- A version above the current one, or equal to it while nothing has been applied. -/
def Admits (a : Aggregate S P) (version : Nat) : Prop :=
  a.version < version ∨ (a.version = version ∧ a.applied = false)

def Accepts (a : Aggregate S P) (e : DomainEvent P) : Prop :=
  e.aggregateId = some a.id ∧ a.Admits e.versionNumber

/-- The effect of an accepted event. -/
def advance (b : Blueprint S P) (a : Aggregate S P) (e : DomainEvent P) : Aggregate S P :=
  { a with
    version := e.versionNumber
    applied := true
    isDeleted := e.deleteAction.apply a.isDeleted
    state := b.handle a.state e }

theorem Admits.le {v : Nat} (h : a.Admits v) : a.version ≤ v := by
  rcases h with h | h
  · exact Nat.le_of_lt h
  · exact Nat.le_of_eq h.1

theorem Admits.trans_lt {v w : Nat} (h : a.Admits v) (hw : v < w) : a.Admits w :=
  Or.inl (Nat.lt_of_le_of_lt h.le hw)

theorem admits_of_applied (h : a.applied = true) (v : Nat) : a.Admits v ↔ a.version < v := by
  simp [Admits, h]

theorem admits_advance (e : DomainEvent P) (v : Nat) :
    (a.advance b e).Admits v ↔ e.versionNumber < v :=
  admits_of_applied rfl v

end Aggregate

namespace AggregateM

variable {S P : Type} {b : Blueprint S P} {a : Aggregate S P} {e : DomainEvent P}

/-- Two checks, and the writes only after them. -/
theorem dispatch_apply (b : Blueprint S P) (e : DomainEvent P) (a : Aggregate S P) :
    dispatch b e a =
      if e.aggregateId ≠ some a.id then
        (.error (.eventAggregateMismatch b.name a.id.text (e.aggregateId.map (·.text)) e.id
          (b.eventType e.payload) e.versionNumber), a)
      else if e.versionNumber < a.version ∨ (e.versionNumber = a.version ∧ a.applied) then
        (.error (.cannotApplyPastEvent b.name a.id.text a.version e.id (b.eventType e.payload)
          e.versionNumber), a)
      else (.ok (), a.advance b e) := by
  have hget : (get : AggregateM S P (Aggregate S P)) a = (.ok a, a) := rfl
  unfold dispatch
  rw [bind_of_ok hget]
  split
  · rfl
  · split <;> rfl

theorem dispatch_of_accepts (h : a.Accepts e) : dispatch b e a = (.ok (), a.advance b e) := by
  obtain ⟨hid, hv⟩ := h
  have hlate : ¬ (e.versionNumber < a.version ∨ (e.versionNumber = a.version ∧ a.applied)) := by
    rcases hv with hv | ⟨hv, ha⟩
    · omega
    · simp [hv, ha]
  rw [dispatch_apply, if_neg (not_not_intro hid), if_neg hlate]

/-- An event that is not accepted leaves the aggregate as it was. -/
theorem dispatch_of_not_accepts (h : ¬ a.Accepts e) : ∃ x, dispatch b e a = (.error x, a) := by
  rw [dispatch_apply]
  by_cases hid : e.aggregateId = some a.id
  · have hlate : e.versionNumber < a.version ∨ (e.versionNumber = a.version ∧ a.applied) := by
      by_contra hlate
      obtain ⟨hle, hne⟩ := not_or.mp hlate
      rcases Nat.lt_or_eq_of_le (Nat.le_of_not_lt hle) with hlt | heq
      · exact h ⟨hid, Or.inl hlt⟩
      · exact h ⟨hid, Or.inr ⟨heq, Bool.eq_false_iff.mpr fun ha => hne ⟨heq.symm, ha⟩⟩⟩
    exact ⟨_, by rw [if_neg (not_not_intro hid), if_pos hlate]⟩
  · exact ⟨_, if_pos hid⟩

theorem dispatch_clearChanges (b : Blueprint S P) (e : DomainEvent P) (a : Aggregate S P) :
    dispatch b e a.clearChanges = (dispatch b e a).map id Aggregate.clearChanges := by
  rw [dispatch_apply, dispatch_apply, apply_ite (Prod.map id Aggregate.clearChanges),
    apply_ite (Prod.map id Aggregate.clearChanges)]
  rfl

theorem record_of_accepts {e : RecordedEvent P} (h : a.Accepts e.event) :
    record b e a = (.ok (), { a.advance b e.event with pending := a.pending ++ [e] }) :=
  bind_of_ok (dispatch_of_accepts h)

theorem record_of_not_accepts {e : RecordedEvent P} (h : ¬ a.Accepts e.event) :
    ∃ x, record b e a = (.error x, a) :=
  (dispatch_of_not_accepts h).imp fun _ hx => bind_of_error hx

/-! ## Outcomes -/

theorem outcome_of_ok {x : AggregateM S P Unit} {a' : Aggregate S P} (h : x a = (.ok (), a')) :
    x.outcome a = .ok a' := by
  rw [outcome, h]

theorem outcome_of_error {x : AggregateM S P Unit} {a' : Aggregate S P} {err : AggregateError}
    (h : x a = (.error err, a')) : x.outcome a = .error err := by
  rw [outcome, h]

theorem outcome_bind (x y : AggregateM S P Unit) (a : Aggregate S P) :
    (x >>= fun _ => y : AggregateM S P Unit).outcome a = x.outcome a >>= y.outcome := by
  rcases h : x a with ⟨err | ⟨⟩, a'⟩
  · rw [outcome_of_error h, outcome_of_error (bind_of_error h)]
    rfl
  · rw [outcome_of_ok h, outcome, bind_of_ok h]
    rfl

theorem outcome_forM {α : Type} (f : α → AggregateM S P Unit) (l : List α) (a : Aggregate S P) :
    (l.forM f : AggregateM S P Unit).outcome a = l.foldlM (fun a e => (f e).outcome a) a := by
  induction l generalizing a with
  | nil => rfl
  | cons e l ih =>
    rw [List.foldlM_cons]
    exact (outcome_bind (f e) (l.forM f) a).trans (congrArg _ (funext ih))

/-- Accepting a completed event puts it at the end of the queue. -/
theorem outcome_record (e : RecordedEvent P) (a : Aggregate S P) :
    (record b e).outcome a = (a.dispatch b e.event).map fun a' =>
      { a' with pending := a'.pending ++ [e] } := by
  refine (outcome_bind (dispatch b e.event) _ a).trans ?_
  rw [Aggregate.dispatch]
  cases (dispatch b e.event).outcome a <;> rfl

end AggregateM

namespace Aggregate

variable {S P : Type} {b : Blueprint S P} {a a' : Aggregate S P}

theorem dispatch_of_accepts {e : DomainEvent P} (h : a.Accepts e) :
    a.dispatch b e = .ok (a.advance b e) :=
  AggregateM.outcome_of_ok (AggregateM.dispatch_of_accepts h)

theorem accepts_of_dispatch {e : DomainEvent P} (h : a.dispatch b e = .ok a') : a.Accepts e := by
  by_contra hacc
  obtain ⟨x, hx⟩ := AggregateM.dispatch_of_not_accepts (b := b) hacc
  rw [dispatch, AggregateM.outcome_of_error hx] at h
  cases h

theorem dispatch_eq_ok_iff {e : DomainEvent P} :
    a.dispatch b e = .ok a' ↔ a.Accepts e ∧ a' = a.advance b e := by
  constructor
  · intro h
    have hacc := accepts_of_dispatch h
    rw [dispatch_of_accepts hacc] at h
    cases h
    exact ⟨hacc, rfl⟩
  · rintro ⟨hacc, rfl⟩
    exact dispatch_of_accepts hacc

/-- The queue plays no part in what becomes of an event. -/
theorem dispatch_clearChanges (e : DomainEvent P) :
    a.clearChanges.dispatch b e = (a.dispatch b e).map clearChanges := by
  unfold dispatch AggregateM.outcome
  rw [AggregateM.dispatch_clearChanges]
  rcases AggregateM.dispatch b e a with ⟨x | ⟨⟩, a'⟩ <;> rfl

theorem applyChange_eq (stamp : Stamp) (e : DomainEvent P) (actor : Option ActorId)
    (time : Option Instant) :
    a.applyChange b stamp e actor time =
      (a.dispatch b (a.complete stamp actor time e).event).map fun a' =>
        { a' with pending := a'.pending ++ [a.complete stamp actor time e] } :=
  AggregateM.outcome_record (a.complete stamp actor time e) a

/-! ## A list of events -/

/-- All events belong to the aggregate, are admissible at the start, and increase in version. -/
structure Follows (a : Aggregate S P) (events : List (DomainEvent P)) : Prop where
  accepts : ∀ e ∈ events, a.Accepts e
  increasing : events.Pairwise fun e f => e.versionNumber < f.versionNumber

theorem follows_nil : a.Follows [] := ⟨by simp, List.Pairwise.nil⟩

theorem follows_cons (b : Blueprint S P) (e : DomainEvent P) (l : List (DomainEvent P)) :
    a.Follows (e :: l) ↔ a.Accepts e ∧ (a.advance b e).Follows l := by
  constructor
  · rintro ⟨hacc, hinc⟩
    obtain ⟨hlt, hinc⟩ := List.pairwise_cons.mp hinc
    refine ⟨hacc e List.mem_cons_self, fun f hf => ⟨?_, ?_⟩, hinc⟩
    · exact (hacc f (List.mem_cons_of_mem _ hf)).1
    · exact (admits_advance e _).mpr (hlt f hf)
  · rintro ⟨he, hacc, hinc⟩
    have hlt : ∀ f ∈ l, e.versionNumber < f.versionNumber :=
      fun f hf => (admits_advance e _).mp (hacc f hf).2
    refine ⟨fun f hf => ?_, List.pairwise_cons.mpr ⟨hlt, hinc⟩⟩
    rcases List.mem_cons.mp hf with rfl | hf
    · exact he
    · exact ⟨(hacc f hf).1, he.2.trans_lt (hlt f hf)⟩

theorem follows_append (b : Blueprint S P) (l l' : List (DomainEvent P)) :
    a.Follows (l ++ l') ↔ a.Follows l ∧ (l.foldl (advance b) a).Follows l' := by
  induction l generalizing a with
  | nil => simp [follows_nil]
  | cons e l ih => rw [List.cons_append, follows_cons b, ih, follows_cons b, and_assoc]; rfl

/-- Of an aggregate to which nothing has happened, all events follow whose versions increase. -/
theorem follows_fresh {id : AggregateId} {state : S} {events : List (DomainEvent P)}
    (howner : ∀ e ∈ events, e.aggregateId = some id)
    (hincreasing : events.Pairwise fun e f => e.versionNumber < f.versionNumber) :
    (fresh id state : Aggregate S P).Follows events where
  accepts := fun e he => ⟨howner e he, (Nat.eq_zero_or_pos e.versionNumber).elim
    (fun hzero => Or.inr ⟨hzero.symm, rfl⟩) Or.inl⟩
  increasing := hincreasing

theorem foldlM_dispatch_eq_ok_iff {events : List (DomainEvent P)} :
    events.foldlM (dispatch b) a = .ok a' ↔
      a.Follows events ∧ a' = events.foldl (advance b) a := by
  induction events generalizing a with
  | nil => simp [follows_nil, pure, Except.pure, eq_comm]
  | cons e l ih =>
    rw [follows_cons b, List.foldl_cons, List.foldlM_cons]
    cases hd : a.dispatch b e with
    | error x =>
      have hno : ¬ a.Accepts e := fun h => by rw [dispatch_of_accepts h] at hd; cases hd
      simp [hno, bind, Except.bind]
    | ok c =>
      obtain ⟨hacc, rfl⟩ := dispatch_eq_ok_iff.mp hd
      simp only [bind, Except.bind, hacc, true_and]
      exact ih

theorem foldlM_dispatch_of_follows {events : List (DomainEvent P)} (h : a.Follows events) :
    events.foldlM (dispatch b) a = .ok (events.foldl (advance b) a) :=
  foldlM_dispatch_eq_ok_iff.mpr ⟨h, rfl⟩

@[simp] theorem foldl_advance_id (events : List (DomainEvent P)) :
    (events.foldl (advance b) a).id = a.id := by
  induction events generalizing a with
  | nil => rfl
  | cons e l ih => exact ih

@[simp] theorem foldl_advance_pending (events : List (DomainEvent P)) :
    (events.foldl (advance b) a).pending = a.pending := by
  induction events generalizing a with
  | nil => rfl
  | cons e l ih => exact ih

theorem foldl_advance_version (events : List (DomainEvent P)) :
    (events.foldl (advance b) a).version =
      (events.getLast?.map (·.versionNumber)).getD a.version := by
  induction events generalizing a with
  | nil => rfl
  | cons e l ih =>
    rw [List.foldl_cons, ih]
    cases l with
    | nil => rfl
    | cons f l => simp [List.getLast?_cons]

/-! ## Sorting -/

/-- Versions that increase strictly leave only one order to sort into. -/
theorem sortByVersion_eq_of_perm {events sorted : List (DomainEvent P)}
    (hperm : events.Perm sorted)
    (hsorted : sorted.Pairwise fun e f => e.versionNumber < f.versionNumber) :
    sortByVersion events = sorted :=
  mergeSort_key_eq_of_perm hperm hsorted

theorem replay_eq_ok_iff {id : AggregateId} {events : List (DomainEvent P)} :
    replay b id events = .ok a ↔ ∃ state, b.create id = some state ∧
      (fresh id state : Aggregate S P).Follows (sortByVersion events) ∧
      a = (sortByVersion events).foldl (advance b) (fresh id state) := by
  unfold replay
  cases b.create id with
  | none => simp
  | some state =>
    simp only [AggregateM.outcome_forM, Option.some.injEq, exists_eq_left']
    exact foldlM_dispatch_eq_ok_iff

theorem sortByVersion_perm (events : List (DomainEvent P)) : (sortByVersion events).Perm events :=
  List.mergeSort_perm ..

/-- An aggregate is replayed to the highest version of its events. -/
theorem version_of_replay {id : AggregateId} {events : List (DomainEvent P)}
    (h : replay b id events = .ok a) (hne : events ≠ []) :
    (∀ e ∈ events, e.versionNumber ≤ a.version) ∧ ∃ e ∈ events, e.versionNumber = a.version := by
  obtain ⟨state, -, hfollows, rfl⟩ := replay_eq_ok_iff.mp h
  have hperm := sortByVersion_perm events
  have hsome : sortByVersion events ≠ [] := fun hnil =>
    hne (List.perm_nil.mp (hnil ▸ hperm.symm))
  obtain ⟨l, last, hsorted⟩ := (List.eq_nil_or_concat' _).resolve_left hsome
  have hincreasing := hfollows.increasing
  rw [hsorted] at hincreasing hperm
  rw [foldl_advance_version, hsorted, List.getLast?_concat, Option.map_some, Option.getD_some]
  refine ⟨fun e he => ?_, last, hperm.mem_iff.mp (by simp), rfl⟩
  rcases List.mem_append.mp (hperm.mem_iff.mpr he) with he | he
  · exact Nat.le_of_lt ((List.pairwise_append.mp hincreasing).2.2 e he last (by simp))
  · exact Nat.le_of_eq (by rw [List.mem_singleton.mp he])

/-- A history that follows the new aggregate may be given in any order. -/
theorem replay_of_perm {id : AggregateId} {state : S} {events sorted : List (DomainEvent P)}
    (hcreate : b.create id = some state) (hperm : events.Perm sorted)
    (hfollows : (fresh id state : Aggregate S P).Follows sorted) :
    replay b id events = .ok (sorted.foldl (advance b) (fresh id state)) := by
  rw [replay, hcreate, sortByVersion_eq_of_perm hperm hfollows.increasing]
  exact (AggregateM.outcome_forM ..).trans (foldlM_dispatch_of_follows hfollows)

end Aggregate

end EventStore
