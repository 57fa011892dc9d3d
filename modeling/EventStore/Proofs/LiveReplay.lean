import EventStore.Accounts.Account
import EventStore.Proofs.Dispatch

/-!
# Live state is replayed state

A `Life` is an aggregate in use, with all events that it has accepted.

Proved here:

* `after_cases`: all that a change can do;
* `foldlM_accepted_run`: whatever is done to an aggregate, the accepted events lead from it as it
  was to it as it is, its queue apart;
* `replay_accepted_in_any_order`: so they replay to it, in any order.
-/

namespace EventStore

/-- What may be done to an aggregate in use. -/
inductive Change (P : Type) where
  | apply (stamp : Stamp) (e : DomainEvent P) (actor : Option ActorId) (time : Option Instant)
  | raise (stamp : Stamp) (payload : P)
  | clear

/-- An aggregate in use, with all events that it has accepted. -/
structure Life (S P : Type) where
  aggregate : Aggregate S P
  accepted : List (RecordedEvent P) := []

open Aggregate

variable {S P : Type} {b : Blueprint S P}

namespace Change

def act (b : Blueprint S P) : Change P → AggregateM S P Unit
  | .apply stamp e actor time => AggregateM.applyChange b stamp e actor time
  | .raise stamp payload => AggregateM.raise b stamp payload
  | .clear => modify Aggregate.clearChanges

/-- The event that a change proposes to an aggregate, its envelope filled in. -/
def proposal? (a : Aggregate S P) : Change P → Option (RecordedEvent P)
  | .apply stamp e actor time => some (a.complete stamp actor time e)
  | .raise stamp payload => some (a.complete stamp none none (.ofPayload payload))
  | .clear => none

/-- What is done with an event depends on the completed event alone. -/
theorem act_of_proposal {a : Aggregate S P} {c : Change P} {e : RecordedEvent P}
    (h : c.proposal? a = some e) : c.act b a = AggregateM.record b e a := by
  cases c with
  | clear => cases h
  | apply | raise =>
    obtain rfl := Option.some.inj h
    rfl

end Change

namespace Life

/-- The aggregate is as the change leaves it, also where the change fails. What the change has put
at the end of the queue has been accepted. -/
def after (b : Blueprint S P) (life : Life S P) (c : Change P) : Life S P :=
  let a := (c.act b life.aggregate).2
  ⟨a, life.accepted ++ a.pending.drop life.aggregate.pending.length⟩

def run (b : Blueprint S P) (life : Life S P) (changes : List (Change P)) : Life S P :=
  changes.foldl (after b) life

/-! ## One change -/

/-- The life right after an event was accepted. -/
def accept (b : Blueprint S P) (life : Life S P) (e : RecordedEvent P) : Life S P where
  aggregate :=
    { life.aggregate.advance b e.event with pending := life.aggregate.pending ++ [e] }
  accepted := life.accepted ++ [e]

theorem after_of_accepts {life : Life S P} {c : Change P} {e : RecordedEvent P}
    (hproposal : c.proposal? life.aggregate = some e) (hacc : life.aggregate.Accepts e.event) :
    life.after b c = life.accept b e := by
  rw [after, Change.act_of_proposal hproposal, AggregateM.record_of_accepts hacc]
  simp [accept, advance]

/-- Nothing is written before the checks of an event, so a rejected one leaves all as it is. -/
theorem after_of_not_accepts {life : Life S P} {c : Change P} {e : RecordedEvent P}
    (hproposal : c.proposal? life.aggregate = some e) (hacc : ¬ life.aggregate.Accepts e.event) :
    life.after b c = life := by
  obtain ⟨x, hx⟩ := AggregateM.record_of_not_accepts (b := b) hacc
  rw [after, Change.act_of_proposal hproposal, hx]
  simp

theorem after_clear (life : Life S P) :
    life.after b .clear = ⟨life.aggregate.clearChanges, life.accepted⟩ := by
  show Life.mk life.aggregate.clearChanges (life.accepted ++ List.drop _ []) = _
  rw [List.drop_nil, List.append_nil]

/-- All that a change can do. -/
theorem after_cases (b : Blueprint S P) (life : Life S P) (c : Change P) :
    (∃ e, c.proposal? life.aggregate = some e ∧ life.aggregate.Accepts e.event ∧
      life.after b c = life.accept b e) ∨
    (∃ e, c.proposal? life.aggregate = some e ∧ ¬ life.aggregate.Accepts e.event ∧
      life.after b c = life) ∨
    (c = .clear ∧ life.after b c = ⟨life.aggregate.clearChanges, life.accepted⟩) := by
  cases hproposal : c.proposal? life.aggregate with
  | none =>
    cases c with
    | apply | raise => cases hproposal
    | clear => exact Or.inr (Or.inr ⟨rfl, after_clear life⟩)
  | some e =>
    by_cases hacc : life.aggregate.Accepts e.event
    · exact Or.inl ⟨e, rfl, hacc, after_of_accepts hproposal hacc⟩
    · exact Or.inr (Or.inl ⟨e, rfl, hacc, after_of_not_accepts hproposal hacc⟩)

/-! ## A whole life -/

/-- The accepted events lead from an aggregate to the present one. -/
def LeadsFrom (b : Blueprint S P) (start : Aggregate S P) (life : Life S P) : Prop :=
  (life.accepted.map (·.event)).foldlM (dispatch b) start.clearChanges =
    .ok life.aggregate.clearChanges

theorem leadsFrom_after {start : Aggregate S P} {life : Life S P}
    (h : life.LeadsFrom b start) (c : Change P) : (life.after b c).LeadsFrom b start := by
  rcases after_cases b life c with ⟨e, -, hacc, heq⟩ | ⟨e, -, -, heq⟩ | ⟨-, heq⟩
  · rw [heq]
    unfold LeadsFrom at h ⊢
    rw [accept, List.map_append, List.foldlM_append, h]
    simp only [bind, Except.bind, List.map_cons, List.map_nil, List.foldlM_cons, List.foldlM_nil,
      dispatch_clearChanges, dispatch_of_accepts hacc, Except.map, pure, Except.pure]
    rfl
  · rw [heq]
    exact h
  · rw [heq]
    exact h

theorem leadsFrom_run {start : Aggregate S P} (changes : List (Change P)) {life : Life S P}
    (h : life.LeadsFrom b start) : (life.run b changes).LeadsFrom b start := by
  induction changes generalizing life with
  | nil => exact h
  | cons c l ih => exact ih (leadsFrom_after h c)

theorem foldlM_accepted_run (a : Aggregate S P) (changes : List (Change P)) :
    (((Life.mk a []).run b changes).accepted.map (·.event)).foldlM (dispatch b) a.clearChanges =
      .ok ((Life.mk a []).run b changes).aggregate.clearChanges :=
  leadsFrom_run changes rfl

/-! ## Live and replayed -/

/-- Two attempts at one event: both accepted, with the same effect and the same event queued, or
both rejected for the same reason. -/
def SameOutcome :
    Except AggregateError (Aggregate S P) → Except AggregateError (Aggregate S P) → Prop
  | .ok a, .ok a' => a.clearChanges = a'.clearChanges ∧ a.pending.getLast? = a'.pending.getLast?
  | .error e, .error e' => e = e'
  | _, _ => False

theorem sameOutcome_clearChanges (a : Aggregate S P) (stamp : Stamp) (e : DomainEvent P)
    (actor : Option ActorId) (time : Option Instant) :
    SameOutcome (a.applyChange b stamp e actor time)
      (a.clearChanges.applyChange b stamp e actor time) := by
  have hsame : a.clearChanges.complete stamp actor time e = a.complete stamp actor time e := rfl
  rw [applyChange_eq, applyChange_eq, hsame, dispatch_clearChanges]
  cases a.dispatch b (a.complete stamp actor time e).event with
  | error x => rfl
  | ok a' => exact ⟨rfl, by simp [clearChanges]⟩

/-- The events that an aggregate has accepted, in any order, replay to the aggregate as it is, with
nothing queued; from there on both meet every event alike. -/
theorem replay_accepted_in_any_order (b : Blueprint S P) (id : AggregateId) (state : S)
    (hcreate : b.create id = some state) (changes : List (Change P)) (events : List (DomainEvent P))
    (hperm : events.Perm (((Life.mk (fresh id state) []).run b changes).accepted.map (·.event))) :
    let live := ((Life.mk (fresh id state) []).run b changes).aggregate
    ∃ replayed, replay b id events = .ok replayed ∧
      replayed.id = live.id ∧ replayed.state = live.state ∧ replayed.version = live.version ∧
      replayed.isDeleted = live.isDeleted ∧ replayed.pending = [] ∧
      ∀ stamp e actor time, SameOutcome (live.applyChange b stamp e actor time)
        (replayed.applyChange b stamp e actor time) := by
  intro live
  have hlead : (((Life.mk (fresh id state) []).run b changes).accepted.map (·.event)).foldlM
      (dispatch b) (fresh id state) = .ok live.clearChanges :=
    foldlM_accepted_run (fresh id state) changes
  obtain ⟨hfollows, heq⟩ := foldlM_dispatch_eq_ok_iff.mp hlead
  refine ⟨live.clearChanges, ?_, rfl, rfl, rfl, rfl, rfl, fun stamp e actor time => ?_⟩
  · rw [heq]
    exact replay_of_perm hcreate hperm hfollows
  · exact sameOutcome_clearChanges live stamp e actor time

open Accounts

def annsId : AggregateId := ⟨"ann", by decide, by decide, by decide⟩

/-- A first event at version 0, a second one there, which is rejected, and a gap after that. -/
def annsChanges : List (Change AccountEvent) :=
  [.apply ⟨⟨1⟩, .epoch⟩ { version := some 0, payload := .opened "Ann" 5 } none none,
   .apply ⟨⟨2⟩, .epoch⟩ { version := some 0, payload := .renamed "Bea" } none none,
   .apply ⟨⟨3⟩, .epoch⟩ { version := some 7, deleteAction := .delete, payload := .closed } none
    none,
   .clear,
   .raise ⟨⟨4⟩, .epoch⟩ (.moneyDeposited 3)]

/-- The accepted events, out of order. -/
def annsEvents : List (DomainEvent AccountEvent) :=
  [{ id := some ⟨4⟩, aggregateId := some annsId, version := some 8, actorId := some .system
     occurredOn := some .epoch, payload := .moneyDeposited 3 },
   { id := some ⟨1⟩, aggregateId := some annsId, version := some 0, actorId := some .system
     occurredOn := some .epoch, payload := .opened "Ann" 5 },
   { id := some ⟨3⟩, aggregateId := some annsId, version := some 7, actorId := some .system
     occurredOn := some .epoch, deleteAction := .delete, payload := .closed }]

theorem anns_events_replay :
    let life := (Life.mk (fresh annsId {}) []).run Account.blueprint annsChanges
    Account.blueprint.create annsId = some {} ∧
      annsEvents.Perm (life.accepted.map (·.event)) ∧
      ∃ replayed, replay Account.blueprint annsId annsEvents = .ok replayed ∧
        replayed.id = life.aggregate.id ∧ replayed.state = life.aggregate.state ∧
        replayed.version = life.aggregate.version ∧
        replayed.isDeleted = life.aggregate.isDeleted ∧ replayed.pending = [] ∧
        ∀ stamp e actor time,
          SameOutcome (life.aggregate.applyChange Account.blueprint stamp e actor time)
            (replayed.applyChange Account.blueprint stamp e actor time) :=
  have hcreate : Account.blueprint.create annsId = some {} := by decide
  have hperm : annsEvents.Perm (((Life.mk (fresh annsId {}) []).run Account.blueprint
      annsChanges).accepted.map (·.event)) := by decide
  ⟨hcreate, hperm,
    replay_accepted_in_any_order Account.blueprint annsId {} hcreate annsChanges annsEvents hperm⟩

end Life

end EventStore
