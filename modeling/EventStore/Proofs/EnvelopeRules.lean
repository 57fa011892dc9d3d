import EventStore.Proofs.LiveReplay

/-!
# The rules of the envelope

An aggregate in use began as a new one, or was replayed. Its history are the events that led to it
and all that it has accepted since.

Proved here:

* `foldlM_history`: whatever was done to an aggregate, its history leads to it from a new one;
* `queued_run`: its queue holds what was given and accepted since it was last cleared;
* `envelope_is_kept`: so its identity, version, deletion flag and queue are those that its history
  tells (`Governed`), and its next event is judged by the same rules (`Judges`).
-/

namespace EventStore

open Aggregate

variable {S P : Type} {b : Blueprint S P}

/-! ## What an event says -/

namespace DomainEvent

/-- Nothing is missing from the envelope. -/
structure Filled (e : DomainEvent P) : Prop where
  id : e.id.isSome
  aggregateId : e.aggregateId.isSome
  version : e.version.isSome
  actorId : e.actorId.isSome
  occurredOn : e.occurredOn.isSome

/-- An event that says all that another one says; what that one leaves open may be filled in. -/
structure Keeps (e given : DomainEvent P) : Prop where
  id : ∀ i, given.id = some i → e.id = some i
  aggregateId : ∀ i, given.aggregateId = some i → e.aggregateId = some i
  version : ∀ v, given.version = some v → e.version = some v
  actorId : ∀ i, given.actorId = some i → e.actorId = some i
  occurredOn : ∀ t, given.occurredOn = some t → e.occurredOn = some t
  deleteAction : e.deleteAction = given.deleteAction
  payload : e.payload = given.payload

/-- Whether the last event that has an effect on deletion deletes. -/
def deletedBy (events : List (DomainEvent P)) : Bool :=
  (events.reverse.find? (·.deleteAction ≠ .none)).any (·.deleteAction = .delete)

theorem deletedBy_concat (events : List (DomainEvent P)) (e : DomainEvent P) :
    deletedBy (events ++ [e]) = e.deleteAction.apply (deletedBy events) := by
  unfold deletedBy
  rw [List.reverse_concat, List.find?_cons]
  cases h : e.deleteAction <;> simp [h, DeleteAction.apply]

end DomainEvent

theorem RecordedEvent.filled (e : RecordedEvent P) : e.event.Filled := ⟨rfl, rfl, rfl, rfl, rfl⟩

namespace Change

/-- The event that a caller gives, with the actor and the time given beside it. -/
def given? : Change P → Option (DomainEvent P)
  | .apply _ e actor time =>
    some { e with actorId := e.actorId.or actor, occurredOn := e.occurredOn.or time }
  | .raise _ payload => some (.ofPayload payload)
  | .clear => none

/-- What the engine answers to an event. -/
def result? (b : Blueprint S P) (a : Aggregate S P) :
    Change P → Option (Except AggregateError (Aggregate S P))
  | .apply stamp e actor time => some (a.applyChange b stamp e actor time)
  | .raise stamp payload => some (a.raise b stamp payload)
  | .clear => none

def isClear : Change P → Bool
  | .clear => true
  | _ => false

/-- The changes after the last one that cleared the queue. -/
def sinceClear (changes : List (Change P)) : List (Change P) :=
  (changes.reverse.takeWhile (!·.isClear)).reverse

theorem sinceClear_concat {c : Change P} (hc : c.isClear = false) (changes : List (Change P)) :
    sinceClear (changes ++ [c]) = sinceClear changes ++ [c] := by
  simp [sinceClear, hc]

variable {a : Aggregate S P} {c : Change P} {e : RecordedEvent P}

theorem isClear_of_proposal (h : c.proposal? a = some e) : c.isClear = false := by
  cases c with
  | clear => cases h
  | apply | raise => rfl

/-- Filling in the envelope of an event changes nothing that its caller said. -/
theorem keeps_of_proposal (h : c.proposal? a = some e) :
    ∃ given, c.given? = some given ∧ e.event.Keeps given := by
  cases c with
  | clear => cases h
  | apply stamp given actor time =>
    obtain rfl := Option.some.inj h
    refine ⟨_, rfl, ?_, ?_, ?_, ?_, ?_, rfl, rfl⟩ <;> intro x hx
    · have hid : given.id = some x := hx
      simp [complete, RecordedEvent.event, hid]
    · have howner : given.aggregateId = some x := hx
      simp [complete, RecordedEvent.event, howner]
    · have hversion : given.version = some x := hx
      simp [complete, RecordedEvent.event, hversion]
    · have hactor : given.actorId.or actor = some x := hx
      simp [complete, RecordedEvent.event, hactor]
    · have htime : given.occurredOn.or time = some x := hx
      simp [complete, RecordedEvent.event, htime]
  | raise stamp payload =>
    obtain rfl := Option.some.inj h
    -- Nothing is given but the payload.
    have hopen {α : Type} {Q : Prop} : ∀ x : α, none = some x → Q := nofun
    exact ⟨_, rfl, fun _ => hopen _, fun _ => hopen _, fun _ => hopen _, fun _ => hopen _,
      fun _ => hopen _, rfl, rfl⟩

/-- The answer to an event follows from the completed event alone. -/
theorem result_of_proposal (h : c.proposal? a = some e) :
    c.result? b a = some ((a.dispatch b e.event).map fun a' =>
      { a' with pending := a'.pending ++ [e] }) := by
  cases c with
  | clear => cases h
  | apply | raise =>
    obtain rfl := Option.some.inj h
    exact congrArg some (AggregateM.outcome_record _ a)

end Change

/-! ## Histories -/

namespace Aggregate

variable {a : Aggregate S P}

/-- An aggregate that is new, or was replayed, and the events that led to it in their order. -/
inductive Begins (b : Blueprint S P) (id : AggregateId) :
    Aggregate S P → List (DomainEvent P) → Prop where
  | fresh (state : S) : Begins b id (fresh id state) []
  | replayed {events : List (DomainEvent P)} {a : Aggregate S P}
      (h : replay b id events = .ok a) : Begins b id a (sortByVersion events)

theorem Begins.foldlM_eq {id : AggregateId} {events : List (DomainEvent P)}
    (h : Begins b id a events) :
    ∃ state, events.foldlM (dispatch b) (Aggregate.fresh id state) = .ok a ∧ a.pending = [] := by
  cases h with
  | fresh state => exact ⟨state, rfl, rfl⟩
  | replayed h =>
    obtain ⟨state, -, hfollows, rfl⟩ := replay_eq_ok_iff.mp h
    exact ⟨state, foldlM_dispatch_of_follows hfollows, foldl_advance_pending _⟩

theorem foldl_advance_applied (events : List (DomainEvent P)) :
    (events.foldl (advance b) a).applied = (a.applied || !events.isEmpty) := by
  cases events using List.reverseRecOn with
  | nil => simp
  | append_singleton l e => simp [List.foldl_append, advance]

/-- The deletion flag after events is set by the last one that has an effect on it. -/
theorem foldl_advance_isDeleted (h : a.isDeleted = false) (events : List (DomainEvent P)) :
    (events.foldl (advance b) a).isDeleted = DomainEvent.deletedBy events := by
  induction events using List.reverseRecOn with
  | nil => exact h
  | append_singleton l e ih =>
    rw [List.foldl_append, DomainEvent.deletedBy_concat, ← ih]
    rfl

end Aggregate

namespace Life

variable {id : AggregateId} {a : Aggregate S P} {events : List (DomainEvent P)}

theorem run_concat (life : Life S P) (changes : List (Change P)) (c : Change P) :
    life.run b (changes ++ [c]) = (life.run b changes).after b c :=
  List.foldl_concat _ _ _ _

/-- The history of an aggregate leads to it from a new one. -/
theorem foldlM_history (h : Begins b id a events) (changes : List (Change P)) :
    let life := (Life.mk a []).run b changes
    ∃ state, (events ++ life.accepted.map (·.event)).foldlM (dispatch b) (fresh id state) =
      .ok life.aggregate.clearChanges := by
  intro life
  obtain ⟨state, hevents, hpending⟩ := h.foldlM_eq
  have hclear : a.clearChanges = a := by rw [clearChanges, ← hpending]
  have haccepted := foldlM_accepted_run (b := b) a changes
  rw [hclear] at haccepted
  refine ⟨state, ?_⟩
  rw [List.foldlM_append, hevents]
  exact haccepted

/-- The queue holds events that were given since it was last cleared, in their order. -/
def Queued (changes : List (Change P)) (pending : List (RecordedEvent P)) : Prop :=
  ∃ given, given.Sublist ((Change.sinceClear changes).filterMap Change.given?) ∧
    List.Forall₂ (fun e g => e.event.Keeps g) pending given

theorem queued_run (ha : a.pending = []) (changes : List (Change P)) :
    let life := (Life.mk a []).run b changes
    life.aggregate.pending <:+ life.accepted ∧ Queued changes life.aggregate.pending := by
  induction changes using List.reverseRecOn with
  | nil =>
    show a.pending <:+ [] ∧ Queued [] a.pending
    rw [ha]
    exact ⟨List.suffix_refl [], [], List.nil_sublist _, .nil⟩
  | append_singleton changes c ih =>
    obtain ⟨⟨earlier, hsuffix⟩, given, hsublist, hkeeps⟩ := ih
    dsimp only
    rw [run_concat]
    rcases after_cases b ((Life.mk a []).run b changes) c with
      ⟨e, hproposal, -, heq⟩ | ⟨e, hproposal, -, heq⟩ | ⟨rfl, heq⟩ <;> rw [heq]
    · obtain ⟨g, hg, hkeep⟩ := Change.keeps_of_proposal hproposal
      refine ⟨⟨earlier, ?_⟩, given ++ [g], ?_, List.rel_append hkeeps (.cons hkeep .nil)⟩
      · rw [accept, ← List.append_assoc, hsuffix]
      · rw [Change.sinceClear_concat (Change.isClear_of_proposal hproposal),
          List.filterMap_append]
        exact hsublist.append (by simp [hg])
    · refine ⟨⟨earlier, hsuffix⟩, given, ?_, hkeeps⟩
      rw [Change.sinceClear_concat (Change.isClear_of_proposal hproposal), List.filterMap_append]
      exact hsublist.trans (List.sublist_append_left _ _)
    · exact ⟨List.nil_suffix, [], List.nil_sublist _, .nil⟩

/-! ## The rules -/

/-- What is always true of an aggregate with a history and with the changes made to it. -/
structure Governed (id : AggregateId) (history : List (DomainEvent P))
    (changes : List (Change P)) (a : Aggregate S P) : Prop where
  id_eq : a.id = id
  version_eq : a.version = (history.getLast?.map (·.versionNumber)).getD 0
  isDeleted_eq : a.isDeleted = DomainEvent.deletedBy history
  filled : ∀ e ∈ a.pending, e.event.Filled
  own : ∀ e ∈ a.pending, e.aggregateId = id
  queued : Queued changes a.pending
  increasing : a.pending.Pairwise fun e f => e.version < f.version
  last : ∀ e ∈ a.pending.getLast?, e.version = a.version

/-- What becomes of an event, given with its envelope filled in, and of the aggregate. -/
structure Judges (b : Blueprint S P) (id : AggregateId) (history : List (DomainEvent P))
    (life : Life S P) (c : Change P) (e : RecordedEvent P)
    (result : Except AggregateError (Aggregate S P)) : Prop where
  ok_iff : (∃ a, result = .ok a) ↔ e.aggregateId = id ∧
    (life.aggregate.version < e.version ∨ life.aggregate.version = e.version ∧ history = [])
  accepted : ∀ a, result = .ok a → life.after b c = life.accept b e
  rejected : ∀ x, result = .error x → life.after b c = life
  /-- Whatever the version is. -/
  mismatch : e.aggregateId ≠ id → result = .error (.eventAggregateMismatch b.name id.text
    (some e.aggregateId.text) (some e.id) (b.eventType e.payload) e.version)

theorem governed_of_history {history : List (DomainEvent P)} {changes : List (Change P)}
    {life : Life S P} {state : S} (hevents : events ++ life.accepted.map (·.event) = history)
    (h : history.foldlM (dispatch b) (fresh id state) = .ok life.aggregate.clearChanges)
    (hsuffix : life.aggregate.pending <:+ life.accepted)
    (hqueued : Queued changes life.aggregate.pending) :
    Governed id history changes life.aggregate := by
  obtain ⟨hfollows, hlive⟩ := foldlM_dispatch_eq_ok_iff.mp h
  have hid := (congrArg Aggregate.id hlive).trans (foldl_advance_id history)
  have hversion := (congrArg Aggregate.version hlive).trans (foldl_advance_version history)
  have hdeleted := (congrArg Aggregate.isDeleted hlive).trans (foldl_advance_isDeleted rfl history)
  have hmem : ∀ e ∈ life.aggregate.pending, e.event ∈ history := fun e he =>
    hevents ▸ List.mem_append_right _ (List.mem_map_of_mem (hsuffix.subset he))
  refine ⟨hid, hversion, hdeleted, fun e _ => e.filled, fun e he => ?_, hqueued, ?_, ?_⟩
  · exact Option.some.inj (hfollows.accepts e.event (hmem e he)).1
  · have hincreasing := hfollows.increasing
    rw [← hevents] at hincreasing
    have haccepted := (List.pairwise_append.mp hincreasing).2.1
    exact (List.pairwise_map.mp haccepted).sublist hsuffix.sublist
  · intro e he
    obtain ⟨earlier, hsuffix⟩ := hsuffix
    obtain ⟨pending, hpending⟩ := List.getLast?_eq_some_iff.mp he
    have hlast : history.getLast? = some e.event := by
      rw [← hevents, ← hsuffix, hpending]
      simp
    have hcurrent : life.aggregate.version = _ := hversion
    rw [hcurrent, hlast]
    rfl

theorem judges_of_history {history : List (DomainEvent P)} {life : Life S P} {state : S}
    (h : history.foldlM (dispatch b) (fresh id state) = .ok life.aggregate.clearChanges)
    {c : Change P} {e : RecordedEvent P} {result : Except AggregateError (Aggregate S P)}
    (hproposal : c.proposal? life.aggregate = some e)
    (hresult : c.result? b life.aggregate = some result) :
    Judges b id history life c e result := by
  obtain ⟨-, hlive⟩ := foldlM_dispatch_eq_ok_iff.mp h
  have hid : life.aggregate.id = id :=
    (congrArg Aggregate.id hlive).trans (foldl_advance_id history)
  have happlied : life.aggregate.applied = !history.isEmpty :=
    (congrArg Aggregate.applied hlive).trans (foldl_advance_applied history)
  have haccepts : life.aggregate.Accepts e.event ↔ e.aggregateId = id ∧
      (life.aggregate.version < e.version ∨
        life.aggregate.version = e.version ∧ history = []) := by
    simp [Accepts, Admits, RecordedEvent.event, DomainEvent.versionNumber, hid, happlied]
  rw [Change.result_of_proposal hproposal] at hresult
  obtain rfl := Option.some.inj hresult
  by_cases hacc : life.aggregate.Accepts e.event
  · have hafter := after_of_accepts (b := b) hproposal hacc
    rw [dispatch_of_accepts hacc]
    refine ⟨iff_of_true ⟨_, rfl⟩ (haccepts.mp hacc), fun _ _ => hafter, fun x hx => ?_,
      fun hne => ?_⟩
    · cases hx
    · exact absurd (haccepts.mp hacc).1 hne
  · have hafter := after_of_not_accepts (b := b) hproposal hacc
    refine ⟨iff_of_false ?_ (haccepts.not.mp hacc), ?_, fun _ _ => hafter, fun hne => ?_⟩
    · rintro ⟨a', ha'⟩
      obtain ⟨a₀, hdispatch, -⟩ := except_map_eq_ok_iff.mp ha'
      exact hacc (accepts_of_dispatch hdispatch)
    · intro a' ha'
      obtain ⟨a₀, hdispatch, -⟩ := except_map_eq_ok_iff.mp ha'
      exact absurd (accepts_of_dispatch hdispatch) hacc
    · have howner : e.event.aggregateId ≠ some life.aggregate.id := fun howner =>
        hne ((Option.some.inj howner).trans hid)
      rw [dispatch, AggregateM.outcome, AggregateM.dispatch_apply, if_pos howner, hid]
      rfl

/-- Whatever is done to an aggregate that is new or was replayed, the rules of the envelope hold of
it, and its next event is judged by them. -/
theorem envelope_is_kept (h : Begins b id a events) (changes : List (Change P)) :
    let life := (Life.mk a []).run b changes
    let history := events ++ life.accepted.map (·.event)
    Governed id history changes life.aggregate ∧
      ∀ c e result, c.proposal? life.aggregate = some e → c.result? b life.aggregate = some result →
        Judges b id history life c e result := by
  intro life history
  obtain ⟨state, hhistory⟩ := foldlM_history h changes
  obtain ⟨-, -, hpending⟩ := h.foldlM_eq
  obtain ⟨hsuffix, hqueued⟩ := queued_run (b := b) hpending changes
  exact ⟨governed_of_history rfl hhistory hsuffix hqueued, fun _ _ _ => judges_of_history hhistory⟩

open Accounts

/-- The accepted events of `annsEvents` in their order. -/
def annsHistory : List (DomainEvent AccountEvent) :=
  [{ id := some ⟨1⟩, aggregateId := some annsId, version := some 0, actorId := some .system
     occurredOn := some .epoch, payload := .opened "Ann" 5 },
   { id := some ⟨3⟩, aggregateId := some annsId, version := some 7, actorId := some .system
     occurredOn := some .epoch, deleteAction := .delete, payload := .closed },
   { id := some ⟨4⟩, aggregateId := some annsId, version := some 8, actorId := some .system
     occurredOn := some .epoch, payload := .moneyDeposited 3 }]

/-- The account that these events lead to, which is deleted. -/
def annsReplayed : Aggregate Account AccountEvent :=
  annsHistory.foldl (advance Account.blueprint) (fresh annsId {})

theorem begins_annsReplayed :
    Begins Account.blueprint annsId annsReplayed (sortByVersion annsEvents) := by
  have hcreate : Account.blueprint.create annsId = some {} := by decide
  have hperm : annsEvents.Perm annsHistory := by decide
  have howner : ∀ e ∈ annsHistory, e.aggregateId = some annsId := by decide
  have hincreasing : annsHistory.Pairwise fun e f => e.versionNumber < f.versionNumber := by decide
  exact .replayed (replay_of_perm hcreate hperm (follows_fresh howner hincreasing))

/-- An event of another account, one at a version that is past, one that restores the account with
an actor and a gap, and one after that. -/
def annsLaterChanges : List (Change AccountEvent) :=
  [.apply ⟨⟨5⟩, .epoch⟩ { aggregateId := some ⟨"cal", by decide, by decide, by decide⟩
                          payload := .closed } none none,
   .apply ⟨⟨6⟩, .epoch⟩ { version := some 8, payload := .closed } none none,
   .apply ⟨⟨7⟩, .epoch⟩ { version := some 12, deleteAction := .undelete, payload := .reopened }
    (some ⟨"cal", by decide, by decide, by decide⟩) none,
   .raise ⟨⟨8⟩, .epoch⟩ (.moneyDeposited 4)]

theorem anns_envelope_is_kept :
    let life := (Life.mk annsReplayed []).run Account.blueprint annsLaterChanges
    let history := sortByVersion annsEvents ++ life.accepted.map (·.event)
    Begins Account.blueprint annsId annsReplayed (sortByVersion annsEvents) ∧
      life.accepted.map (·.version) = [12, 13] ∧ life.aggregate.isDeleted = false ∧
      Governed annsId history annsLaterChanges life.aggregate ∧
      ∀ c e result, c.proposal? life.aggregate = some e →
        c.result? Account.blueprint life.aggregate = some result →
          Judges Account.blueprint annsId history life c e result :=
  ⟨begins_annsReplayed, by decide, by decide,
    envelope_is_kept begins_annsReplayed annsLaterChanges⟩

end Life

end EventStore
