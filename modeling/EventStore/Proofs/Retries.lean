import EventStore.Accounts.Outage
import EventStore.Proofs.MemoryRuns
import EventStore.Proofs.RoundTrip

/-!
# Saves that are tried again

A session is a slice of aggregates that its owner, who writes alone, saves again and again, while
events are raised between the attempts. The calls of the publisher are noted, each with its outcome.

Proved here, for every publisher:

* `forM_published_noted`: the calls for some events go through them in order, and end with the first
  one that fails;
* `Session.outcome_attempt`: all that an attempt can do;
* `Session.sound_of_runs`: in every session, an event that is stored is stored as its own row;
* `Session.Sound.append_again`: an attempt that was interrupted may be repeated;
* `Session.reliable_of_runs`: so each event is stored once, however many attempts it takes, and none
  is lost to the publisher.
-/

namespace EventStore

/-! ## Calls -/

/-- A call of a publisher, and what came of it. -/
structure Call (P : Type) where
  event : RecordedEvent P
  result : Except BusError Unit

/-- The publisher, with a note of each of its calls. -/
def Publisher.noted {P π : Type} (publisher : Publisher P π) : Publisher P (π × List (Call P)) where
  publish e := fun (p, calls) =>
    let (result, p) := publisher.publish e p
    (result, (p, calls ++ [⟨e, result⟩]))

/-- Calls that all succeed. -/
def delivered {P : Type} (events : List (RecordedEvent P)) : List (Call P) :=
  events.map fun e => ⟨e, .ok ()⟩

theorem forM_published_noted {S P σ π : Type} {r : Repository S P σ (π × List (Call P))}
    {publisher : Publisher P π} (hr : r.publisher = publisher.noted)
    (events : List (RecordedEvent P)) (s : σ) (p : π) (calls : List (Call P)) :
    (∃ p', (events.forM r.published : RepositoryM σ _ Unit) (s, (p, calls)) =
      (.ok (), (s, (p', calls ++ delivered events)))) ∨
    ∃ before e rest x p', events = before ++ e :: rest ∧
      (events.forM r.published : RepositoryM σ _ Unit) (s, (p, calls)) =
        (.error (.publish x), (s, (p', calls ++ delivered before ++ [⟨e, .error x⟩]))) := by
  induction events generalizing p calls with
  | nil => exact Or.inl ⟨p, by rw [delivered, List.map_nil, List.append_nil]; rfl⟩
  | cons e events ih =>
    cases hpublish : publisher.publish e p with
    | mk result p₁ =>
      cases result with
      | error x =>
        have hcall : r.published e (s, (p, calls)) =
            (.error (.publish x), (s, (p₁, calls ++ [⟨e, .error x⟩]))) := by
          simp only [Repository.published, hr, Publisher.noted, hpublish]
        refine Or.inr ⟨[], e, events, x, p₁, rfl, (bind_of_error hcall).trans ?_⟩
        rw [delivered, List.map_nil, List.append_nil]
      | ok _ =>
        have hcall : r.published e (s, (p, calls)) =
            (.ok (), (s, (p₁, calls ++ [⟨e, .ok ()⟩]))) := by
          simp only [Repository.published, hr, Publisher.noted, hpublish]
        have happend : ∀ l, calls ++ [⟨e, .ok ()⟩] ++ delivered l = calls ++ delivered (e :: l) :=
          fun l => by rw [List.append_assoc]; rfl
        rcases ih p₁ (calls ++ [⟨e, .ok ()⟩]) with
          ⟨p₂, hrest⟩ | ⟨before, f, rest, x, p₂, rfl, hrest⟩
        · rw [happend] at hrest
          exact Or.inl ⟨p₂, (bind_of_ok hcall).trans hrest⟩
        · rw [happend] at hrest
          exact Or.inr ⟨e :: before, f, rest, x, p₂, rfl, (bind_of_ok hcall).trans hrest⟩

/-! ## Sessions -/

structure Session (S P π : Type) where
  store : MemoryStore
  bus : π
  slice : List (Aggregate S P)
  /-- All calls of the publisher so far. -/
  calls : List (Call P) := []

variable {S P π : Type} (m : Mapping S P) (publisher : Publisher P π)

namespace Session

/-- The pending events of the slice, in its order. -/
def pending (g : Session S P π) : List (RecordedEvent P) := g.slice.flatMap (·.pending)

/-- The first part of an attempt, which is to encode the pending events and to append their rows. -/
def append (g : Session S P π) : Except RepositoryError Bool × Session S P π :=
  match (m.inMemory publisher.noted).appendPending g.slice (g.store, (g.bus, g.calls)) with
  | (result, (store, (bus, calls))) => (result, { g with store, bus, calls })

/-- An attempt to save the slice. The owner goes on with the slice as the attempt leaves it. -/
def attempt (g : Session S P π) : Except RepositoryError Unit × Session S P π :=
  match (m.inMemory publisher.noted).saveAll (g.slice, (g.store, (g.bus, g.calls))) with
  | (result, (slice, (store, (bus, calls)))) => (result, ⟨store, bus, slice, calls⟩)

/-- A change to one aggregate of the slice. -/
def change (g : Session S P π) (i : Nat) (c : Change P) : Session S P π :=
  { g with slice := g.slice.modify i fun a => (Life.after m.blueprint ⟨a, []⟩ c).aggregate }

/-- What happens in a session: attempts, and between them events under ids that are made for them
and are not in use. -/
inductive Moves : Session S P π → Session S P π → Prop where
  | attempt (g : Session S P π) : Moves g (g.attempt m publisher).2
  | change (g : Session S P π) (i : Nat) (c : Change P) (unnamed : c.Unnamed)
      (new : ∀ id ∈ c.made, id ∉ g.store.rows.map (·.eventId)) : Moves g (g.change m i c)

def Runs : Session S P π → Session S P π → Prop := Relation.ReflTransGen (Moves m publisher)

/-! ## One attempt -/

/-- The outcomes of the append of an attempt and of the whole attempt. -/
inductive Outcome (g : Session S P π) :
    Except RepositoryError Bool × Session S P π → Except RepositoryError Unit × Session S P π →
      Prop where
  | refused (e : RepositoryError) : Outcome g (.error e, g) (.error e, g)
  | interrupted (any : Bool) (store : MemoryStore)
      (stored : g.store.append (g.pending.map m.rowOf) = .ok store) (bus : π)
      (before : List (RecordedEvent P)) (e : RecordedEvent P) (rest : List (RecordedEvent P))
      (x : BusError) (split : g.pending = before ++ e :: rest) :
      Outcome g (.ok any, { g with store })
        (.error (.publish x),
          { g with store, bus, calls := g.calls ++ delivered before ++ [⟨e, .error x⟩] })
  | saved (any : Bool) (store : MemoryStore)
      (stored : g.store.append (g.pending.map m.rowOf) = .ok store) (bus : π) :
      Outcome g (.ok any, { g with store })
        (.ok (), ⟨store, bus, g.slice.map Aggregate.clearChanges, g.calls ++ delivered g.pending⟩)

theorem outcome_attempt (g : Session S P π) :
    Outcome m g (g.append m publisher) (g.attempt m publisher) := by
  rcases Repository.appendPending_cases (r := m.inMemory publisher.noted) rfl g.slice g.store
    (g.bus, g.calls) with ⟨e, h⟩ | ⟨hnone, h⟩ | ⟨store, -, happend, -, h⟩
  · simp only [append, attempt, h, Repository.saveAll_of_refused h]
    exact .refused e
  · have hpending : g.pending = [] := List.flatMap_eq_nil_iff.mpr hnone
    have hclear : g.slice.map Aggregate.clearChanges = g.slice :=
      (List.map_congr_left fun a ha => Aggregate.clearChanges_of_none (hnone a ha)).trans
        (List.map_id _)
    have hsaved := Outcome.saved (m := m) (g := g) false g.store (by rw [hpending]; rfl) g.bus
    rw [hclear, hpending, delivered, List.map_nil, List.append_nil] at hsaved
    simp only [append, attempt, h, Repository.saveAll_of_none h]
    exact hsaved
  · rcases forM_published_noted (r := m.inMemory publisher.noted) rfl g.pending store g.bus g.calls
      with ⟨bus, hpublish⟩ | ⟨before, e, rest, x, bus, hsplit, hpublish⟩
    · simp only [append, attempt, h, Repository.saveAll_of_published h hpublish]
      exact .saved true store happend bus
    · simp only [append, attempt, h, Repository.saveAll_of_interrupted h hpublish]
      exact .interrupted true store happend bus before e rest x hsplit

/-! ## What every session keeps -/

variable {m publisher}

/-- A pending event that is stored is stored as its own row. -/
structure Sound (m : Mapping S P) (g : Session S P π) : Prop where
  holds : g.store.Holds g.store.rows
  own : ∀ e ∈ g.pending, ∀ r ∈ g.store.rows, r.eventId = e.id → r = m.rowOf e

variable {g g' : Session S P π} {appended : Except RepositoryError Bool × Session S P π}
  {saved : Except RepositoryError Unit × Session S P π}

/-- What is pending after a change was pending before, or is a new event. -/
theorem mem_pending_change {i : Nat} {c : Change P} (hc : c.Unnamed) {e : RecordedEvent P}
    (he : e ∈ (g.change m i c).pending) : e ∈ g.pending ∨ e.id ∈ c.made := by
  obtain ⟨b, hb, he⟩ := List.mem_flatMap.mp he
  obtain ⟨a, ha, rfl | rfl⟩ := mem_of_mem_modify hb
  · exact Or.inl (List.mem_flatMap.mpr ⟨b, ha, he⟩)
  · rcases Life.after_unnamed (b := m.blueprint) hc ⟨a, []⟩ with ⟨f, hmade, heq⟩ | heq
    · rw [heq] at he
      rcases List.mem_append.mp he with he | he
      · exact Or.inl (List.mem_flatMap.mpr ⟨a, ha, he⟩)
      · exact Or.inr (by rw [hmade, List.mem_singleton.mp he]; exact List.mem_singleton_self _)
    · rw [heq] at he
      exact Or.inl (List.mem_flatMap.mpr ⟨a, ha, he⟩)

/-- And nothing is lost by a change. -/
theorem mem_pending_change_of_mem (m : Mapping S P) (i : Nat) {c : Change P} (hc : c.Unnamed)
    {e : RecordedEvent P} (he : e ∈ g.pending) : e ∈ (g.change m i c).pending := by
  obtain ⟨a, ha, he⟩ := List.mem_flatMap.mp he
  refine List.mem_flatMap.mpr ?_
  rcases mem_modify_of_mem (fun a => (Life.after m.blueprint ⟨a, []⟩ c).aggregate) i ha with h | h
  · exact ⟨a, h, he⟩
  · refine ⟨_, h, ?_⟩
    rcases Life.after_unnamed (b := m.blueprint) hc ⟨a, []⟩ with ⟨f, -, heq⟩ | heq
    · rw [heq]
      exact List.mem_append_left _ he
    · rw [heq]
      exact he

theorem Sound.change (hg : g.Sound m) (i : Nat) {c : Change P} (hc : c.Unnamed)
    (hnew : ∀ id ∈ c.made, id ∉ g.store.rows.map (·.eventId)) : (g.change m i c).Sound m where
  holds := hg.holds
  own := by
    intro e he r hr hid
    rcases mem_pending_change hc he with he | hmade
    · exact hg.own e he r hr hid
    · exact absurd (List.mem_map.mpr ⟨r, hr, hid⟩) (hnew e.id hmade)

section Append

variable {store : MemoryStore} (happend : g.store.append (g.pending.map m.rowOf) = .ok store)

include happend

theorem Sound.rows_append (hg : g.Sound m) :
    store.rows = g.store.rows ++ newRows g.store.rows (g.pending.map m.rowOf) :=
  (hg.holds.of_append_eq_ok happend).2.rows_eq

theorem Sound.holds_append (hg : g.Sound m) : store.Holds store.rows := by
  rw [hg.rows_append happend]
  exact (hg.holds.of_append_eq_ok happend).2

/-- The event ids of a batch are distinct, so each of its rows is found by its event. -/
theorem Sound.own_append (hg : g.Sound m) :
    ∀ e ∈ g.pending, ∀ r ∈ store.rows, r.eventId = e.id → r = m.rowOf e := by
  intro e he r hr hid
  rw [hg.rows_append happend] at hr
  rcases List.mem_append.mp hr with hr | hr
  · exact hg.own e he r hr hid
  · exact List.inj_on_of_nodup_map (hg.holds.of_append_eq_ok happend).1.ids (mem_newRows.mp hr).1
      (List.mem_map_of_mem he) hid

/-- All pending events are stored, by this attempt or by one before it. -/
theorem Sound.stored_append (hg : g.Sound m) : ∀ e ∈ g.pending, m.rowOf e ∈ store.rows := by
  intro e he
  rw [hg.rows_append happend, List.mem_append]
  by_cases hmem : e.id ∈ g.store.rows.map (·.eventId)
  · obtain ⟨r, hr, hid⟩ := List.mem_map.mp hmem
    exact Or.inl (hg.own e he r hr hid ▸ hr)
  · exact Or.inr (mem_newRows.mpr ⟨List.mem_map_of_mem he, hmem⟩)

end Append

theorem pending_clearChanges (l : List (Aggregate S P)) :
    (l.map Aggregate.clearChanges).flatMap (·.pending) = [] := by
  simp [List.flatMap_map, Aggregate.clearChanges]

theorem Sound.outcome (hg : g.Sound m) (h : Outcome m g appended saved) : saved.2.Sound m := by
  cases h with
  | refused e => exact hg
  | interrupted any store stored bus before e rest x split =>
    have hown := hg.own_append stored
    exact ⟨hg.holds_append stored, hown⟩
  | saved any store stored bus =>
    refine ⟨hg.holds_append stored, fun e he => ?_⟩
    rw [pending, pending_clearChanges] at he
    cases he

theorem Sound.moves (hg : g.Sound m) (h : Moves m publisher g g') : g'.Sound m := by
  cases h with
  | attempt => exact hg.outcome (outcome_attempt m publisher g)
  | change i c unnamed new => exact hg.change i unnamed new

theorem sound_of_runs (hg : g.Sound m) (h : Runs m publisher g g') : g'.Sound m := by
  induction h with
  | refl => exact hg
  | tail _ hmove ih => exact ih.moves hmove

/-! ## Nothing is undone, and nothing is lost -/

theorem Sound.rows_prefix_outcome (hg : g.Sound m) (h : Outcome m g appended saved) :
    g.store.rows <+: saved.2.store.rows := by
  cases h with
  | refused e => exact List.prefix_rfl
  | interrupted any store stored =>
    rw [hg.rows_append stored]
    exact List.prefix_append _ _
  | saved any store stored =>
    rw [hg.rows_append stored]
    exact List.prefix_append _ _

theorem Sound.rows_prefix_moves (hg : g.Sound m) (h : Moves m publisher g g') :
    g.store.rows <+: g'.store.rows := by
  cases h with
  | attempt => exact hg.rows_prefix_outcome (outcome_attempt m publisher g)
  | change => exact List.prefix_rfl

theorem Sound.rows_prefix (hg : g.Sound m) (h : Runs m publisher g g') :
    g.store.rows <+: g'.store.rows := by
  induction h with
  | refl => exact List.prefix_rfl
  | tail hruns hmove ih => exact ih.trans ((sound_of_runs hg hruns).rows_prefix_moves hmove)

/-- An event is pending until a call of the publisher with it has succeeded. -/
theorem Outcome.pending_or_delivered (h : Outcome m g appended saved) {e : RecordedEvent P}
    (he : e ∈ g.pending ∨ ⟨e, .ok ()⟩ ∈ g.calls) :
    e ∈ saved.2.pending ∨ ⟨e, .ok ()⟩ ∈ saved.2.calls := by
  cases h with
  | refused => exact he
  | interrupted =>
    refine he.imp_right fun he => ?_
    exact List.mem_append_left _ (List.mem_append_left _ he)
  | saved =>
    refine Or.inr (List.mem_append.mpr ?_)
    exact he.symm.imp_right fun he => List.mem_map.mpr ⟨e, he, rfl⟩

theorem pending_or_delivered_moves (h : Moves m publisher g g') {e : RecordedEvent P}
    (he : e ∈ g.pending ∨ ⟨e, .ok ()⟩ ∈ g.calls) : e ∈ g'.pending ∨ ⟨e, .ok ()⟩ ∈ g'.calls := by
  cases h with
  | attempt => exact (outcome_attempt m publisher g).pending_or_delivered he
  | change i c unnamed => exact he.imp_left (mem_pending_change_of_mem m i unnamed)

theorem pending_or_delivered (h : Runs m publisher g g') {e : RecordedEvent P}
    (he : e ∈ g.pending) : e ∈ g'.pending ∨ ⟨e, .ok ()⟩ ∈ g'.calls := by
  induction h with
  | refl => exact Or.inl he
  | tail _ hmove ih => exact pending_or_delivered_moves hmove ih

/-! ## Appends that succeed -/

/-- What fits is stored if it can be encoded. -/
theorem Sound.append_of_fits (hg : g.Sound m) (henc : ∀ e ∈ g.pending, m.Encodes e.payload)
    (hfits : Fits g.store.rows (g.pending.map m.rowOf)) :
    ∃ any, (g.append m publisher).1 = .ok any := by
  obtain ⟨store, happend, -⟩ := hg.holds.append_of_fits hfits
  have hrows := Repository.mapM_pendingRows (r := m.inMemory publisher.noted) (l := g.slice)
    fun a ha e he => henc e (List.mem_flatMap.mpr ⟨a, ha, he⟩)
  by_cases hbatch : (m.inMemory publisher.noted).batch g.slice = []
  · have h := Repository.appendPending_of_none (r := m.inMemory publisher.noted) (s := g.store)
      (p := (g.bus, g.calls)) (Repository.batch_eq_nil_iff.mp hbatch)
    exact ⟨false, by simp only [append, h]⟩
  · have h := Repository.appendPending_of_ok (r := m.inMemory publisher.noted)
      (p := (g.bus, g.calls)) rfl hrows hbatch happend
    exact ⟨true, by simp only [append, h]⟩

/-- What was stored is passed over when it is appended again. -/
theorem Sound.append_again (hg : g.Sound m) {any : Bool}
    (happend : (g.append m publisher).1 = .ok any) (hslice : g'.slice = g.slice)
    (hstore : g'.store = (g.append m publisher).2.store) :
    g'.append m publisher = (.ok any, g') := by
  obtain ⟨store', bus', slice', calls'⟩ := g'
  obtain rfl : slice' = g.slice := hslice
  rcases Repository.appendPending_cases (r := m.inMemory publisher.noted) rfl g.slice g.store
    (g.bus, g.calls) with ⟨e, h⟩ | ⟨hnone, h⟩ | ⟨store, henc, hstored, hbatch, h⟩
  · simp only [append, h] at happend
    cases happend
  · simp only [append, h] at happend
    cases happend
    have hagain := Repository.appendPending_of_none (r := m.inMemory publisher.noted)
      (s := store') (p := (bus', calls')) hnone
    simp only [append, hagain]
  · simp only [append, h] at happend hstore
    cases happend
    subst hstore
    have hagain := Repository.appendPending_of_ok (r := m.inMemory publisher.noted)
      (p := (bus', calls')) rfl (Repository.mapM_pendingRows henc) hbatch
      (hg.holds.append_again hstored)
    simp only [append, hagain]

/-! ## Reliable saves -/

/-- A save of a session that goes past the append: all rows are stored before the first call, and
the calls go through the pending events in order, to the last one or to the first one that fails. -/
structure Published (m : Mapping S P) (g appended : Session S P π)
    (saved : Except RepositoryError Unit × Session S P π) : Prop where
  calls_append : appended.calls = g.calls
  stored : ∀ e ∈ g.pending, m.rowOf e ∈ appended.store.rows
  store_eq : saved.2.store = appended.store
  calls_saved :
    saved.1 = .ok () ∧ saved.2.calls = g.calls ++ delivered g.pending ∨
      ∃ before e rest x, g.pending = before ++ e :: rest ∧ saved.1 = .error (.publish x) ∧
        saved.2.calls = g.calls ++ delivered before ++ [⟨e, .error x⟩]

/-- What an owner may rely on when a slice is saved, once or again. -/
structure Reliable (m : Mapping S P) (publisher : Publisher P π) (g : Session S P π) : Prop where
  /-- An attempt that fails leaves the aggregates as they were. -/
  unchanged : ∀ e, (g.attempt m publisher).1 = .error e → (g.attempt m publisher).2.slice = g.slice
  /-- If it fails before anything is published, it does nothing at all. -/
  refused : ∀ e, (g.append m publisher).1 = .error e → g.attempt m publisher = (.error e, g)
  /-- It goes past the append if all is encoded and the rows fit. -/
  accepted : (∀ e ∈ g.pending, m.Encodes e.payload) →
    Fits g.store.rows (g.pending.map m.rowOf) → ∃ any, (g.append m publisher).1 = .ok any
  /-- Then all rows are stored, and the events are published in order. -/
  published : ∀ any, (g.append m publisher).1 = .ok any →
    g.Published m (g.append m publisher).2 (g.attempt m publisher)
  /-- After an attempt that succeeds, all that was pending is published, and nothing is pending. -/
  saved : (g.attempt m publisher).1 = .ok () →
    (g.attempt m publisher).2.calls = g.calls ++ delivered g.pending ∧
    (g.attempt m publisher).2.slice = g.slice.map Aggregate.clearChanges ∧
    ∀ a ∈ (g.attempt m publisher).2.slice, a.pending = []
  /-- After an attempt that was interrupted, another one passes over the rows that are stored. -/
  repeatable : ∀ any e, (g.append m publisher).1 = .ok any →
    (g.attempt m publisher).1 = .error e →
      (g.attempt m publisher).2.append m publisher = (.ok any, (g.attempt m publisher).2)
  /-- An event that was appended is stored once from then on, whatever else is tried. -/
  storedOnce : ∀ any, (g.append m publisher).1 = .ok any →
    ∀ g', Runs m publisher (g.attempt m publisher).2 g' → ∀ e ∈ g.pending,
      m.rowOf e ∈ g'.store.rows ∧ (g'.store.rows.map (·.eventId)).count e.id = 1
  /-- An event is pending until it has been published. -/
  keptUntilPublished : ∀ g', Runs m publisher g g' → ∀ e ∈ g.pending,
    e ∈ g'.pending ∨ ⟨e, .ok ()⟩ ∈ g'.calls

theorem Sound.published (hg : g.Sound m) (h : Outcome m g appended saved) {any : Bool}
    (happend : appended.1 = .ok any) : g.Published m appended.2 saved := by
  cases h with
  | refused e => cases happend
  | interrupted any' store stored bus before e rest x split =>
    exact ⟨rfl, hg.stored_append stored, rfl, Or.inr ⟨before, e, rest, x, split, rfl, rfl⟩⟩
  | saved any' store stored bus =>
    exact ⟨rfl, hg.stored_append stored, rfl, Or.inl ⟨rfl, rfl⟩⟩

theorem Sound.storedOnce (hg : g.Sound m) {any : Bool}
    (happend : (g.append m publisher).1 = .ok any)
    (h : Runs m publisher (g.attempt m publisher).2 g') {e : RecordedEvent P} (he : e ∈ g.pending) :
    m.rowOf e ∈ g'.store.rows ∧ (g'.store.rows.map (·.eventId)).count e.id = 1 := by
  have houtcome := outcome_attempt m publisher g
  have hpublished := hg.published houtcome happend
  have hsound := hg.outcome houtcome
  have hmem : m.rowOf e ∈ g'.store.rows :=
    (hsound.rows_prefix h).subset (hpublished.store_eq ▸ hpublished.stored e he)
  have hunique := (sound_of_runs hsound h).holds.unique
  exact ⟨hmem, List.count_eq_one_of_mem hunique.ids (List.mem_map.mpr ⟨_, hmem, rfl⟩)⟩

theorem Outcome.slice_of_error (h : Outcome m g appended saved) {e : RepositoryError}
    (hsaved : saved.1 = .error e) : saved.2.slice = g.slice := by
  cases h with
  | refused => rfl
  | interrupted => rfl
  | saved => cases hsaved

theorem Outcome.eq_of_refused (h : Outcome m g appended saved) {e : RepositoryError}
    (happend : appended.1 = .error e) : saved = (.error e, g) := by
  cases h with
  | refused => cases happend; rfl
  | interrupted => cases happend
  | saved => cases happend

theorem Outcome.of_ok (h : Outcome m g appended saved) (hsaved : saved.1 = .ok ()) :
    saved.2.calls = g.calls ++ delivered g.pending ∧
      saved.2.slice = g.slice.map Aggregate.clearChanges ∧ ∀ a ∈ saved.2.slice, a.pending = [] := by
  cases h with
  | refused => cases hsaved
  | interrupted => cases hsaved
  | saved any store stored bus =>
    refine ⟨rfl, rfl, fun a ha => ?_⟩
    obtain ⟨b, -, rfl⟩ := List.mem_map.mp ha
    rfl

theorem Sound.reliable (hg : g.Sound m) : g.Reliable m publisher :=
  have houtcome := outcome_attempt m publisher g
  { unchanged := fun _ => houtcome.slice_of_error
    refused := fun _ => houtcome.eq_of_refused
    accepted := hg.append_of_fits
    published := fun _ => hg.published houtcome
    saved := houtcome.of_ok
    repeatable := fun _ _ happend hfailed =>
      hg.append_again happend (houtcome.slice_of_error hfailed)
        (hg.published houtcome happend).store_eq
    storedOnce := fun _ happend _ h _ => hg.storedOnce happend h
    keptUntilPublished := fun _ h _ => pending_or_delivered h }

/-- A session with a store that has been in use. -/
def start (uses : List MemoryStore.Use) (bus : π) (slice : List (Aggregate S P)) :
    Session S P π where
  store := (({} : MemoryStore.InUse).run uses).store
  bus
  slice

theorem sound_start (m : Mapping S P) (uses : List MemoryStore.Use) (bus : π)
    {slice : List (Aggregate S P)}
    (hnew : ∀ a ∈ slice, ∀ e ∈ a.pending,
      e.id ∉ (start uses bus slice).store.rows.map (·.eventId)) :
    (start uses bus slice).Sound m where
  holds := by
    have hholds := MemoryStore.InUse.holds_run (u := {}) MemoryStore.holds_empty uses
    have hrows : (start uses bus slice).store.rows = _ := hholds.rows_eq
    rw [hrows]
    exact hholds
  own := by
    intro e he r hr hid
    obtain ⟨a, ha, he⟩ := List.mem_flatMap.mp he
    exact absurd (List.mem_map.mpr ⟨r, hr, hid⟩) (hnew a ha e he)

/-- At every point of every session saves are reliable: with any store that has been in use, any
publisher, and any slice whose pending events are new. -/
theorem reliable_of_runs (m : Mapping S P) (publisher : Publisher P π)
    (uses : List MemoryStore.Use) (bus : π) (slice : List (Aggregate S P))
    (hnew : ∀ a ∈ slice, ∀ e ∈ a.pending,
      e.id ∉ (start uses bus slice).store.rows.map (·.eventId))
    (g : Session S P π) (hg : Runs m publisher (start uses bus slice) g) :
    g.Reliable m publisher :=
  (sound_of_runs (sound_start m uses bus hnew) hg).reliable

/-! ## An outage -/

open Accounts

def accounts : Mapping Account AccountEvent := ⟨Account.blueprint, .json AccountEvent⟩

def annOpens : Change AccountEvent := .raise ⟨⟨1⟩, .epoch⟩ (.opened "Ann" 5)

def annDeposits : Change AccountEvent := .raise ⟨⟨2⟩, .epoch⟩ (.moneyDeposited 3)

/-- The bus will be out of reach for one call. -/
def beforeOutage : Session Account AccountEvent OutageState :=
  start [] { bus := ⟨{}, fun _ => []⟩, outages := [true] } [.fresh Life.annsId {}]

/-- An account is opened and cannot be published; then there is a deposit. -/
def outage : Session Account AccountEvent OutageState :=
  ((beforeOutage.change accounts 0 annOpens).attempt accounts (outagePublisher .account)).2.change
    accounts 0 annDeposits

theorem outage_is_survived :
    outage.Reliable accounts (outagePublisher .account) ∧
      outage.calls.map (·.event.id) = [⟨1⟩] ∧ outage.pending.map (·.id) = [⟨1⟩, ⟨2⟩] ∧
      (outage.attempt accounts (outagePublisher .account)).2.calls.map (·.event.id) =
        [⟨1⟩, ⟨1⟩, ⟨2⟩] := by
  refine ⟨?_, by decide +kernel, by decide +kernel, by decide +kernel⟩
  refine reliable_of_runs accounts (outagePublisher .account) [] beforeOutage.bus
    beforeOutage.slice (by decide +kernel) outage ?_
  have hopen : Moves accounts (outagePublisher .account) beforeOutage _ :=
    .change _ 0 annOpens trivial (by decide +kernel)
  have hdeposit : Moves accounts (outagePublisher .account) _ outage :=
    .change _ 0 annDeposits trivial (by decide +kernel)
  exact ((Relation.ReflTransGen.single hopen).tail (.attempt _)).tail hdeposit

end Session

end EventStore
