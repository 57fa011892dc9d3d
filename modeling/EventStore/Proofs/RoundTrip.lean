import EventStore.Proofs.AccountPayloads
import EventStore.Proofs.Reloading
import EventStore.Proofs.Writers

/-!
# An aggregate that is saved is loaded as it is

Proved here, for a memory that writers have filled, through whatever changes and saves:

* `Life.pending_run`, `Life.ids_run`: what a run of changes queues, and under which ids;
* `Repository.save_load`: what is loaded, changed and saved is loaded again as it was saved;
* `World.stored_of_runs`: each row of a type is that of an event with a listed payload;
* `World.saved_is_loaded`: so the round trip succeeds in every world that writers can bring about.
-/

namespace EventStore

open Aggregate

/-! ## Changes with made ids -/

/-- A change that leaves the id to the engine, and clears nothing. -/
def Change.Unnamed {P : Type} : Change P → Prop
  | .apply _ e _ _ => e.id = none
  | .raise .. => True
  | .clear => False

namespace Life

variable {S P : Type} {b : Blueprint S P} {changes : List (Change P)}

theorem made_of_unnamed {c : Change P} (hc : c.Unnamed) {a : Aggregate S P} {e : RecordedEvent P}
    (he : c.proposal? a = some e) : c.made = [e.id] := by
  cases c with
  | apply stamp f actor time =>
    have hnone : f.id = none := hc
    obtain rfl := Option.some.inj he
    simp [Aggregate.complete, hnone, Change.made]
  | raise stamp payload =>
    obtain rfl := Option.some.inj he
    rfl
  | clear => exact hc.elim

/-- A change queues and records one event under a made id, or none. -/
theorem after_unnamed {c : Change P} (hc : c.Unnamed) (life : Life S P) :
    (∃ e, c.made = [e.id] ∧ life.after b c = life.accept b e) ∨ life.after b c = life := by
  rcases after_cases b life c with ⟨e, he, -, heq⟩ | ⟨e, -, -, heq⟩ | ⟨rfl, -⟩
  · exact Or.inl ⟨e, made_of_unnamed hc he, heq⟩
  · exact Or.inr heq
  · exact hc.elim

/-- What was accepted is queued. -/
theorem pending_run (h : ∀ c ∈ changes, c.Unnamed) {life : Life S P}
    (hqueue : life.aggregate.pending = life.accepted) :
    (life.run b changes).aggregate.pending = (life.run b changes).accepted := by
  induction changes generalizing life with
  | nil => exact hqueue
  | cons c l ih =>
    have hnext : (life.after b c).aggregate.pending = (life.after b c).accepted := by
      rcases after_unnamed (h c List.mem_cons_self) life with ⟨e, -, heq⟩ | heq
      · rw [heq]
        exact congrArg (· ++ [e]) hqueue
      · rw [heq]
        exact hqueue
    exact ih (fun c hc => h c (List.mem_cons_of_mem _ hc)) hnext

/-- The ids of what was accepted are made ids, each used once. -/
theorem ids_run (h : ∀ c ∈ changes, c.Unnamed) (life : Life S P) :
    ∃ ids, ids.Sublist (changes.flatMap Change.made) ∧
      (life.run b changes).accepted.map (·.id) = life.accepted.map (·.id) ++ ids := by
  induction changes generalizing life with
  | nil => exact ⟨[], List.Sublist.slnil, (List.append_nil _).symm⟩
  | cons c l ih =>
    obtain ⟨ids, hsub, hids⟩ :=
      ih (fun c hc => h c (List.mem_cons_of_mem _ hc)) (life.after b c)
    have hrun : life.run b (c :: l) = (life.after b c).run b l := rfl
    rw [hrun, hids, List.flatMap_cons]
    rcases after_unnamed (h c List.mem_cons_self) life with ⟨e, hmade, heq⟩ | heq
    · refine ⟨e.id :: ids, ?_, ?_⟩
      · rw [hmade]
        exact hsub.cons_cons e.id
      · rw [heq, accept, List.map_append, List.append_assoc]
        rfl
    · exact ⟨ids, hsub.trans (List.sublist_append_right _ _), by rw [heq]⟩

end Life

/-! ## One round trip -/

namespace Mapping

variable {S P : Type} {m : Mapping S P}

theorem owner_of_stream {e : RecordedEvent P} {id : AggregateId}
    (h : (m.rowOf e).stream = m.streamOf id) : e.aggregateId = id := by
  have htext : e.aggregateId.text = id.text := congrArg StreamKey.aggregateId h
  cases hid : e.aggregateId
  cases id
  rw [hid] at htext
  cases htext
  rfl

end Mapping

namespace Repository

variable {S P π : Type} {r : Repository S P MemoryStore π} {s : MemoryStore} {p : π}
  {rows : List EventRow} {id : AggregateId} {state : S} {stored : List (RecordedEvent P)}

section RoundTrip

variable (hmem : r.storage = MemoryStore.storage) (hs : s.Holds rows)
  (hcreate : r.blueprint.create id = some state)
  (hstored : inStream (r.streamOf id) rows = stored.map r.rowOf)
  (hrestores : ∀ e ∈ stored, r.Restores e.payload)

include hmem hs hcreate hstored hrestores

theorem load_whole {sorted : List (RecordedEvent P)} (hperm : stored.Perm sorted)
    (hfollows : (fresh id state : Aggregate S P).Follows (sorted.map (·.event))) :
    r.load id .whole (s, p) =
      (.ok (if stored = [] then none
        else some ((sorted.map (·.event)).foldl (advance r.blueprint) (fresh id state))),
        (s, p)) := by
  rw [load_eq hmem hs, Mapping.history_whole, hstored,
    Mapping.replayRows_map hcreate hrestores hperm hfollows]

/-- What was replayed, changed and saved is loaded as it is. -/
theorem save_load_replayed {sorted : List (RecordedEvent P)} (hperm : stored.Perm sorted)
    (hfollows : (fresh id state : Aggregate S P).Follows (sorted.map (·.event)))
    {changes : List (Change P)} (hunnamed : ∀ c ∈ changes, c.Unnamed)
    (hmade : (changes.flatMap Change.made).Nodup)
    (hnew : ∀ i ∈ changes.flatMap Change.made, i ∉ rows.map (·.eventId)) :
    let start := (sorted.map (·.event)).foldl (advance r.blueprint) (fresh id state)
    let live := (Life.mk start []).run r.blueprint changes
    stored ++ live.accepted ≠ [] → (∀ e ∈ live.accepted, r.Restores e.payload) →
      r.publisher.Delivers live.accepted p →
      ∃ s', r.save (live.aggregate, (s, p)) = (.ok (), (live.aggregate.clearChanges, s')) ∧
        r.load id .whole s' = (.ok (some live.aggregate.clearChanges), s') := by
  intro start live hsome haccepted hdelivers
  have hpending : start.pending = [] := foldl_advance_pending _
  have hclear : start.clearChanges = start := by
    rw [clearChanges, ← hpending]
  have hqueue : live.aggregate.pending = live.accepted := Life.pending_run hunnamed hpending
  obtain ⟨ids, hsub, hids⟩ :=
    Life.ids_run (b := r.blueprint) hunnamed (⟨start, []⟩ : Life S P)
  have hids : live.accepted.map (·.id) = ids := hids
  -- The stored events and then the accepted ones lead from the new aggregate to the live one.
  have hlead := Life.foldlM_accepted_run (b := r.blueprint) start changes
  rw [hclear] at hlead
  obtain ⟨hrest, hlive⟩ := foldlM_dispatch_eq_ok_iff.mp hlead
  have hall : (fresh id state : Aggregate S P).Follows
      ((sorted ++ live.accepted).map (·.event)) := by
    rw [List.map_append]
    exact (follows_append r.blueprint _ _).mpr ⟨hfollows, hrest⟩
  have hfold : ((sorted ++ live.accepted).map (·.event)).foldl (advance r.blueprint)
      (fresh id state) = live.aggregate.clearChanges := by
    rw [List.map_append, List.foldl_append]
    exact hlive.symm
  have hbase : ∀ row ∈ inStream (r.streamOf id) rows, ∃ e ∈ sorted, r.rowOf e = row := by
    intro row hrow
    rw [hstored] at hrow
    obtain ⟨e, he, heq⟩ := List.mem_map.mp hrow
    exact ⟨e, hperm.mem_iff.mp he, heq⟩
  obtain ⟨hfits, hnewRows⟩ := Mapping.fits_of_follows (m := r.toMapping) hbase hall
    (hids ▸ hmade.sublist hsub) fun e he =>
      hnew e.id (hsub.subset (hids ▸ List.mem_map_of_mem he))
  obtain ⟨s', happend, hholds⟩ := hs.append_of_fits hfits
  rw [hnewRows] at hholds
  obtain ⟨p', hsave⟩ := save_of_delivers (r := r) (a := live.aggregate) (p := p) hmem
    (fun e he => (haccepted e (hqueue ▸ he)).1) (hqueue.symm ▸ happend) (hqueue.symm ▸ hdelivers)
  have hstream : inStream (r.streamOf id) (rows ++ live.accepted.map r.rowOf) =
      (stored ++ live.accepted).map r.rowOf := by
    rw [inStream_append, hstored, List.map_append, inStream_eq_self fun row hrow => ?_]
    obtain ⟨e, he, rfl⟩ := List.mem_map.mp hrow
    have howner := (hall.accepts e.event (List.mem_map_of_mem (List.mem_append_right _ he))).1
    exact congrArg r.streamOf (Option.some.inj howner)
  have hload := load_whole (p := p') hmem hholds hcreate hstream
    (fun e he => (List.mem_append.mp he).elim (hrestores e) (haccepted e))
    (hperm.append_right live.accepted) hall
  rw [if_neg hsome, hfold] at hload
  exact ⟨(s', p'), hsave, hload⟩

/-- An aggregate may be loaded, or made if nothing of it is stored, changed, saved and loaded
again. -/
theorem save_load {changes : List (Change P)} (hunnamed : ∀ c ∈ changes, c.Unnamed)
    (hmade : (changes.flatMap Change.made).Nodup)
    (hnew : ∀ i ∈ changes.flatMap Change.made, i ∉ rows.map (·.eventId)) :
    ∃ opened, r.load id .whole (s, p) = (.ok opened, (s, p)) ∧ (opened = none ↔ stored = []) ∧
      let live := (Life.mk (opened.getD (fresh id state)) []).run r.blueprint changes
      (opened = none → live.accepted ≠ []) → (∀ e ∈ live.accepted, r.Restores e.payload) →
      r.publisher.Delivers live.accepted p →
      ∃ s', r.save (live.aggregate, (s, p)) = (.ok (), (live.aggregate.clearChanges, s')) ∧
        r.load id .whole s' = (.ok (some live.aggregate.clearChanges), s') := by
  have howner : ∀ e ∈ stored, e.aggregateId = id := fun e he =>
    Mapping.owner_of_stream (mem_inStream.mp (hstored ▸ List.mem_map_of_mem he)).2
  have hslots : ((stored.map r.rowOf).map (·.slot)).Nodup := by
    rw [← hstored]
    exact hs.unique.slots.sublist (List.filter_sublist.map _)
  obtain ⟨sorted, hperm, hfollows⟩ := Mapping.exists_sorted howner hslots state
  refine ⟨_, load_whole hmem hs hcreate hstored hrestores hperm hfollows, by split <;> simp_all, ?_⟩
  have hstart : (if stored = [] then none
      else some ((sorted.map (·.event)).foldl (advance r.blueprint) (fresh id state))).getD
        (fresh id state) =
          (sorted.map (·.event)).foldl (advance r.blueprint) (fresh id state) := by
    split
    · rename_i hnone
      rw [hnone] at hperm
      rw [← hperm.nil_eq]
      rfl
    · rfl
  rw [hstart]
  intro live hsome
  refine save_load_replayed hmem hs hcreate hstored hrestores hperm hfollows hunnamed hmade hnew
    fun hnothing => ?_
  obtain ⟨hnone, hlive⟩ := List.append_eq_nil_iff.mp hnothing
  exact hsome (if_pos hnone) hlive

end RoundTrip

end Repository

/-! ## Worlds of writers -/

namespace World

variable {ι W π : Type} {S P : ι → Type} [∀ i, Payload (P i)] {t : Team ι W π S P}
  {g g' : World t} {rows : List EventRow} {i : ι}

/-- The rows of a type are those of events with listed payloads. -/
def StoredListed (t : Team ι W π S P) (i : ι) (rows : List EventRow) : Prop :=
  ∀ row ∈ rows, row.aggregateType = (t.mapping i).blueprint.name →
    ∃ e : RecordedEvent (P i), Codec.Listed e.payload ∧ (t.mapping i).rowOf e = row

theorem exists_stored (hstored : StoredListed t i rows) (id : AggregateId) :
    ∃ stored : List (RecordedEvent (P i)), (∀ e ∈ stored, Codec.Listed e.payload) ∧
      inStream ((t.mapping i).streamOf id) rows = stored.map (t.mapping i).rowOf := by
  have hall : ∀ row ∈ inStream ((t.mapping i).streamOf id) rows,
      ∃ e : RecordedEvent (P i), Codec.Listed e.payload ∧ (t.mapping i).rowOf e = row := by
    intro row hrow
    obtain ⟨hmem, hstream⟩ := mem_inStream.mp hrow
    exact hstored row hmem (congrArg StreamKey.aggregateType hstream)
  obtain ⟨stored, hlisted, hrows⟩ := exists_map_eq hall
  exact ⟨stored, hlisted, hrows.symm⟩

variable [DecidableEq W]

/-- Only events with listed payloads are saved. Nothing else is asked of writers. -/
def Listing (g : World t) : Action t → Prop
  | .append w slots => (g.step (.append w slots)).store ≠ g.store →
    ∀ a ∈ g.aggregates w slots, ∀ e ∈ a.pending, Codec.Listed e.payload
  | _ => True

section Stored

variable (hname : ∀ j, (t.mapping j).blueprint.name = (t.mapping i).blueprint.name → j = i)

include hname

theorem stored_step (hs : g.store.Holds rows) (hstored : StoredListed t i rows) {a : Action t}
    (ha : Listing g a) :
    ∃ l, (g.step a).store.Holds (rows ++ l) ∧ StoredListed t i (rows ++ l) := by
  have houtcome := outcome_step hs a
  generalize hstep : g.step a = g' at houtcome
  by_cases hsame : g'.store = g.store
  · refine ⟨[], ?_, ?_⟩
    · rwa [hsame, List.append_nil]
    · rwa [List.append_nil]
  · cases houtcome with
    | appended w slots store idle encodes stored =>
      have hlisted := ha (by rwa [hstep])
      refine ⟨_, (hs.of_append_eq_ok stored).2, fun row hrow htype => ?_⟩
      rcases List.mem_append.mp hrow with hrow | hrow
      · exact hstored row hrow htype
      · obtain ⟨e, he, rfl⟩ := List.mem_map.mp (mem_newRows.mp hrow).1
        obtain ⟨x, hx, he⟩ := List.mem_flatMap.mp he
        have hkind : t.kind w = i := hname _ htype
        subst hkind
        exact ⟨e, hlisted x hx e he, rfl⟩
    | nothing | constructed | loaded | changed | published | abandoned | cleared =>
      exact absurd rfl hsame

theorem stored_of_runs {bus : π} (h : Runs Listing (start t bus) g) :
    ∃ rows, g.store.Holds rows ∧ StoredListed t i rows := by
  induction h with
  | refl => exact ⟨[], MemoryStore.holds_empty, by simp [StoredListed]⟩
  | tail _ hmove ih =>
    obtain ⟨rows, hs, hstored⟩ := ih
    obtain ⟨a, ha, rfl⟩ := hmove
    obtain ⟨l, hs', hstored'⟩ := stored_step hname hs hstored ha
    exact ⟨rows ++ l, hs', hstored'⟩

end Stored

/-- In every world that writers can bring about, an aggregate is loaded, or made if nothing of it
is stored; and what it becomes by changes is saved, if all that was ever saved has listed payloads
and the publisher succeeds, and is loaded as it is, with nothing queued. -/
theorem saved_is_loaded (hjson : (t.mapping i).codec = Codec.json (P i))
    (hname : ∀ j, (t.mapping j).blueprint.name = (t.mapping i).blueprint.name → j = i)
    (hfaithful : ∀ p : P i, Codec.Listed p → Codec.Faithful p) (publisher : Publisher (P i) π)
    {bus : π} (hg : Runs Listing (start t bus) g) {id : AggregateId} {state : S i}
    (hcreate : (t.mapping i).blueprint.create id = some state) {changes : List (Change (P i))}
    (hunnamed : ∀ c ∈ changes, c.Unnamed) (hmade : (changes.flatMap Change.made).Nodup)
    (hnew : ∀ e ∈ changes.flatMap Change.made, e ∉ g.store.rows.map (·.eventId)) :
    let r := (t.mapping i).inMemory publisher
    ∃ opened, r.load id .whole (g.store, g.bus) = (.ok opened, (g.store, g.bus)) ∧
      (opened = none ↔ inStream (r.streamOf id) g.store.rows = []) ∧
      let live := (Life.mk (opened.getD (fresh id state)) []).run r.blueprint changes
      (opened = none → live.accepted ≠ []) → (∀ e ∈ live.accepted, Codec.Listed e.payload) →
      r.publisher.Delivers live.accepted g.bus →
      ∃ s, r.save (live.aggregate, (g.store, g.bus)) = (.ok (), (live.aggregate.clearChanges, s)) ∧
        r.load id .whole s = (.ok (some live.aggregate.clearChanges), s) := by
  intro r
  have hrestores : ∀ p : P i, Codec.Listed p → r.Restores p := fun p hp =>
    ⟨Mapping.encodes_of_listed hjson hp, Mapping.readsBack_of_listed hjson (hfaithful p hp) hp⟩
  obtain ⟨rows, hs, hlisted⟩ := stored_of_runs hname hg
  obtain ⟨stored, hpayloads, hstored⟩ := exists_stored hlisted id
  rw [hs.rows_eq] at hnew ⊢
  obtain ⟨opened, hload, hnone, hround⟩ := Repository.save_load (p := g.bus) rfl hs
    hcreate hstored (fun e he => hrestores e.payload (hpayloads e he)) hunnamed hmade hnew
  have hempty : inStream (r.streamOf id) rows = [] ↔ stored = [] := by
    show inStream ((t.mapping i).streamOf id) rows = [] ↔ stored = []
    rw [hstored, List.map_eq_nil_iff]
  refine ⟨opened, hload, hnone.trans hempty.symm, fun hsome haccepted hdelivers => ?_⟩
  exact hround hsome (fun e he => hrestores e.payload (haccepted e he)) hdelivers

open Accounts

/-- An account is opened at version 7, and deleted by that. -/
def opening : List (Action rivals) :=
  [.construct true 0 Life.annsId,
   .change true 0
    (.apply ⟨⟨1⟩, .epoch⟩ { version := some 7, deleteAction := .delete, payload := .opened "Ann" 5 }
      none none),
   .append true [0]]

/-- The account as it is loaded. -/
def annsAccount : Aggregate Account AccountEvent :=
  ⟨Life.annsId, 7, true, true, [], { owner := "Ann", balance := 5, trail := ["Opened@7"] }⟩

/-- Then money is deposited; a nickname at an earlier version is rejected. -/
def deposit : List (Change AccountEvent) :=
  [.raise ⟨⟨2⟩, .epoch⟩ (.moneyDeposited 3),
   .apply ⟨⟨3⟩, .epoch⟩ { version := some 5, payload := .nickname none } none none]

theorem deposit_is_loaded :
    let g := opening.foldl step (start rivals ())
    let r := (rivals.mapping ()).inMemory (rivals.publisher true)
    let live := (Life.mk annsAccount []).run r.blueprint deposit
    r.load Life.annsId .whole (g.store, g.bus) = (.ok (some annsAccount), (g.store, g.bus)) ∧
      ∃ s, r.save (live.aggregate, (g.store, g.bus)) = (.ok (), (live.aggregate.clearChanges, s)) ∧
        r.load Life.annsId .whole s = (.ok (some live.aggregate.clearChanges), s) := by
  intro g r live
  have hpayload : ∀ e : AccountEvent, e ≠ .unencodable ∧ e.tag ∈ AccountEvent.tags →
      Codec.Listed e := fun e h => AccountEvent.listed_of_mem_tags h.1 h.2
  have hsaved : ∀ a ∈ (opening.dropLast.foldl step (start rivals ())).aggregates true [0],
      ∀ e ∈ a.pending, e.payload ≠ .unencodable ∧ e.payload.tag ∈ AccountEvent.tags := by decide
  have hruns : Runs Listing (start rivals ()) g :=
    runs_foldl ⟨trivial, trivial, fun _ a ha e he => hpayload _ (hsaved a ha e he), trivial⟩
  have hunnamed : ∀ c ∈ deposit, c.Unnamed := by simp [deposit, Change.Unnamed]
  have hmade : (deposit.flatMap Change.made).Nodup := by decide
  have hnew : ∀ e ∈ deposit.flatMap Change.made,
      e ∉ (opening.foldl step (start rivals ())).store.rows.map (·.eventId) := by
    decide +kernel
  obtain ⟨opened, hload, -, hround⟩ := saved_is_loaded (i := ()) rfl
    (fun _ _ => Subsingleton.elim _ _) (fun e _ => AccountEvent.faithful e)
    (rivals.publisher true) hruns (show Account.blueprint.create Life.annsId = some {} by decide)
    hunnamed hmade hnew
  have hfound : (((rivals.mapping ()).inMemory (rivals.publisher true)).load Life.annsId .whole
      ((opening.foldl step (start rivals ())).store, ())).1.toOption = some (some annsAccount) := by
    decide +kernel
  obtain rfl : opened = some annsAccount := by
    have hopened := congrArg (fun x => x.1.toOption) hload
    exact Option.some.inj (hopened.symm.trans hfound)
  have haccepted : ∀ e ∈ ((Life.mk annsAccount []).run Account.blueprint deposit).accepted,
      e.payload ≠ .unencodable ∧ e.payload.tag ∈ AccountEvent.tags := by decide
  exact ⟨hload, hround (fun hnone => nomatch hnone) (fun e he => hpayload _ (haccepted e he))
    ⟨(), rfl, trivial⟩⟩

end World

end EventStore
