import EventStore.Proofs.AccountPayloads
import EventStore.Proofs.BulkLoads
import EventStore.Proofs.EnvelopeRules
import EventStore.Proofs.Reloading

/-!
# Past versions are loaded as they were

An author is the only writer of an aggregate, from its beginning. Each event that the aggregate
accepts makes a `Moment`, which keeps how the aggregate was right after it.

Proved here, for whatever an author does, as long as its saves succeed:

* `Sound.change`, `Sound.save`, `Sound.append`: what each deed leaves as it should be;
* `sound_of_run`: so the stream of the aggregate has the events of the saved moments, and each
  moment is where the events up to it lead;
* `loaded_eq`: hence the last moment up to a ceiling is what a load with this ceiling gives;
* `past_is_loaded`: and whether a load leaves it out depends on how it was at that moment.
-/

namespace EventStore

open Aggregate

/-- An event that an aggregate accepted, and the aggregate right after it. -/
structure Moment (S P : Type) where
  event : RecordedEvent P
  after : Aggregate S P

/-- The only writer of an aggregate, and what the aggregate has accepted, saved and not yet saved. -/
structure Author (S P π : Type) where
  live : Aggregate S P
  store : MemoryStore
  bus : π
  saved : List (Moment S P) := []
  unsaved : List (Moment S P) := []

/-- What an author does, or what others do beside it. -/
inductive Deed (P : Type) where
  | change (c : Change P)
  | save
  /-- Others append rows of other aggregates. -/
  | append (rows : List EventRow)

variable {S P π : Type} {b : Blueprint S P}

namespace Moment

/-- The events of moments, in their order. -/
def events (moments : List (Moment S P)) : List (DomainEvent P) := moments.map (·.event.event)

/-- How the aggregate was at the last saved moment up to a version, apart from its queue. -/
def lastUpTo (ceiling : Nat) (moments : List (Moment S P)) : Option (Aggregate S P) :=
  (moments.filter fun x => x.event.version ≤ ceiling).getLast?.map (·.after.clearChanges)

theorem lastUpTo_eq_none_iff {ceiling : Nat} {moments : List (Moment S P)} :
    lastUpTo ceiling moments = none ↔ ∀ x ∈ moments, ceiling < x.event.version := by
  simp [lastUpTo]

end Moment

/-- Without the deleted aggregates a load finds what it finds with them, unless it is deleted. -/
theorem Repository.load_withoutDeleted {r : Repository S P MemoryStore π} {s : MemoryStore} {p : π}
    {rows : List EventRow} (hmem : r.storage = MemoryStore.storage) (hs : s.Holds rows)
    {id : AggregateId} (options : LoadOptions) {found : Option (Aggregate S P)}
    (h : r.load id { options with includeDeleted := true } (s, p) = (.ok found, (s, p))) :
    r.load id { options with includeDeleted := false } (s, p) =
      (.ok (found.filter fun a => !a.isDeleted), (s, p)) := by
  rw [load_eq hmem hs] at h ⊢
  have hreplayed : r.replayRows id { options with includeDeleted := true }
      (r.history id { options with includeDeleted := true } rows) = .ok found :=
    congrArg Prod.fst h
  rw [Mapping.replayRows_withoutDeleted]
  exact congrArg (fun x => (Except.map _ x, _)) hreplayed

namespace Author

/-- Nothing has happened to the aggregate, and nothing is stored. -/
def start (id : AggregateId) (state : S) (bus : π) : Author S P π :=
  { live := fresh id state, store := {}, bus }

/-- The aggregate is as the change leaves it. An event that was not rejected makes a moment. -/
def change (r : Repository S P MemoryStore π) (w : Author S P π) (c : Change P) :
    Option (Author S P π) := do
  let e ← c.proposal? w.live
  match c.act r.blueprint w.live with
  | (.ok (), live) => some { w with live, unsaved := w.unsaved ++ [⟨e, live⟩] }
  | (.error _, live) => some { w with live }

def save (r : Repository S P MemoryStore π) (w : Author S P π) : Option (Author S P π) :=
  match r.save (w.live, (w.store, w.bus)) with
  | (.ok (), (live, (store, bus))) => some ⟨live, store, bus, w.saved ++ w.unsaved, []⟩
  | (.error _, _) => none

def append (r : Repository S P MemoryStore π) (w : Author S P π) (rows : List EventRow) :
    Option (Author S P π) :=
  if ∀ row ∈ rows, row.stream ≠ r.streamOf w.live.id then
    some { w with store := (r.storage.append rows w.store).2 }
  else none

/-- The author after a deed. There is none if a save fails, if the queue is cleared without one, or
if others write to the stream of the aggregate. -/
def after (r : Repository S P MemoryStore π) (w : Author S P π) :
    Deed P → Option (Author S P π)
  | .change c => w.change r c
  | .save => w.save r
  | .append rows => w.append r rows

def run (r : Repository S P MemoryStore π) (w : Author S P π) (deeds : List (Deed P)) :
    Option (Author S P π) :=
  deeds.foldlM (after r) w

/-! ## Moments -/

/-- The events of the moments lead from a new aggregate to the live one, and on the way to each
moment. -/
structure Shows (b : Blueprint S P) (new : Aggregate S P) (moments : List (Moment S P))
    (live : Aggregate S P) : Prop where
  follows : new.Follows (Moment.events moments)
  live_eq : live.clearChanges = (Moment.events moments).foldl (advance b) new
  after_eq : ∀ l, l <+: moments → ∀ x ∈ l.getLast?,
    x.after.clearChanges = (Moment.events l).foldl (advance b) new

theorem Shows.accept {new live live' : Aggregate S P} {moments : List (Moment S P)}
    (h : Shows b new moments live) {e : RecordedEvent P} (hacc : live.Accepts e.event)
    (hlive' : live'.clearChanges = live.clearChanges.advance b e.event) :
    Shows b new (moments ++ [⟨e, live'⟩]) live' := by
  have hevents : Moment.events (moments ++ [⟨e, live'⟩]) = Moment.events moments ++ [e.event] := by
    simp [Moment.events]
  have hlive : live'.clearChanges =
      (Moment.events (moments ++ [⟨e, live'⟩])).foldl (advance b) new := by
    rw [hevents, List.foldl_concat, ← h.live_eq, hlive']
  refine ⟨?_, hlive, ?_⟩
  · rw [hevents, follows_append b, ← h.live_eq]
    exact ⟨h.follows, (follows_cons b _ _).mpr ⟨hacc, follows_nil⟩⟩
  · intro l hl x hx
    rcases List.prefix_concat_iff.mp hl with rfl | hl
    · rw [List.getLast?_concat] at hx
      obtain rfl := Option.some.inj hx
      exact hlive
    · exact h.after_eq l hl x hx

/-! ## What every author keeps -/

/-- Each moment is where the events up to it lead, and the saved ones are those that are stored. -/
structure Sound (r : Repository S P MemoryStore π) (id : AggregateId) (state : S)
    (w : Author S P π) : Prop where
  shows : Shows r.blueprint (fresh id state) (w.saved ++ w.unsaved) w.live
  pending : w.live.pending = w.unsaved.map (·.event)
  holds : w.store.Holds w.store.rows
  stored : inStream (r.streamOf id) w.store.rows = (w.saved.map (·.event)).map r.rowOf
  encodes : ∀ x ∈ w.saved, r.Encodes x.event.payload

variable {r : Repository S P MemoryStore π} {id : AggregateId} {state : S} {w w' : Author S P π}

theorem sound_start (id : AggregateId) (state : S) (bus : π) :
    (start id state bus : Author S P π).Sound r id state where
  shows := by
    refine ⟨follows_nil, rfl, fun l hl x hx => ?_⟩
    rw [List.prefix_nil.mp hl] at hx
    cases hx
  pending := rfl
  holds := MemoryStore.holds_empty.rows_eq ▸ MemoryStore.holds_empty
  stored := by
    rw [start, MemoryStore.holds_empty.rows_eq]
    rfl
  encodes := by simp [start]

theorem Sound.live_id (h : w.Sound r id state) : w.live.id = id :=
  (congrArg Aggregate.id h.shows.live_eq).trans (foldl_advance_id _)

theorem Sound.change (h : w.Sound r id state) {c : Change P} (hchange : w.change r c = some w') :
    w'.Sound r id state := by
  obtain ⟨e, hproposal, hchange⟩ := Option.bind_eq_some_iff.mp hchange
  rw [Change.act_of_proposal hproposal] at hchange
  by_cases hacc : w.live.Accepts e.event
  · rw [AggregateM.record_of_accepts hacc] at hchange
    obtain rfl := Option.some.inj hchange
    refine ⟨?_, ?_, h.holds, h.stored, h.encodes⟩
    · show Shows _ _ (w.saved ++ (w.unsaved ++ [⟨e, _⟩])) _
      rw [← List.append_assoc]
      exact h.shows.accept hacc rfl
    · show w.live.pending ++ [e] = (w.unsaved ++ [(⟨e, _⟩ : Moment S P)]).map Moment.event
      rw [h.pending, List.map_append]
      rfl
  · obtain ⟨x, hx⟩ := AggregateM.record_of_not_accepts (b := r.blueprint) hacc
    rw [hx] at hchange
    obtain rfl := Option.some.inj hchange
    exact h

/-- The pending events are above all that are stored, so none of them is stored already. -/
theorem Sound.newRows_eq (h : w.Sound r id state)
    (hfits : Fits w.store.rows (w.live.pending.map r.rowOf)) :
    newRows w.store.rows (w.live.pending.map r.rowOf) = w.live.pending.map r.rowOf := by
  refine newRows_eq_self fun row hrow hmem => ?_
  obtain ⟨row', hrow', hid⟩ := List.mem_map.mp hmem
  have hslot := hfits.owned row hrow row' hrow' hid
  obtain ⟨e, he, rfl⟩ := List.mem_map.mp hrow
  rw [h.pending] at he
  obtain ⟨x, hx, rfl⟩ := List.mem_map.mp he
  have hfollows := h.shows.follows
  have howner : x.event.aggregateId = id := Option.some.inj
    (hfollows.accepts x.event.event (List.mem_map_of_mem (List.mem_append_right _ hx))).1
  have hstored : row' ∈ inStream (r.streamOf id) w.store.rows := by
    refine mem_inStream.mpr ⟨hrow', ?_⟩
    rw [← howner]
    exact congrArg Slot.stream hslot
  rw [h.stored, List.map_map] at hstored
  obtain ⟨y, hy, rfl⟩ := List.mem_map.mp hstored
  have hincreasing := List.pairwise_map.mp hfollows.increasing
  have hlt : y.event.version < x.event.version :=
    (List.pairwise_append.mp hincreasing).2.2 y hy x hx
  exact Nat.ne_of_lt hlt (congrArg Slot.version hslot)

theorem Sound.save (hmem : r.storage = MemoryStore.storage) (h : w.Sound r id state)
    (hsave : w.save r = some w') : w'.Sound r id state := by
  unfold Author.save at hsave
  split at hsave
  · rename_i live store bus hresult
    obtain rfl := Option.some.inj hsave
    obtain ⟨rfl, hencodes, happend⟩ := Repository.of_save_eq_ok hmem hresult
    obtain ⟨hfits, hholds⟩ := h.holds.of_append_eq_ok happend
    rw [h.newRows_eq hfits] at hholds
    have hmine : ∀ row ∈ w.live.pending.map r.rowOf, row.stream = r.streamOf id := by
      intro row hrow
      rw [h.pending, List.map_map] at hrow
      obtain ⟨x, hx, rfl⟩ := List.mem_map.mp hrow
      have howner := (h.shows.follows.accepts x.event.event
        (List.mem_map_of_mem (List.mem_append_right _ hx))).1
      exact congrArg r.streamOf (Option.some.inj howner)
    refine ⟨?_, rfl, hholds.rows_eq.symm ▸ hholds, ?_, ?_⟩
    · rw [List.append_nil]
      exact ⟨h.shows.follows, h.shows.live_eq, h.shows.after_eq⟩
    · rw [hholds.rows_eq, inStream_append, h.stored, inStream_eq_self hmine, h.pending]
      simp
    · intro x hx
      rcases List.mem_append.mp hx with hx | hx
      · exact h.encodes x hx
      · exact hencodes x.event (h.pending ▸ List.mem_map_of_mem hx)
  · cases hsave

theorem Sound.append (hmem : r.storage = MemoryStore.storage) (h : w.Sound r id state)
    {rows : List EventRow} (happend : w.append r rows = some w') : w'.Sound r id state := by
  unfold Author.append at happend
  split at happend
  · rename_i hothers
    obtain rfl := Option.some.inj happend
    rw [h.live_id] at hothers
    cases hstore : w.store.append rows with
    | error e =>
      rw [hmem, MemoryStore.storage_append_of_error hstore]
      exact h
    | ok store =>
      obtain ⟨-, hholds⟩ := h.holds.of_append_eq_ok hstore
      have hnone : inStream (r.streamOf id) (newRows w.store.rows rows) = [] :=
        inStream_eq_nil fun row hrow => hothers row (mem_newRows.mp hrow).1
      rw [hmem, MemoryStore.storage_append_of_ok hstore]
      refine ⟨h.shows, h.pending, hholds.rows_eq.symm ▸ hholds, ?_, h.encodes⟩
      rw [hholds.rows_eq, inStream_append, hnone, List.append_nil]
      exact h.stored
  · cases happend

theorem Sound.after (hmem : r.storage = MemoryStore.storage) (h : w.Sound r id state)
    {d : Deed P} (hafter : w.after r d = some w') : w'.Sound r id state := by
  cases d with
  | change c => exact h.change hafter
  | save => exact h.save hmem hafter
  | append rows => exact h.append hmem hafter

theorem sound_of_run (hmem : r.storage = MemoryStore.storage) (h : w.Sound r id state)
    {deeds : List (Deed P)} (hrun : w.run r deeds = some w') : w'.Sound r id state := by
  induction deeds generalizing w with
  | nil =>
    obtain rfl := Option.some.inj hrun
    exact h
  | cons d deeds ih =>
    obtain ⟨w₁, hafter, hrun⟩ := Option.bind_eq_some_iff.mp hrun
    exact ih (h.after hmem hafter) hrun

/-! ## Loads -/

/-- A load with a ceiling replays the saved moments up to it, which are the first ones. -/
theorem Sound.loaded_eq (hmem : r.storage = MemoryStore.storage) (h : w.Sound r id state)
    (hcreate : r.blueprint.create id = some state)
    (hreads : ∀ x ∈ w.saved, r.ReadsBack x.event.payload) (ceiling : Nat) :
    r.load id ⟨some ceiling, true⟩ (w.store, w.bus) =
      (.ok (Moment.lastUpTo ceiling w.saved), (w.store, w.bus)) := by
  let upTo := w.saved.filter fun x => x.event.version ≤ ceiling
  have hincreasing : w.saved.Pairwise fun x y => x.event.version < y.event.version :=
    (List.pairwise_append.mp (List.pairwise_map.mp h.shows.follows.increasing)).1
  have hprefix : upTo <+: w.saved ++ w.unsaved :=
    (filter_key_initial hincreasing ceiling).trans (List.prefix_append _ _)
  have hfollows : (fresh id state : Aggregate S P).Follows (Moment.events upTo) := by
    obtain ⟨rest, hrest⟩ := hprefix
    have hall := h.shows.follows
    rw [← hrest, Moment.events, List.map_append] at hall
    exact ((follows_append r.blueprint _ _).mp hall).1
  have hhistory : r.history id ⟨some ceiling, true⟩ w.store.rows =
      (upTo.map (·.event)).map r.rowOf := by
    rw [Mapping.history_eq_filter, h.stored, List.filter_map, List.filter_map]
    simp only [Option.all_some, Function.comp_def, Mapping.rowOf_version]
    rfl
  have hrestores : ∀ e ∈ upTo.map (·.event), r.Restores e.payload := by
    intro e he
    obtain ⟨x, hx, rfl⟩ := List.mem_map.mp he
    have hsaved := (List.mem_filter.mp hx).1
    exact ⟨h.encodes x hsaved, hreads x hsaved⟩
  have hevents : (upTo.map (·.event)).map (·.event) = Moment.events upTo := List.map_map ..
  have hreplayed := Mapping.replayRows_map hcreate hrestores (List.Perm.refl _)
    (hevents.symm ▸ hfollows)
  rw [hevents] at hreplayed
  rw [Repository.load_eq hmem h.holds, hhistory]
  refine congrArg (·, _) (hreplayed.trans (congrArg Except.ok ?_))
  show _ = upTo.getLast?.map (·.after.clearChanges)
  cases hlast : upTo.getLast? with
  | none => simp [List.getLast?_eq_none_iff.mp hlast]
  | some x =>
    have hsome : upTo.map (·.event) ≠ [] := by
      intro hnil
      rw [List.map_eq_nil_iff.mp hnil] at hlast
      cases hlast
    rw [if_neg hsome, Option.map_some, h.shows.after_eq upTo hprefix x hlast]

/-- Whatever an author has done to an aggregate, a load with a ceiling finds nothing exactly if no
saved event is up to it, and otherwise gives the aggregate as it was right after the last such
event. Unless deleted aggregates are included, it is left out exactly if it was deleted then. -/
theorem past_is_loaded (m : Mapping S P) (publisher : Publisher P π) (bus : π)
    (hcreate : m.blueprint.create id = some state) (deeds : List (Deed P))
    (hrun : (start id state bus).run (m.inMemory publisher) deeds = some w)
    (hreads : ∀ x ∈ w.saved, m.ReadsBack x.event.payload) (ceiling : Nat) :
    let r := m.inMemory publisher
    let found := Moment.lastUpTo ceiling w.saved
    (found = none ↔ ∀ x ∈ w.saved, ceiling < x.event.version) ∧
      r.load id ⟨some ceiling, true⟩ (w.store, w.bus) = (.ok found, (w.store, w.bus)) ∧
      r.load id ⟨some ceiling, false⟩ (w.store, w.bus) =
        (.ok (found.filter fun a => !a.isDeleted), (w.store, w.bus)) := by
  intro r found
  have hsound : w.Sound r id state := sound_of_run rfl (sound_start id state bus) hrun
  have hload := hsound.loaded_eq rfl hcreate hreads ceiling
  exact ⟨Moment.lastUpTo_eq_none_iff, hload,
    Repository.load_withoutDeleted rfl hsound.holds ⟨some ceiling, false⟩ hload⟩

open Accounts

/-- The account of Ann begins at version 0, is closed and deleted at 7 after an event there was
rejected, and is restored at 12; the last deposit is not saved. -/
def annsDeeds : List (Deed AccountEvent) :=
  let dan : AggregateId := ⟨"dan", by decide, by decide, by decide⟩
  let closed : DomainEvent AccountEvent :=
    { version := some 7, deleteAction := .delete, payload := .closed }
  [.change (.apply ⟨⟨1⟩, .epoch⟩ { version := some 0, payload := .opened "Ann" 5 } none none),
   .save,
   .append [(World.rivals.mapping ()).rowOf ⟨⟨2⟩, dan, 1, .system, .epoch, .none, .opened "Dan" 9⟩],
   .change (.raise ⟨⟨3⟩, .epoch⟩ (.moneyDeposited 3)),
   .change (.apply ⟨⟨4⟩, .epoch⟩ closed none none),
   .change (.apply ⟨⟨5⟩, .epoch⟩ closed none none),
   .save,
   .change (.apply ⟨⟨6⟩, .epoch⟩
    { version := some 12, deleteAction := .undelete, payload := .reopened } none none),
   .save,
   .change (.raise ⟨⟨7⟩, .epoch⟩ (.moneyDeposited 4))]

/-- What comes of these deeds. -/
def annsAuthor : Author Account AccountEvent Unit :=
  ((start Life.annsId {} ()).run ((World.rivals.mapping ()).inMemory (World.rivals.publisher true))
    annsDeeds).getD (start Life.annsId {} ())

/-- Up to version 11 the account is deleted, and is loaded so although it was restored later. -/
theorem annsPast_is_loaded :
    let m := World.rivals.mapping ()
    let r := m.inMemory (World.rivals.publisher true)
    let w := annsAuthor
    let deleted : Aggregate Account AccountEvent :=
      ⟨Life.annsId, 7, true, true, [],
        { owner := "Ann", balance := 8, trail := ["Opened@0", "MoneyDeposited@1", "Closed@7"] }⟩
    m.blueprint.create Life.annsId = some {} ∧
      (start Life.annsId {} ()).run r annsDeeds = some w ∧
      w.saved.map (·.event.version) = [0, 1, 7, 12] ∧ w.live.isDeleted = false ∧
      (∀ x ∈ w.saved, m.ReadsBack x.event.payload) ∧
      r.load Life.annsId ⟨some 11, true⟩ (w.store, w.bus) =
        (.ok (some deleted), (w.store, w.bus)) ∧
      r.load Life.annsId ⟨some 11, false⟩ (w.store, w.bus) = (.ok none, (w.store, w.bus)) := by
  intro m r w deleted
  have hcreate : m.blueprint.create Life.annsId = some {} := by decide
  have hsome : ((start Life.annsId {} ()).run ((World.rivals.mapping ()).inMemory
      (World.rivals.publisher true)) annsDeeds).isSome := by decide +kernel
  have hrun : (start Life.annsId {} ()).run r annsDeeds = some w := by
    obtain ⟨w', hw'⟩ := Option.isSome_iff_exists.mp hsome
    show _ = some (Option.getD _ _)
    rw [hw', Option.getD_some]
  have hpayloads : ∀ x ∈ annsAuthor.saved,
      x.event.payload ≠ .unencodable ∧ x.event.payload.tag ∈ AccountEvent.tags := by decide +kernel
  have hreads : ∀ x ∈ w.saved, m.ReadsBack x.event.payload := fun x hx =>
    Mapping.readsBack_of_listed rfl (AccountEvent.faithful _)
      (AccountEvent.listed_of_mem_tags (hpayloads x hx).1 (hpayloads x hx).2)
  have hfound : Moment.lastUpTo 11 annsAuthor.saved = some
      ⟨Life.annsId, 7, true, true, [],
        { owner := "Ann", balance := 8
          trail := ["Opened@0", "MoneyDeposited@1", "Closed@7"] }⟩ := by decide +kernel
  obtain ⟨-, hload, hless⟩ :=
    past_is_loaded m (World.rivals.publisher true) () hcreate annsDeeds hrun hreads 11
  rw [hfound] at hload hless
  exact ⟨hcreate, hrun, by decide +kernel, by decide +kernel, hreads, hload, hless⟩

end Author

end EventStore
