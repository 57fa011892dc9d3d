import EventStore.Proofs.WriterSafety

/-!
# Saves that come too late

Events may be given versions, and so versions may be skipped. A memory refuses an event whose slot
is taken and asks nothing else, so it is the next version of an aggregate that decides: a save is
refused if that version is stored, and may succeed if it was skipped.

Proved here, for any number of writers of one memory that take steps in any order:

* `rows_of_runs`: rows are only added, in slots that are free;
* `settled_construct`, `settled_load`, `settled_publish`: an aggregate that was constructed, loaded
  or saved is at some version, with an empty queue;
* `waiting_of_runs`: while it waits to be saved, its queue starts with the next version;
* `save_of_taken`, `step_append_of_taken`: a save is refused if the slot of one of its new events is
  taken;
* `stale_save_conflicts`: so that of a waiting aggregate is refused once the next version is stored;
* `skipped_version_is_taken`: and may succeed below a stored version that is not the next one.
-/

namespace EventStore

variable {S P : Type}

/-! ## The next version -/

/-- The version that a change gives its event. -/
def Change.version? : Change P → Option Nat
  | .apply _ e _ _ => e.version
  | _ => none

/-- A change whose event goes to the next version of an aggregate. -/
def Change.GoesNext (c : Change P) (a : Aggregate S P) : Prop :=
  ∀ e, c.proposal? a = some e → e.version = a.version + 1

theorem Change.goesNext {c : Change P} {a : Aggregate S P}
    (h : c.version? = none ∨ c.version? = some (a.version + 1)) : c.GoesNext a := by
  intro e he
  cases c with
  | apply stamp f actor time =>
    obtain rfl := Option.some.inj he
    have hversion : f.version = none ∨ f.version = some (a.version + 1) := h
    rcases hversion with hversion | hversion <;> simp [Aggregate.complete, hversion]
  | raise stamp payload =>
    obtain rfl := Option.some.inj he
    rfl
  | clear => cases he

/-- An aggregate that had a version when its queue was empty, and whose queue goes on from there. -/
def Aggregate.GoesOn (a : Aggregate S P) (id : AggregateId) (version : Nat) : Prop :=
  a.id = id ∧ (a.pending = [] ∧ a.version = version ∨
    ∃ e l, a.pending = e :: l ∧ e.version = version + 1 ∧ e.aggregateId = id)

theorem Life.goesOn_after {life : Life S P} {id : AggregateId} {version : Nat}
    (h : life.aggregate.GoesOn id version) (b : Blueprint S P) {c : Change P} (hclear : c ≠ .clear)
    (hc : life.aggregate.pending = [] → c.GoesNext life.aggregate) :
    (life.after b c).aggregate.GoesOn id version := by
  obtain ⟨hid, hqueue⟩ := h
  rcases after_cases b life c with ⟨e, he, hacc, heq⟩ | ⟨e, -, -, heq⟩ | ⟨rfl, -⟩
  · rw [heq]
    refine ⟨hid, Or.inr ?_⟩
    rcases hqueue with ⟨hnone, hversion⟩ | ⟨x, l, hpending, hx⟩
    · have howner : e.aggregateId = life.aggregate.id := Option.some.inj hacc.1
      refine ⟨e, [], ?_, ?_, howner.trans hid⟩
      · rw [accept, hnone, List.nil_append]
      · rw [hc hnone e he, hversion]
    · exact ⟨x, l ++ [e], by rw [accept, hpending, List.cons_append], hx⟩
  · rw [heq]
    exact ⟨hid, hqueue⟩
  · exact absurd rfl hclear

/-! ## What a memory refuses -/

/-- The first row of a batch is refused for its slot alone. -/
theorem MemoryStore.Holds.append_of_taken {s : MemoryStore} {rows l : List EventRow}
    (h : s.Holds rows) {r : EventRow} (hid : r.eventId ∉ rows.map (·.eventId))
    (hslot : r.slot ∈ rows.map (·.slot)) : s.append (r :: l) = .error (.conflict r.slot) := by
  obtain ⟨log, hkeeps, rfl⟩ := h
  rw [List.map_map] at hid hslot
  have hnew : s.slotOf? r.eventId = none := (hkeeps.slotOf?_eq_none_iff _).mpr hid
  have htaken : s.occupied r.slot = true := (hkeeps.occupied_iff _).mpr hslot
  simp [append, unstored, unstoredAfter, hnew, htaken, Except.map]

/-- Of events that are new, each with its own id, a batch can only be refused for a slot. -/
theorem MemoryStore.conflict_of_unstoredAfter {s : MemoryStore} {ids : List Uuid}
    {slots : List Slot} {l : List EventRow} {e : StorageError}
    (hnew : ∀ r ∈ l, s.slotOf? r.eventId = none) (hids : ∀ r ∈ l, r.eventId ∉ ids)
    (hnodup : (l.map (·.eventId)).Nodup) (h : s.unstoredAfter ids slots l = .error e) :
    ∃ r ∈ l, e = .conflict r.slot := by
  induction l generalizing ids slots with
  | nil => cases h
  | cons r l ih =>
    obtain ⟨hfirst, hnodup⟩ := List.nodup_cons.mp hnodup
    rw [unstoredAfter, if_neg (hids r List.mem_cons_self), hnew r List.mem_cons_self] at h
    dsimp only at h
    split at h
    · exact ⟨r, List.mem_cons_self, (Except.error.inj h).symm⟩
    · have hids' : ∀ r' ∈ l, r'.eventId ∉ r.eventId :: ids := by
        intro r' hr' hmem
        rcases List.mem_cons.mp hmem with heq | hmem
        · exact hfirst (List.mem_map.mpr ⟨r', hr', heq⟩)
        · exact hids r' (List.mem_cons_of_mem _ hr') hmem
      cases hrest : s.unstoredAfter (r.eventId :: ids) (r.slot :: slots) l with
      | ok l' =>
        rw [hrest] at h
        cases h
      | error x =>
        rw [hrest] at h
        obtain rfl : x = e := Except.error.inj h
        have hnew' : ∀ r ∈ l, s.slotOf? r.eventId = none := fun r hr =>
          hnew r (List.mem_cons_of_mem _ hr)
        obtain ⟨r', hr', heq⟩ := ih hnew' hids' hnodup hrest
        exact ⟨r', List.mem_cons_of_mem _ hr', heq⟩

theorem MemoryStore.Holds.arrivals_eq {s : MemoryStore} {rows : List EventRow} (h : s.Holds rows)
    (k : StreamKey) : (s.arrivals k).map (·.row) = inStream k rows := by
  obtain ⟨log, hkeeps, rfl⟩ := h
  rw [hkeeps.arrivals_eq, inStream, List.filter_map]
  rfl

theorem MemoryStore.Holds.slotOf?_eq_none_iff {s : MemoryStore} {rows : List EventRow}
    (h : s.Holds rows) (id : Uuid) : s.slotOf? id = none ↔ id ∉ rows.map (·.eventId) := by
  obtain ⟨log, hkeeps, rfl⟩ := h
  rw [hkeeps.slotOf?_eq_none_iff, List.map_map]
  rfl

/-- A batch of new events, each with its own id, is refused as a conflict if a slot is taken. -/
theorem MemoryStore.Holds.conflict_of_taken {s : MemoryStore} {rows l : List EventRow}
    (h : s.Holds rows) (hnew : ∀ r ∈ l, r.eventId ∉ rows.map (·.eventId))
    (hnodup : (l.map (·.eventId)).Nodup) (htaken : ∃ r ∈ l, r.slot ∈ rows.map (·.slot)) :
    ∃ r ∈ l, s.append l = .error (.conflict r.slot) := by
  cases hunstored : s.unstored l with
  | ok l' =>
    have happend : s.append l = .ok (l'.foldl push s) := by rw [append, hunstored]; rfl
    obtain ⟨r, hr, htaken⟩ := htaken
    exact absurd htaken ((h.of_append_eq_ok happend).1.free r (mem_newRows.mpr ⟨hr, hnew r hr⟩))
  | error e =>
    obtain ⟨r, hr, rfl⟩ := conflict_of_unstoredAfter
      (fun r hr => (h.slotOf?_eq_none_iff r.eventId).mpr (hnew r hr)) (by simp) hnodup hunstored
    exact ⟨r, hr, by rw [append, hunstored]; rfl⟩

namespace World

variable {ι W π : Type} {S P : ι → Type} {t : Team ι W π S P} {g g' : World t}
  {rows : List EventRow} {w : W} {i : Nat} {id : AggregateId} {version : Nat}

/-- The aggregate in a slot has an empty queue, and its writer is not saving. -/
structure Settled (g : World t) (w : W) (i : Nat) (id : AggregateId) (version : Nat) : Prop where
  idle : (g.writers w).saving = none
  held : ∃ h, (g.writers w).held i = some h ∧ h.life.aggregate.id = id ∧
    h.life.aggregate.version = version ∧ h.life.aggregate.pending = []

/-- The aggregate in a slot has not been saved, and its queue goes on from a version. -/
structure Waiting (g : World t) (w : W) (i : Nat) (id : AggregateId) (version : Nat) : Prop where
  aside : ∀ saving, (g.writers w).saving = some saving → i ∉ saving.slots
  held : ∃ h, (g.writers w).held i = some h ∧ h.life.aggregate.GoesOn id version

theorem Settled.waiting (h : g.Settled w i id version) : g.Waiting w i id version where
  aside := by simp [h.idle]
  held := by
    obtain ⟨x, hheld, hid, hversion, hnone⟩ := h.held
    exact ⟨x, hheld, hid, Or.inl ⟨hnone, hversion⟩⟩

/-- The first event in the queue of a waiting aggregate goes to the next slot. -/
theorem Waiting.next_slot (h : g.Waiting w i id version) {x : Held (S (t.kind w)) (P (t.kind w))}
    (hheld : (g.writers w).held i = some x) (hqueue : x.life.aggregate.pending ≠ []) :
    ∃ e l, x.life.aggregate.pending = e :: l ∧
      ((t.of w).rowOf e).slot = ⟨(t.of w).streamOf id, version + 1⟩ := by
  obtain ⟨x', hx', -, hgoes⟩ := h.held
  obtain rfl : x' = x := Option.some.inj (hx'.symm.trans hheld)
  rcases hgoes with ⟨hnone, -⟩ | ⟨e, l, hpending, hversion, howner⟩
  · exact absurd hnone hqueue
  · refine ⟨e, l, hpending, ?_⟩
    rw [EventRow.slot, Mapping.rowOf_stream, Mapping.rowOf_version, howner, hversion]

/-- A save of new events, each with its own id, reports a conflict if the slot of one of them is
taken. The aggregate keeps them. -/
theorem save_of_taken (hs : g.store.Holds rows) {a : Aggregate (S (t.kind w)) (P (t.kind w))}
    (hnew : ∀ e ∈ a.pending, e.id ∉ rows.map (·.eventId)) (hnodup : (a.pending.map (·.id)).Nodup)
    (hencodes : ∀ e ∈ a.pending, (t.of w).Encodes e.payload)
    (htaken : ∃ e ∈ a.pending, ((t.of w).rowOf e).slot ∈ rows.map (·.slot)) :
    ∃ e ∈ a.pending, (t.of w).save (a, (g.store, g.bus)) =
      (.error (.storage (.conflict ((t.of w).rowOf e).slot)), (a, (g.store, g.bus))) := by
  obtain ⟨e, he, htaken⟩ := htaken
  obtain ⟨r, hr, happend⟩ := hs.conflict_of_taken (l := a.pending.map (t.of w).rowOf)
    (List.forall_mem_map.mpr hnew) (by rwa [List.map_map]) ⟨_, List.mem_map_of_mem he, htaken⟩
  obtain ⟨e', he', rfl⟩ := List.mem_map.mp hr
  exact ⟨e', he', Repository.save_of_append_error rfl hencodes (List.ne_nil_of_mem he) happend⟩

/-- The save of a waiting aggregate reports a conflict if the next version is stored, whatever else
is in its queue. -/
theorem Waiting.save_of_taken (h : g.Waiting w i id version) (hs : g.store.Holds rows)
    {x : Held (S (t.kind w)) (P (t.kind w))} (hheld : (g.writers w).held i = some x)
    (hqueue : x.life.aggregate.pending ≠ [])
    (hnew : ∀ e ∈ x.life.aggregate.pending, e.id ∉ rows.map (·.eventId))
    (hencodes : ∀ e ∈ x.life.aggregate.pending, (t.of w).Encodes e.payload)
    (hstored : ⟨(t.of w).streamOf id, version + 1⟩ ∈ rows.map (·.slot)) :
    (t.of w).save (x.life.aggregate, (g.store, g.bus)) =
      (.error (.storage (.conflict ⟨(t.of w).streamOf id, version + 1⟩)),
        (x.life.aggregate, (g.store, g.bus))) := by
  obtain ⟨e, l, hpending, hslot⟩ := h.next_slot hheld hqueue
  have happend := hs.append_of_taken (l := l.map (t.of w).rowOf) (r := (t.of w).rowOf e)
    (hnew e (hpending ▸ List.mem_cons_self)) (hslot ▸ hstored)
  rw [hslot, ← List.map_cons, ← hpending] at happend
  exact Repository.save_of_append_error rfl hencodes hqueue happend

variable [DecidableEq W]

/-- Actions that leave a slot to its aggregate and do not save it. The first event that is queued
there goes to the next version; else events may be given any versions. -/
def Leaves (w : W) (i : Nat) (g : World t) : Action t → Prop
  | .construct w' slot _ | .load w' slot _ _ => (w, i) ≠ (w', slot)
  | .change w' slot c => (w, i) = (w', slot) → c ≠ .clear ∧
      ∀ h, (g.writers w').held slot = some h → h.life.aggregate.pending = [] →
        c.GoesNext h.life.aggregate
  | .append w' slots => w' = w → i ∉ slots
  | .publish _ => True

/-! ## Rows are only added -/

theorem rows_step (hs : g.store.Holds rows) (a : Action t) :
    ∃ l, (g.step a).store.Holds (rows ++ l) := by
  have houtcome := outcome_step hs a
  generalize g.step a = g' at houtcome
  have hsame : g.store.Holds (rows ++ []) := by rwa [List.append_nil]
  cases houtcome with
  | appended w slots store idle encodes stored => exact ⟨_, (hs.of_append_eq_ok stored).2⟩
  | _ => exact ⟨[], hsame⟩

theorem rows_of_runs {allowed : World t → Action t → Prop} (hs : g.store.Holds rows)
    (h : Runs allowed g g') : ∃ l, g'.store.Holds (rows ++ l) := by
  induction h with
  | refl => exact ⟨[], by rwa [List.append_nil]⟩
  | tail _ hmove ih =>
    obtain ⟨l, hl⟩ := ih
    obtain ⟨a, -, rfl⟩ := hmove
    obtain ⟨l', hl'⟩ := rows_step hl a
    exact ⟨l ++ l', by rwa [← List.append_assoc]⟩

/-! ## An aggregate that waits to be saved -/

theorem held_put_self (g : World t) (w : W) (i : Nat) (x : Held (S (t.kind w)) (P (t.kind w))) :
    ((g.put w i x).writers w).held i = some x := by
  simp [put]

theorem held_put_of_ne {w w' : W} {i slot : Nat} (hne : (w, i) ≠ (w', slot)) (g : World t)
    (x : Held (S (t.kind w')) (P (t.kind w'))) :
    ((g.put w' slot x).writers w).held i = (g.writers w).held i := by
  by_cases hw : w = w'
  · subst hw
    have hi : i ≠ slot := fun hi => hne (by rw [hi])
    simp [put, hi]
  · simp [put, hw]

theorem held_clear_of_not_mem {w w' : W} {i : Nat} {slots : List Nat} (hi : w' = w → i ∉ slots)
    (g : World t) : ((g.clear w' slots).writers w).held i = (g.writers w).held i := by
  by_cases hw : w = w'
  · subst hw
    simp [clear, hi rfl]
  · simp [clear, hw]

/-- Another aggregate comes into a writer's hands. -/
theorem Waiting.put_of_ne (h : g.Waiting w i id version) {w' : W} {slot : Nat}
    (hne : (w, i) ≠ (w', slot)) (made : List Uuid) (x : Held (S (t.kind w')) (P (t.kind w'))) :
    Waiting ({ g with made }.put w' slot x) w i id version where
  aside := by
    rw [saving_put]
    exact h.aside
  held := by
    rw [held_put_of_ne hne]
    exact h.held

/-- A save starts, goes on or ends, and is none of the waiting aggregate. -/
theorem Waiting.setSaving (h : g.Waiting w i id version) {w' : W} (store : MemoryStore) (bus : π)
    {saving : Option (Saving (P (t.kind w')))} (hother : ∀ s ∈ saving, w' = w → i ∉ s.slots) :
    Waiting ({ g with store, bus }.setSaving w' saving) w i id version where
  aside := by
    intro s hs
    by_cases hw : w = w'
    · subst hw
      rw [saving_setSaving_self] at hs
      exact hother s hs rfl
    · rw [saving_setSaving_of_ne _ hw] at hs
      exact h.aside s hs
  held := by
    rw [held_setSaving]
    exact h.held

theorem waiting_step (hs : g.store.Holds rows) (h : g.Waiting w i id version) {a : Action t}
    (ha : Leaves w i g a) : (g.step a).Waiting w i id version := by
  have houtcome := outcome_step hs a
  generalize g.step a = g' at houtcome
  cases houtcome with
  | nothing => exact h
  | constructed w' slot _ state idle created => exact h.put_of_ne ha g.made _
  | loaded w' slot _ options x idle replayed => exact h.put_of_ne ha g.made _
  | changed w' slot c x idle held =>
    by_cases hplace : (w, i) = (w', slot)
    · obtain ⟨hclear, hc⟩ := ha hplace
      obtain ⟨rfl, rfl⟩ := Prod.mk.inj hplace
      obtain ⟨x', hx', hgoes⟩ := h.held
      obtain rfl : x' = x := Option.some.inj (hx'.symm.trans held)
      refine ⟨fun saving hsaving => ?_, _, held_put_self _ _ _ _, ?_⟩
      · rw [saving_put] at hsaving
        exact h.aside saving hsaving
      · exact Life.goesOn_after hgoes _ hclear (hc x' held)
    · exact h.put_of_ne hplace _ _
  | appended w' slots store idle encodes stored =>
    refine h.setSaving store g.bus fun s hs hw => ?_
    rw [← Option.some.inj hs]
    exact ha hw
  | published w' saving unpublished bus underWay =>
    refine h.setSaving g.store bus fun s hs hw => ?_
    subst hw
    rw [← Option.some.inj hs]
    exact h.aside saving underWay
  | abandoned w' bus => exact h.setSaving g.store bus fun s hs => nomatch hs
  | cleared w' saving underWay =>
    have hslots : w' = w → i ∉ saving.slots := by
      rintro rfl
      exact h.aside saving underWay
    have hclear : (g.clear w' saving.slots).Waiting w i id version := by
      refine ⟨?_, ?_⟩
      · rw [saving_clear]
        exact h.aside
      · rw [held_clear_of_not_mem hslots]
        exact h.held
    exact hclear.setSaving g.store g.bus fun s hs => nomatch hs

theorem waiting_of_runs (hs : g.store.Holds rows) (h : g.Waiting w i id version)
    (hruns : Runs (Leaves w i) g g') : g'.Waiting w i id version := by
  induction hruns with
  | refl => exact h
  | tail hruns hmove ih =>
    obtain ⟨l, hl⟩ := rows_of_runs hs hruns
    obtain ⟨a, ha, rfl⟩ := hmove
    exact waiting_step hl ih ha

/-! ## Aggregates with empty queues -/

theorem settled_construct (hidle : (g.writers w).saving = none) {state : S (t.kind w)}
    (hcreate : (t.of w).blueprint.create id = some state) :
    (g.step (.construct w i id)).Settled w i id 0 := by
  have hstep : g.step (.construct w i id) = g.put w i ⟨⟨.fresh id state, []⟩, []⟩ := by
    simp [step, hidle, construct, hcreate]
  rw [hstep]
  exact ⟨by rw [saving_put, hidle], _, held_put_self _ _ _ _, rfl, rfl, rfl⟩

/-- An aggregate that is loaded without a ceiling is at the highest version that is stored. -/
theorem settled_load (hs : g.store.Holds rows) (hidle : (g.writers w).saving = none)
    {options : LoadOptions} {a : Aggregate (S (t.kind w)) (P (t.kind w))}
    (hload : (t.of w).replayRows id options ((t.of w).history id options rows) = .ok (some a)) :
    (g.step (.load w i id options)).Settled w i id a.version ∧
      (options.maxVersion = none →
        (∃ r ∈ inStream ((t.of w).streamOf id) rows, r.version = a.version) ∧
        ∀ r ∈ inStream ((t.of w).streamOf id) rows, r.version ≤ a.version) := by
  have hresult := Repository.load_eq (r := t.of w) (p := g.bus) rfl hs id options
  rw [hload] at hresult
  have hstep : g.step (.load w i id options) =
      g.put w i ⟨⟨a, []⟩, (t.of w).history id options g.store.rows⟩ := by
    simp [step, hidle, load, hresult]
  obtain ⟨events, hevents, hne, hreplay, -⟩ := Mapping.replayRows_eq_some_iff.mp hload
  have hversions := map_eq_map_of_mapM (fun _ _ _ he => Mapping.versionNumber_of_ofRow he) hevents
  obtain ⟨state, -, -, ha⟩ := Aggregate.replay_eq_ok_iff.mp hreplay
  obtain ⟨hle, e, he, heq⟩ := Aggregate.version_of_replay hreplay hne
  constructor
  · rw [hstep]
    refine ⟨by rw [saving_put, hidle], _, held_put_self _ _ _ _, ?_, rfl, ?_⟩
    · rw [ha, Aggregate.foldl_advance_id]
      rfl
    · rw [ha, Aggregate.foldl_advance_pending]
      rfl
  · intro hnone
    have hhistory : (t.of w).history id options rows = inStream ((t.of w).streamOf id) rows := by
      refine List.filter_congr fun r _ => ?_
      rw [Bool.eq_iff_iff, Mapping.accepts_filterOne_iff]
      simp [hnone]
    rw [hhistory] at hversions
    have hmem : ∀ n, n ∈ events.map (·.versionNumber) ↔
        n ∈ (inStream ((t.of w).streamOf id) rows).map (·.version) := by simp [hversions]
    refine ⟨?_, fun r hr => ?_⟩
    · obtain ⟨r, hr, hversion⟩ := List.mem_map.mp ((hmem _).mp (List.mem_map_of_mem he))
      exact ⟨r, hr, hversion.trans heq⟩
    · obtain ⟨f, hf, hversion⟩ := List.mem_map.mp ((hmem _).mpr (List.mem_map_of_mem hr))
      exact hversion ▸ hle f hf

/-- The end of a save. -/
theorem settled_publish {slots : List Nat} (hi : i ∈ slots)
    (hsaving : (g.writers w).saving = some ⟨slots, []⟩) {h : Held (S (t.kind w)) (P (t.kind w))}
    (hheld : (g.writers w).held i = some h) :
    (g.step (.publish w)).Settled w i h.life.aggregate.id h.life.aggregate.version := by
  have hstep : g.step (.publish w) = (g.clear w slots).setSaving w none := by
    simp [step, hsaving, proceed]
  rw [hstep]
  refine ⟨saving_setSaving_self _ _ _,
    { h with life := h.life.after (t.of w).blueprint .clear }, ?_, rfl, rfl, rfl⟩
  rw [held_setSaving]
  simp [clear, hi, hheld]

/-! ## Saves that come too late -/

/-- A batch with a new event for a slot that is taken is not stored. -/
theorem step_append_of_taken (hs : g.store.Holds rows) {slots : List Nat} (hi : i ∈ slots)
    {x : Held (S (t.kind w)) (P (t.kind w))} (hheld : (g.writers w).held i = some x)
    {e : RecordedEvent (P (t.kind w))} (he : e ∈ x.life.aggregate.pending)
    (hnew : e.id ∉ rows.map (·.eventId)) (htaken : ((t.of w).rowOf e).slot ∈ rows.map (·.slot)) :
    g.step (.append w slots) = g := by
  have hmem : x.life.aggregate ∈ g.aggregates w slots :=
    List.mem_map_of_mem (mem_chosen.mpr ⟨i, hi, hheld⟩)
  have hbatch : (t.of w).rowOf e ∈ newRows rows ((t.of w).batch (g.aggregates w slots)) :=
    mem_newRows.mpr ⟨List.mem_map_of_mem (List.mem_flatMap.mpr ⟨_, hmem, he⟩), hnew⟩
  rcases Repository.appendPending_cases (r := t.of w) rfl (g.aggregates w slots) g.store
    g.bus with ⟨_, h⟩ | ⟨hnone, -⟩ | ⟨_, -, happend, -, -⟩
  · exact step_append_of_error h
  · rw [hnone _ hmem] at he
    cases he
  · exact absurd htaken ((hs.of_append_eq_ok happend).1.free _ hbatch)

theorem added_of_runs {allowed : World t → Action t → Prop} (hs : g.store.Holds rows)
    (h : Runs allowed g g') :
    ∃ l, g'.store.rows = rows ++ l ∧ ∀ r ∈ l, r.slot ∉ rows.map (·.slot) := by
  obtain ⟨l, hl⟩ := rows_of_runs hs h
  exact ⟨l, hl.rows_eq, (unique_append.mp hl.unique).2.2.2⟩

/-- In every world that writers can bring about:

An aggregate was constructed, loaded or saved, and was then at some version; the first event that
was queued on it went to the next one, whatever others did. Once that version is stored, the save of
the queue is refused as a conflict, and every save of a batch with it changes nothing.

Any save of new events, each with its own id, is refused as a conflict if the slot of one of them is
taken, and every save of a batch with a new event for a slot that is taken changes nothing.

No row is changed or removed from there on, and all rows that are added go to slots that were
free. -/
theorem stale_save_conflicts (bus : π) {g : World t}
    (hg : Runs (fun _ _ => True) (start t bus) g) :
    (∀ g₀ w i id version, Runs (fun _ _ => True) (start t bus) g₀ → g₀.Settled w i id version →
      Runs (Leaves w i) g₀ g → ∀ x, (g.writers w).held i = some x →
      x.life.aggregate.pending ≠ [] →
      (∀ e ∈ x.life.aggregate.pending, e.id ∉ g.store.rows.map (·.eventId)) →
      (∀ e ∈ x.life.aggregate.pending, (t.of w).Encodes e.payload) →
      ⟨(t.of w).streamOf id, version + 1⟩ ∈ g.store.rows.map (·.slot) →
      (t.of w).save (x.life.aggregate, (g.store, g.bus)) =
          (.error (.storage (.conflict ⟨(t.of w).streamOf id, version + 1⟩)),
            (x.life.aggregate, (g.store, g.bus))) ∧
        ∀ slots, i ∈ slots → g.step (.append w slots) = g) ∧
    (∀ w (a : Aggregate (S (t.kind w)) (P (t.kind w))),
      (∀ e ∈ a.pending, e.id ∉ g.store.rows.map (·.eventId)) → (a.pending.map (·.id)).Nodup →
      (∀ e ∈ a.pending, (t.of w).Encodes e.payload) →
      (∃ e ∈ a.pending, ((t.of w).rowOf e).slot ∈ g.store.rows.map (·.slot)) →
      ∃ e ∈ a.pending, (t.of w).save (a, (g.store, g.bus)) =
        (.error (.storage (.conflict ((t.of w).rowOf e).slot)), (a, (g.store, g.bus)))) ∧
    (∀ w i x, (g.writers w).held i = some x → ∀ e ∈ x.life.aggregate.pending,
      e.id ∉ g.store.rows.map (·.eventId) →
      ((t.of w).rowOf e).slot ∈ g.store.rows.map (·.slot) →
      ∀ slots, i ∈ slots → g.step (.append w slots) = g) ∧
    ∀ g', Runs (fun _ _ => True) g g' → ∃ l, g'.store.rows = g.store.rows ++ l ∧
      ∀ r ∈ l, r.slot ∉ g.store.rows.map (·.slot) := by
  obtain ⟨rows, hs⟩ := rows_of_runs MemoryStore.holds_empty hg
  rw [List.nil_append] at hs
  rw [hs.rows_eq]
  refine ⟨?_, fun w a hnew hnodup henc => save_of_taken hs hnew hnodup henc,
    fun w i x hheld e he hnew htaken slots hi => step_append_of_taken hs hi hheld he hnew htaken,
    fun g' hg' => added_of_runs hs hg'⟩
  intro g₀ w i id version hstart hsettled hruns x hheld hqueue hnew hencodes hstored
  obtain ⟨rows₀, hs₀⟩ := rows_of_runs MemoryStore.holds_empty hstart
  have hwaiting := waiting_of_runs hs₀ hsettled.waiting hruns
  obtain ⟨e, l, hpending, hslot⟩ := hwaiting.next_slot hheld hqueue
  have he : e ∈ x.life.aggregate.pending := by simp [hpending]
  exact ⟨hwaiting.save_of_taken hs hheld hqueue hnew hencodes hstored, fun slots hi =>
    step_append_of_taken hs hi hheld he (hnew e he) (hslot ▸ hstored)⟩

open Accounts

/-- One opens an account and saves it, and the other one loads it. -/
def sharing : List (Action rivals) :=
  [.construct true 0 Life.annsId, .change true 0 (.raise ⟨⟨1⟩, .epoch⟩ (.opened "Ann" 5)),
   .append true [0], .publish true, .publish true, .load false 0 Life.annsId {}]

/-- Then each makes a deposit, the first one at the given version, and saves it; the other has not
saved its own yet. -/
def overtaking (version : Option Nat) : List (Action rivals) :=
  [.change true 0 (.apply ⟨⟨2⟩, .epoch⟩ { version, payload := .moneyDeposited 3 } none none),
   .append true [0], .publish true, .publish true,
   .change false 0 (.raise ⟨⟨3⟩, .epoch⟩ (.moneyDeposited 4))]

/-- The versions that are stored of the account, in the order of arrival. -/
def annsVersions (g : World rivals) : List Nat :=
  (g.store.arrivals ((rivals.mapping ()).streamOf Life.annsId)).map (·.row.version)

/-- The queue of the second writer. -/
def waitingEvents (g : World rivals) : Option (List (RecordedEvent AccountEvent)) :=
  ((g.writers false).held 0).map fun h => h.life.aggregate.pending

/-- The deposit of the second writer, which takes the next version. -/
def lateDeposit : RecordedEvent AccountEvent :=
  ⟨⟨3⟩, Life.annsId, 2, .system, .epoch, .none, .moneyDeposited 4⟩

theorem settled_sharing :
    (sharing.foldl step (start rivals ())).Settled false 0 Life.annsId 1 := by
  have hloaded : (((sharing.foldl step (start rivals ())).writers false).held 0).map
      (fun h => (h.life.aggregate.id, h.life.aggregate.version, h.life.aggregate.pending)) =
        some (Life.annsId, 1, []) := by decide +kernel
  have hidle : ((sharing.foldl step (start rivals ())).writers false).saving.isNone = true := by
    decide +kernel
  obtain ⟨h, hheld, heq⟩ := Option.map_eq_some_iff.mp hloaded
  obtain ⟨hid, heq⟩ := Prod.mk.inj heq
  obtain ⟨hversion, hnone⟩ := Prod.mk.inj heq
  exact ⟨Option.isNone_iff_eq_none.mp hidle, h, hheld, hid, hversion, hnone⟩

theorem stale_deposit_conflicts :
    let g := (overtaking none).foldl step (sharing.foldl step (start rivals ()))
    Runs (fun _ _ => True) (start rivals ()) g ∧
      ∃ x, (g.writers false).held 0 = some x ∧ x.life.aggregate.pending = [lateDeposit] ∧
        (rivals.of false).save (x.life.aggregate, (g.store, g.bus)) =
          (.error (.storage (.conflict ⟨(rivals.of false).streamOf Life.annsId, 2⟩)),
            (x.life.aggregate, (g.store, g.bus))) ∧
        (∀ slots, 0 ∈ slots → g.step (.append false slots) = g) ∧
        ∀ g', Runs (fun _ _ => True) g g' → ∃ l, g'.store.rows = g.store.rows ++ l ∧
          ∀ r ∈ l, r.slot ∉ g.store.rows.map (·.slot) := by
  intro g
  have hstart : Runs (fun _ _ => True) (start rivals ()) (sharing.foldl step (start rivals ())) :=
    runs_foldl ⟨trivial, trivial, trivial, trivial, trivial, trivial, trivial⟩
  have hruns : Runs (Leaves false 0) (sharing.foldl step (start rivals ())) g := by
    refine runs_foldl ⟨?_, ?_, trivial, trivial, ?_, trivial⟩
    · exact fun h => nomatch (Prod.mk.inj h).1
    · exact fun h => nomatch h
    · exact fun _ => ⟨nofun, fun _ _ _ => Change.goesNext (Or.inl rfl)⟩
  have hg : Runs (fun _ _ => True) (start rivals ()) g :=
    hstart.trans (runs_mono (fun _ _ _ => trivial) hruns)
  obtain ⟨rows, hs⟩ := rows_of_runs MemoryStore.holds_empty hg
  have hversions : annsVersions g = [1, 2] := by decide +kernel
  have hwaiting : waitingEvents g = some [lateDeposit] := by decide +kernel
  have hfree : g.store.slotOf? ⟨3⟩ = none := by decide +kernel
  obtain ⟨x, hheld, hpending⟩ := Option.map_eq_some_iff.mp hwaiting
  have hstored : annsVersions g =
      (inStream ((rivals.of false).streamOf Life.annsId) g.store.rows).map (·.version) := by
    rw [hs.rows_eq, ← hs.arrivals_eq, List.map_map]
    rfl
  have htwo : 2 ∈ annsVersions g := by
    rw [hversions]
    decide
  rw [hstored] at htwo
  obtain ⟨r, hr, hversion⟩ := List.mem_map.mp htwo
  obtain ⟨hr, hstream⟩ := mem_inStream.mp hr
  obtain ⟨hstale, -, -, hadded⟩ := stale_save_conflicts () hg
  obtain ⟨hsave, hbatch⟩ := hstale _ false 0 Life.annsId 1 hstart settled_sharing hruns x hheld
    (by rw [hpending]; exact List.cons_ne_nil _ _)
    (by
      rw [hpending, hs.rows_eq]
      exact List.forall_mem_singleton.mpr ((hs.slotOf?_eq_none_iff _).mp hfree))
    (by rw [hpending]; exact List.forall_mem_singleton.mpr ⟨_, rfl⟩)
    (List.mem_map.mpr ⟨r, hr, by rw [EventRow.slot, hstream, hversion]⟩)
  exact ⟨hg, x, hheld, hpending, hsave, hbatch, hadded⟩

/-- Versions may be skipped and taken later: an account is loaded at its highest version 1, another
writer stores version 3, and then the save of version 2 succeeds, though it is of an event that was
not stored. -/
theorem skipped_version_is_taken :
    let g₀ := sharing.foldl step (start rivals ())
    let g := (overtaking (some 3)).foldl step g₀
    annsVersions g₀ = [1] ∧ waitingEvents g₀ = some [] ∧
      annsVersions g = [1, 3] ∧ waitingEvents g = some [lateDeposit] ∧
      g.store.slotOf? lateDeposit.id = none ∧
      annsVersions (g.step (.append false [0])) = [1, 3, 2] := by
  decide +kernel

end World

end EventStore
