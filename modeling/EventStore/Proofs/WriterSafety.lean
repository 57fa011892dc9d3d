import EventStore.Proofs.Holdings

/-!
# No writer overtakes another unseen

Proved here, for any number of writers of one memory that take steps in any order, where the engine
makes fresh ids and the next versions (`Engine`):

* `World.Sound`: the streams of the log are numbered, and all aggregates in the hands of writers are
  sound and share no event;
* `sound_step`, `sound_of_runs`: every step keeps that, and so every run;
* `writers_never_overtake`: what this says about saves.
-/

namespace EventStore.World

variable {ι W π : Type} {S P : ι → Type} {t : Team ι W π S P} {g g' : World t}
  {rows : List EventRow}

/-- Events are changed in as the engine does it: with a fresh id and the next version. Queues are
cleared by saves alone. -/
def Engine (g : World t) : Action t → Prop
  | .change _ _ c => c.Plain g.made
  | _ => True

structure Sound (g : World t) (rows : List EventRow) : Prop where
  holds : g.store.Holds rows
  numbered : Numbered rows
  known : ∀ r ∈ rows, r.eventId ∈ g.made
  held : ∀ w i h, (g.writers w).held i = some h → h.Sound (t.of w).toMapping rows g.made
  apart : ∀ w i h w' i' h', (g.writers w).held i = some h → (g.writers w').held i' = some h' →
    (w, i) ≠ (w', i') → h.ids.Disjoint h'.ids
  /-- A save that is under way has stored all events of its aggregates. -/
  saved : ∀ w saving, (g.writers w).saving = some saving → ∀ i ∈ saving.slots, ∀ h,
    (g.writers w).held i = some h → ∀ e ∈ h.life.accepted, e.id ∈ rows.map (·.eventId)

theorem sound_start (t : Team ι W π S P) (bus : π) : (start t bus).Sound [] where
  holds := MemoryStore.holds_empty
  numbered := numbered_nil
  known := by simp
  held := by simp [start]
  apart := by simp [start]
  saved := by simp [start]

theorem mem_chosen {w : W} {slots : List Nat} {h : Held (S (t.kind w)) (P (t.kind w))} :
    h ∈ g.chosen w slots ↔ ∃ i ∈ slots, (g.writers w).held i = some h := by
  simp [chosen]

theorem batch_aggregates (g : World t) (w : W) (slots : List Nat) :
    (t.of w).batch (g.aggregates w slots) =
      ((g.chosen w slots).flatMap fun h => h.life.aggregate.pending).map (t.of w).rowOf := by
  rw [Repository.batch, aggregates, List.flatMap_map]

theorem Sound.chosen (hg : g.Sound rows) (w : W) (slots : List Nat) :
    ∀ h ∈ g.chosen w slots, h.Sound (t.of w).toMapping rows g.made := by
  intro h hh
  obtain ⟨i, -, hheld⟩ := mem_chosen.mp hh
  exact hg.held w i h hheld

/-! ## What an append adds -/

/-- The rows that an append adds to the log. -/
def added (g : World t) (rows : List EventRow) (w : W) (slots : List Nat) : List EventRow :=
  newRows rows ((t.of w).batch (g.aggregates w slots))

theorem Sound.mem_added (hg : g.Sound rows) {w : W} {slots : List Nat} {r : EventRow} :
    r ∈ g.added rows w slots ↔
      ∃ h ∈ g.chosen w slots, r ∈ (h.unsaved rows).map (t.of w).rowOf := by
  rw [added, batch_aggregates, Held.newRows_batch (hg.chosen w slots), List.mem_flatMap]

/-- An aggregate that is not saved has none of the events that are. -/
theorem Sound.eventId_not_mem_ids (hg : g.Sound rows) {w w' : W} {slots : List Nat} {i : Nat}
    {h : Held (S (t.kind w')) (P (t.kind w'))} (hheld : (g.writers w').held i = some h)
    (hother : ∀ i' ∈ slots, (w, i') ≠ (w', i)) {r : EventRow} (hr : r ∈ g.added rows w slots) :
    r.eventId ∉ h.ids := by
  obtain ⟨x, hx, hr⟩ := hg.mem_added.mp hr
  obtain ⟨i', hi', hheld'⟩ := mem_chosen.mp hx
  obtain ⟨e, he, rfl⟩ := List.mem_map.mp hr
  exact hg.apart w i' x w' i h hheld' hheld (hother i' hi')
    (List.mem_map_of_mem (Held.mem_of_mem_unsaved he))

section Append

variable {w : W} {slots : List Nat} {store : MemoryStore}
  (happend : g.store.append ((t.of w).batch (g.aggregates w slots)) = .ok store)

include happend

theorem Sound.inStream_added (hg : g.Sound rows) {h : Held (S (t.kind w)) (P (t.kind w))}
    (hh : h ∈ g.chosen w slots) (hne : h.unsaved rows ≠ []) :
    inStream (h.stream (t.of w).toMapping) rows =
        h.replayed ++ (h.saved rows).map (t.of w).rowOf ∧
      inStream (h.stream (t.of w).toMapping) (g.added rows w slots) =
        (h.unsaved rows).map (t.of w).rowOf := by
  have hfits := (hg.holds.of_append_eq_ok happend).1
  rw [added]
  rw [batch_aggregates] at hfits ⊢
  exact Held.inStream_newRows hg.numbered (hg.chosen w slots) hfits hh hne

/-- Each saved aggregate is stored as a whole. -/
theorem Sound.appended_chosen (hg : g.Sound rows) {h : Held (S (t.kind w)) (P (t.kind w))}
    (hh : h ∈ g.chosen w slots) :
    (∀ e ∈ h.unsaved rows, e.id ∈ (g.added rows w slots).map (·.eventId)) ∧
      h.Sound (t.of w).toMapping (rows ++ g.added rows w slots) g.made := by
  have hall : ∀ e ∈ h.unsaved rows, e.id ∈ (g.added rows w slots).map (·.eventId) :=
    fun e he => List.mem_map.mpr
      ⟨(t.of w).rowOf e, hg.mem_added.mpr ⟨h, hh, List.mem_map_of_mem he⟩, rfl⟩
  exact ⟨hall, (hg.chosen w slots h hh).of_appended hall fun hne =>
    hg.inStream_added happend hh hne⟩

end Append

variable [DecidableEq W]

/-! ## Steps on one aggregate -/

/-- An aggregate comes into a writer's hands, or one changes there, with ids of its own. -/
theorem Sound.put (hg : g.Sound rows) {made : List Uuid} (hmade : ∀ id ∈ g.made, id ∈ made)
    {w : W} {slot : Nat} {x : Held (S (t.kind w)) (P (t.kind w))}
    (hidle : (g.writers w).saving = none) (hx : x.Sound (t.of w).toMapping rows made)
    (hids : ∀ w' i h, (g.writers w').held i = some h → (w', i) ≠ (w, slot) →
      x.ids.Disjoint h.ids) :
    Sound ({ g with made }.put w slot x) rows where
  holds := hg.holds
  numbered := hg.numbered
  known := fun r hr => hmade _ (hg.known r hr)
  held := by
    refine of_held_put hx fun w' i h _ hheld => ?_
    exact (hg.held w' i h hheld).mono_made hmade
  apart := by
    intro w₁ i₁ h₁ w₂ i₂ h₂ hheld₁ hheld₂ hne
    refine of_held_put (p := fun w₁ i₁ h₁ => (w₁, i₁) ≠ (w₂, i₂) → h₁.ids.Disjoint h₂.ids) ?_ ?_
      w₁ i₁ h₁ hheld₁ hne
    · refine of_held_put (p := fun w₂ i₂ h₂ => (w, slot) ≠ (w₂, i₂) → x.ids.Disjoint h₂.ids) ?_ ?_
        w₂ i₂ h₂ hheld₂
      · exact fun hself => absurd rfl hself
      · exact fun w' i h hplace hheld _ => hids w' i h hheld hplace
    · intro w' i h hplace hheld
      refine of_held_put (p := fun w₂ i₂ h₂ => (w', i) ≠ (w₂, i₂) → h.ids.Disjoint h₂.ids) ?_ ?_
        w₂ i₂ h₂ hheld₂
      · exact fun _ => (hids w' i h hheld hplace).symm
      · exact fun w₂ i₂ h₂ _ hheld₂ hne => hg.apart w' i h w₂ i₂ h₂ hheld hheld₂ hne
  saved := by
    intro w' saving hsaving i hi h hheld
    rw [saving_put] at hsaving
    refine of_held_put (p := fun w' i h => ∀ saving, (g.writers w').saving = some saving →
      i ∈ saving.slots → ∀ e ∈ h.life.accepted, e.id ∈ rows.map (·.eventId)) ?_ ?_ w' i h hheld
      saving hsaving hi
    · intro saving hsaving
      rw [hidle] at hsaving
      cases hsaving
    · exact fun w' i h _ hheld saving hsaving hi => hg.saved w' saving hsaving i hi h hheld

/-- The save of a writer goes on, or ends. -/
theorem Sound.setSaving (hg : g.Sound rows) {w : W} {bus : π}
    {saving : Option (Saving (P (t.kind w)))}
    (hsaved : ∀ s ∈ saving, ∀ i ∈ s.slots, ∀ h, (g.writers w).held i = some h →
      ∀ e ∈ h.life.accepted, e.id ∈ rows.map (·.eventId)) :
    Sound ({ g with bus }.setSaving w saving) rows where
  holds := hg.holds
  numbered := hg.numbered
  known := hg.known
  held := by
    intro w' i h hheld
    rw [held_setSaving] at hheld
    exact hg.held w' i h hheld
  apart := by
    intro w₁ i₁ h₁ w₂ i₂ h₂ hheld₁ hheld₂
    rw [held_setSaving] at hheld₁ hheld₂
    exact hg.apart w₁ i₁ h₁ w₂ i₂ h₂ hheld₁ hheld₂
  saved := by
    intro w' s hs i hi h hheld
    rw [held_setSaving] at hheld
    by_cases hw : w' = w
    · subst hw
      rw [saving_setSaving_self] at hs
      exact hsaved s hs i hi h hheld
    · rw [saving_setSaving_of_ne _ hw] at hs
      exact hg.saved w' s hs i hi h hheld

theorem Sound.clear (hg : g.Sound rows) {w : W} {saving : Saving (P (t.kind w))}
    (hsaving : (g.writers w).saving = some saving) : Sound (g.clear w saving.slots) rows where
  holds := hg.holds
  numbered := hg.numbered
  known := hg.known
  held := by
    intro w' i h hheld
    rcases of_held_clear hheld with hheld | ⟨rfl, hi, x, hx, rfl⟩
    · exact hg.held w' i h hheld
    · exact (hg.held w' i x hx).clear (hg.saved w' saving hsaving i hi x hx)
  apart := by
    have hids : ∀ w' i h, ((g.clear w saving.slots).writers w').held i = some h →
        ∃ x, (g.writers w').held i = some x ∧ x.ids = h.ids := by
      intro w' i h hheld
      rcases of_held_clear hheld with hheld | ⟨rfl, hi, x, hx, rfl⟩
      · exact ⟨h, hheld, rfl⟩
      · exact ⟨x, hx, by rw [Life.after_clear]; rfl⟩
    intro w₁ i₁ h₁ w₂ i₂ h₂ hheld₁ hheld₂ hne
    obtain ⟨x₁, hx₁, heq₁⟩ := hids w₁ i₁ h₁ hheld₁
    obtain ⟨x₂, hx₂, heq₂⟩ := hids w₂ i₂ h₂ hheld₂
    rw [← heq₁, ← heq₂]
    exact hg.apart w₁ i₁ x₁ w₂ i₂ x₂ hx₁ hx₂ hne
  saved := by
    intro w' s hs i hi h hheld
    rw [saving_clear] at hs
    rcases of_held_clear hheld with hheld | ⟨-, -, x, hx, rfl⟩
    · exact hg.saved w' s hs i hi h hheld
    · rw [Life.after_clear]
      exact hg.saved w' s hs i hi x hx

/-! ## The append of a save -/

theorem Sound.append (hg : g.Sound rows) {w : W} {slots : List Nat} {store : MemoryStore}
    (happend : g.store.append ((t.of w).batch (g.aggregates w slots)) = .ok store) :
    Sound ({ g with store }.setSaving w
      (some ⟨slots, (g.aggregates w slots).flatMap Aggregate.pending⟩))
      (rows ++ g.added rows w slots) := by
  obtain ⟨hfits, hholds⟩ := hg.holds.of_append_eq_ok happend
  have hstored : ∀ i ∈ slots, ∀ h, (g.writers w).held i = some h → ∀ e ∈ h.life.accepted,
      e.id ∈ (rows ++ g.added rows w slots).map (·.eventId) := fun i hi h hheld e he =>
    Held.mem_stored_of_mem_append
      (hg.appended_chosen happend (mem_chosen.mpr ⟨i, hi, hheld⟩)).1 he
  constructor
  · exact hholds
  · have hnumbered := Held.numbered_newRows hg.numbered (hg.chosen w slots)
      (batch_aggregates g w slots ▸ hfits)
    rw [added, batch_aggregates]
    exact hnumbered
  · intro r hr
    rcases List.mem_append.mp hr with hr | hr
    · exact hg.known r hr
    · obtain ⟨h, hh, hr⟩ := hg.mem_added.mp hr
      obtain ⟨e, he, rfl⟩ := List.mem_map.mp hr
      exact (hg.chosen w slots h hh).made _ (List.mem_map_of_mem (Held.mem_of_mem_unsaved he))
  · intro w' i h hheld
    rw [held_setSaving] at hheld
    by_cases hplace : w' = w ∧ i ∈ slots
    · obtain ⟨rfl, hi⟩ := hplace
      exact (hg.appended_chosen happend (mem_chosen.mpr ⟨i, hi, hheld⟩)).2
    · refine (hg.held w' i h hheld).of_unrelated fun r hr => hg.eventId_not_mem_ids hheld ?_ hr
      rintro i' hi' heq
      obtain ⟨rfl, rfl⟩ := Prod.mk.inj heq
      exact hplace ⟨rfl, hi'⟩
  · intro w₁ i₁ h₁ w₂ i₂ h₂ hheld₁ hheld₂
    rw [held_setSaving] at hheld₁ hheld₂
    exact hg.apart w₁ i₁ h₁ w₂ i₂ h₂ hheld₁ hheld₂
  · intro w' s hs i hi h hheld e he
    rw [held_setSaving] at hheld
    by_cases hw : w' = w
    · subst hw
      rw [saving_setSaving_self] at hs
      obtain rfl := Option.some.inj hs
      exact hstored i hi h hheld e he
    · rw [saving_setSaving_of_ne _ hw] at hs
      rw [List.map_append]
      exact List.mem_append_left _ (hg.saved w' s hs i hi h hheld e he)

/-! ## Every step and every run -/

theorem sound_step (hg : g.Sound rows) {a : Action t} (ha : Engine g a) :
    ∃ l, (g.step a).Sound (rows ++ l) := by
  have houtcome := outcome_step hg.holds a
  generalize g.step a = g' at houtcome
  have hsame : g'.Sound rows → ∃ l, g'.Sound (rows ++ l) := fun h => ⟨[], by rwa [List.append_nil]⟩
  cases houtcome with
  | nothing => exact hsame hg
  | constructed w slot id state idle created =>
    refine hsame (hg.put (fun _ h => h) idle (Held.sound_fresh _ id state) fun w' i h _ _ => ?_)
    exact List.disjoint_nil_left _
  | loaded w slot id options a idle replayed =>
    refine hsame (hg.put (fun _ h => h) idle (Held.sound_loaded hg.numbered replayed)
      fun w' i h _ _ => ?_)
    exact List.disjoint_nil_left _
  | changed w slot c h idle held =>
    have hmade : ∀ id ∈ g.made, id ∈ c.made ++ g.made := fun id hid => List.mem_append_right _ hid
    refine hsame (hg.put hmade idle ((hg.held w slot h held).change hg.known ha)
      fun w' i h' hheld hne id hid hid' => ?_)
    rcases Held.mem_ids_change ha _ hid with hid | hfresh
    · exact hg.apart w slot h w' i h' held hheld (Ne.symm hne) hid hid'
    · exact hfresh ((hg.held w' i h' hheld).made id hid')
  | appended w slots store idle encodes stored =>
    exact ⟨_, hg.append stored⟩
  | published w saving unpublished bus underWay =>
    refine hsame (hg.setSaving fun s hs i hi h hheld => ?_)
    obtain rfl := Option.some.inj hs
    exact hg.saved w saving underWay i hi h hheld
  | abandoned w bus => exact hsame (hg.setSaving fun s hs => nomatch hs)
  | cleared w saving underWay =>
    exact hsame ((hg.clear underWay).setSaving fun s hs => nomatch hs)

theorem sound_of_runs (hg : g.Sound rows) (h : Runs Engine g g') :
    ∃ l, g'.Sound (rows ++ l) := by
  induction h with
  | refl => exact ⟨[], by rwa [List.append_nil]⟩
  | tail _ hmove ih =>
    obtain ⟨l, hsound⟩ := ih
    obtain ⟨a, ha, rfl⟩ := hmove
    obtain ⟨l', hsound'⟩ := sound_step hsound ha
    exact ⟨l ++ l', by rwa [← List.append_assoc]⟩

/-! ## Saves -/

theorem step_append_of_error {w : W} {slots : List Nat} {e : RepositoryError}
    {s : MemoryStore × π}
    (h : (t.of w).appendPending (g.aggregates w slots) (g.store, g.bus) = (.error e, s)) :
    g.step (.append w slots) = g := by
  have hstate : s = (g.store, g.bus) := by
    rcases Repository.appendPending_cases (r := t.of w) rfl (g.aggregates w slots) g.store
      g.bus with
      ⟨e', h'⟩ | ⟨-, h'⟩ | ⟨s', -, -, -, h'⟩
    · exact (Prod.mk.inj (h.symm.trans h')).2
    · exact nomatch (Prod.mk.inj (h.symm.trans h')).1
    · exact nomatch (Prod.mk.inj (h.symm.trans h')).1
  rw [hstate] at h
  simp only [step, World.append, h, ite_self]

/-- A save that adds to a stream finds there what its aggregate replayed and saved, and leaves
there what it replayed and accepted. -/
theorem Sound.stream_append (hg : g.Sound rows) (w : W) (slots : List Nat) (k : StreamKey)
    (hadds : inStream k (g.step (.append w slots)).store.rows ≠ inStream k rows) :
    ∃ i ∈ slots, ∃ h, (g.writers w).held i = some h ∧ h.stream (t.of w).toMapping = k ∧
      inStream k rows = h.replayed ++ (h.saved rows).map (t.of w).rowOf ∧
      inStream k (g.step (.append w slots)).store.rows =
        h.replayed ++ h.life.accepted.map (t.of w).rowOf := by
  have houtcome := outcome_step hg.holds (.append w slots)
  generalize g.step (.append w slots) = g' at houtcome hadds
  cases houtcome with
  | nothing => exact absurd (congrArg (inStream k) hg.holds.rows_eq) hadds
  | appended _ _ store idle encodes stored =>
    have hstore : store.rows = rows ++ g.added rows w slots :=
      (hg.holds.of_append_eq_ok stored).2.rows_eq
    have hrows : ({ g with store }.setSaving w
        (some ⟨slots, (g.aggregates w slots).flatMap Aggregate.pending⟩)).store.rows =
        rows ++ g.added rows w slots := hstore
    rw [hrows, inStream_append] at hadds ⊢
    have hne : inStream k (g.added rows w slots) ≠ [] := fun hnil =>
      hadds (by rw [hnil, List.append_nil])
    obtain ⟨r, hr⟩ := List.exists_mem_of_ne_nil _ hne
    obtain ⟨hradded, rfl⟩ := mem_inStream.mp hr
    obtain ⟨h, hh, hrow⟩ := hg.mem_added.mp hradded
    obtain ⟨i, hi, hheld⟩ := mem_chosen.mp hh
    have hunsaved : h.unsaved rows ≠ [] := by
      rintro hnil
      rw [hnil] at hrow
      cases hrow
    obtain ⟨e, he, rfl⟩ := List.mem_map.mp hrow
    have hstream := (hg.chosen w slots h hh).stream_of_mem (Held.mem_of_mem_unsaved he)
    obtain ⟨hbase, hnew⟩ := hg.inStream_added stored hh hunsaved
    rw [hstream]
    refine ⟨i, hi, h, hheld, rfl, hbase, ?_⟩
    rw [hbase, hnew, List.append_assoc, ← List.map_append, (hg.chosen w slots h hh).split]

/-- In every world that writers can bring about, the versions of each aggregate are 1, 2, 3 and so
on; what is stored stays stored; a save whose append fails changes nothing; and where a save stores
events of an aggregate, nothing else was stored of it than what had been replayed to load it and
what had been saved of it since. -/
theorem writers_never_overtake (bus : π) (hg : Runs Engine (start t bus) g) :
    (∀ k, (inStream k g.store.rows).map (·.version) =
      List.range' 1 (inStream k g.store.rows).length) ∧
    (∀ g', Runs Engine g g' → g.store.rows <+: g'.store.rows) ∧
    (∀ w slots e s,
      (t.of w).appendPending (g.aggregates w slots) (g.store, g.bus) = (.error e, s) →
        g.step (.append w slots) = g) ∧
    (∀ w slots k,
      inStream k (g.step (.append w slots)).store.rows ≠ inStream k g.store.rows →
        ∃ i ∈ slots, ∃ h, (g.writers w).held i = some h ∧ h.stream (t.of w).toMapping = k ∧
          inStream k g.store.rows = h.replayed ++ (h.saved g.store.rows).map (t.of w).rowOf ∧
          inStream k (g.step (.append w slots)).store.rows =
            h.replayed ++ h.life.accepted.map (t.of w).rowOf) := by
  obtain ⟨rows, hsound⟩ := sound_of_runs (sound_start t bus) hg
  rw [List.nil_append] at hsound
  rw [hsound.holds.rows_eq]
  refine ⟨hsound.numbered, fun g' hg' => ?_, fun w slots e s => step_append_of_error,
    hsound.stream_append⟩
  obtain ⟨l, hsound'⟩ := sound_of_runs hsound hg'
  rw [hsound'.holds.rows_eq]
  exact List.prefix_append _ _

open Accounts

/-- Both open one account; one saves it, and the save of the other comes too late. -/
def race : List (Action rivals) :=
  [.construct true 0 Life.annsId, .construct false 0 Life.annsId,
   .change true 0 (.raise ⟨⟨1⟩, .epoch⟩ (.opened "Ann" 5)),
   .change false 0 (.raise ⟨⟨2⟩, .epoch⟩ (.opened "Bea" 7)),
   .append true [0], .publish true, .publish true, .append false [0]]

theorem rivals_never_overtake :
    let g := race.foldl step (start rivals ())
    Runs Engine (start rivals ()) g ∧
    (∀ k, (inStream k g.store.rows).map (·.version) =
      List.range' 1 (inStream k g.store.rows).length) ∧
    (∀ g', Runs Engine g g' → g.store.rows <+: g'.store.rows) ∧
    (∀ w slots e s,
      (rivals.of w).appendPending (g.aggregates w slots) (g.store, g.bus) = (.error e, s) →
        g.step (.append w slots) = g) ∧
    (∀ w slots k,
      inStream k (g.step (.append w slots)).store.rows ≠ inStream k g.store.rows →
        ∃ i ∈ slots, ∃ h, (g.writers w).held i = some h ∧
          h.stream (rivals.of w).toMapping = k ∧
          inStream k g.store.rows = h.replayed ++ (h.saved g.store.rows).map (rivals.of w).rowOf ∧
          inStream k (g.step (.append w slots)).store.rows =
            h.replayed ++ h.life.accepted.map (rivals.of w).rowOf) := by
  intro g
  have hfirst : (⟨1⟩ : Uuid) ∉ ([] : List Uuid) := by decide
  have hsecond : (⟨2⟩ : Uuid) ∉ ([⟨1⟩] : List Uuid) := by decide
  have hruns : Runs Engine (start rivals ()) g :=
    runs_foldl ⟨trivial, trivial, hfirst, hsecond, trivial, trivial, trivial, trivial, trivial⟩
  exact ⟨hruns, writers_never_overtake () hruns⟩

end EventStore.World
