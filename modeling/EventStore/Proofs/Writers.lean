import EventStore.Proofs.LiveReplay
import EventStore.Proofs.Loading
import Mathlib.Logic.Function.Basic
import Mathlib.Logic.Relation

/-!
# Writers of one memory

Any number of writers share a memory and the state of a publisher, and take steps in any order. A
writer holds aggregates of one type, which it constructs, loads, changes and saves. A save is more
than one step: first its append, then the calls of the publisher one by one, and last the clearing
of the queues; a failure ends it where it stands. Only its own writer waits for it.

Proved here:

* `World.outcome_step`: all that a step can do;
* `World.proceeded_append`: the steps of a save, taken one after the other, are `saveAll`.
-/

namespace EventStore

/-- The repository of a type over a memory. -/
def Mapping.inMemory {S P π : Type} (m : Mapping S P) (publisher : Publisher P π) :
    Repository S P MemoryStore π :=
  { m with storage := MemoryStore.storage, publisher }

/-- Some types of aggregates, and some writers, each of which writes one type. -/
structure Team (ι W π : Type) (S P : ι → Type) where
  mapping : ∀ i, Mapping (S i) (P i)
  kind : W → ι
  publisher : ∀ w, Publisher (P (kind w)) π

/-- An aggregate in the hands of a writer, and the rows that were replayed to load it. -/
structure Held (S P : Type) where
  life : Life S P
  replayed : List EventRow := []

/-- A save after its append: what is saved, and the events that are still to be published. -/
structure Saving (P : Type) where
  slots : List Nat
  unpublished : List (RecordedEvent P)

/-- A writer with its aggregates, and its save if one is under way. -/
structure Writer (S P : Type) where
  held : Nat → Option (Held S P) := fun _ => none
  saving : Option (Saving P) := none

variable {ι W π : Type} {S P : ι → Type}

/-- The repository that a writer uses. -/
def Team.of (t : Team ι W π S P) (w : W) : Repository (S (t.kind w)) (P (t.kind w)) MemoryStore π :=
  (t.mapping (t.kind w)).inMemory (t.publisher w)

structure World (t : Team ι W π S P) where
  store : MemoryStore
  bus : π
  writers : ∀ w, Writer (S (t.kind w)) (P (t.kind w))
  /-- The ids that have been made for events. -/
  made : List Uuid

/-- One step of one writer. -/
inductive Action (t : Team ι W π S P) where
  | construct (w : W) (slot : Nat) (id : AggregateId)
  | load (w : W) (slot : Nat) (id : AggregateId) (options : LoadOptions)
  | change (w : W) (slot : Nat) (c : Change (P (t.kind w)))
  | append (w : W) (slots : List Nat)
  | publish (w : W)

/-- The ids that are made for a change. -/
def Change.made {P : Type} : Change P → List Uuid
  | .apply stamp .. | .raise stamp _ => [stamp.id]
  | .clear => []

namespace World

variable {t : Team ι W π S P}

/-- Nothing is stored or held, and nothing has happened. -/
def start (t : Team ι W π S P) (bus : π) : World t := ⟨{}, bus, fun _ => {}, []⟩

/-- The aggregates in some slots of a writer. -/
def chosen (g : World t) (w : W) (slots : List Nat) : List (Held (S (t.kind w)) (P (t.kind w))) :=
  slots.filterMap (g.writers w).held

def aggregates (g : World t) (w : W) (slots : List Nat) :
    List (Aggregate (S (t.kind w)) (P (t.kind w))) :=
  (g.chosen w slots).map (·.life.aggregate)

variable [DecidableEq W]

/-- Gives a writer another aggregate, in place of the one in the slot. -/
def put (g : World t) (w : W) (slot : Nat) (h : Held (S (t.kind w)) (P (t.kind w))) : World t :=
  let held := Function.update (g.writers w).held slot (some h)
  { g with writers := Function.update g.writers w { g.writers w with held } }

/-- Puts a save under way, or ends it. -/
def setSaving (g : World t) (w : W) (saving : Option (Saving (P (t.kind w)))) : World t :=
  { g with writers := Function.update g.writers w { g.writers w with saving } }

/-- Clears the queues of the aggregates in some slots. -/
def clear (g : World t) (w : W) (slots : List Nat) : World t :=
  let held := fun slot =>
    if slot ∈ slots then
      ((g.writers w).held slot).map fun h =>
        { h with life := h.life.after (t.of w).blueprint .clear }
    else (g.writers w).held slot
  { g with writers := Function.update g.writers w { g.writers w with held } }

def construct (g : World t) (w : W) (slot : Nat) (id : AggregateId) : World t :=
  match (t.of w).blueprint.create id with
  | some state => g.put w slot ⟨⟨.fresh id state, []⟩, []⟩
  | none => g

def load (g : World t) (w : W) (slot : Nat) (id : AggregateId) (options : LoadOptions) : World t :=
  match (t.of w).load id options (g.store, g.bus) with
  | (.ok (some a), (store, bus)) =>
    { g with store, bus }.put w slot ⟨⟨a, []⟩, (t.of w).history id options g.store.rows⟩
  | (_, (store, bus)) => { g with store, bus }

def change (g : World t) (w : W) (slot : Nat) (c : Change (P (t.kind w))) : World t :=
  match (g.writers w).held slot with
  | some h =>
    { g with made := c.made ++ g.made }.put w slot
      { h with life := h.life.after (t.of w).blueprint c }
  | none => g

/-- The append of a save. What is under way afterwards is the rest of the save. -/
def append (g : World t) (w : W) (slots : List Nat) : World t :=
  match (t.of w).appendPending (g.aggregates w slots) (g.store, g.bus) with
  | (.ok true, (store, bus)) =>
    { g with store, bus }.setSaving w
      (some ⟨slots, (g.aggregates w slots).flatMap Aggregate.pending⟩)
  | (_, (store, bus)) => { g with store, bus }

/-- The next step of a save that is under way. -/
def proceed (g : World t) (w : W) (saving : Saving (P (t.kind w))) : World t :=
  match saving.unpublished with
  | [] => (g.clear w saving.slots).setSaving w none
  | e :: rest =>
    match (t.of w).publisher.publish e g.bus with
    | (.ok (), bus) => { g with bus }.setSaving w (some { saving with unpublished := rest })
    | (.error _, bus) => { g with bus }.setSaving w none

/-- A writer whose save is under way does nothing but go on with it. -/
def step (g : World t) : Action t → World t
  | .construct w slot id => if (g.writers w).saving.isNone then g.construct w slot id else g
  | .load w slot id options => if (g.writers w).saving.isNone then g.load w slot id options else g
  | .change w slot c => if (g.writers w).saving.isNone then g.change w slot c else g
  | .append w slots => if (g.writers w).saving.isNone then g.append w slots else g
  | .publish w =>
    match (g.writers w).saving with
    | some saving => g.proceed w saving
    | none => g

/-- A step by an action that is allowed. -/
def Moves (allowed : World t → Action t → Prop) (g g' : World t) : Prop :=
  ∃ a, allowed g a ∧ g' = g.step a

/-- Any number of steps by actions that are allowed. -/
def Runs (allowed : World t → Action t → Prop) : World t → World t → Prop :=
  Relation.ReflTransGen (Moves allowed)

/-- All actions of a list are allowed when their turn comes. -/
def Allows (allowed : World t → Action t → Prop) (g : World t) : List (Action t) → Prop
  | [] => True
  | a :: l => allowed g a ∧ Allows allowed (g.step a) l

theorem runs_mono {p q : World t → Action t → Prop} (h : ∀ g a, p g a → q g a) {g g' : World t}
    (hruns : Runs p g g') : Runs q g g' :=
  Relation.ReflTransGen.mono (fun _ _ ⟨a, ha, hstep⟩ => ⟨a, h _ a ha, hstep⟩) _ _ hruns

theorem runs_foldl {allowed : World t → Action t → Prop} {actions : List (Action t)}
    {g : World t} (h : Allows allowed g actions) : Runs allowed g (actions.foldl step g) := by
  induction actions generalizing g with
  | nil => exact .refl
  | cons a l ih => exact .head ⟨a, h.1, rfl⟩ (ih h.2)

/-! ## What writers hold -/

section Held

variable (g : World t) (w w' : W)

@[simp] theorem held_setSaving (saving : Option (Saving (P (t.kind w)))) :
    ((g.setSaving w saving).writers w').held = (g.writers w').held := by
  by_cases h : w' = w
  · subst h
    simp [setSaving]
  · simp [setSaving, h]

@[simp] theorem saving_put (slot : Nat) (h : Held (S (t.kind w)) (P (t.kind w))) :
    ((g.put w slot h).writers w').saving = (g.writers w').saving := by
  by_cases h : w' = w
  · subst h
    simp [put]
  · simp [put, h]

@[simp] theorem saving_clear (slots : List Nat) :
    ((g.clear w slots).writers w').saving = (g.writers w').saving := by
  by_cases h : w' = w
  · subst h
    simp [clear]
  · simp [clear, h]

theorem saving_setSaving_self (saving : Option (Saving (P (t.kind w)))) :
    ((g.setSaving w saving).writers w).saving = saving := by
  simp [setSaving]

theorem saving_setSaving_of_ne {w w' : W} (hne : w' ≠ w) (saving : Option (Saving (P (t.kind w)))) :
    ((g.setSaving w saving).writers w').saving = (g.writers w').saving := by
  simp [setSaving, hne]

/-- What is held after `put` is the new aggregate, or was held before in another place. -/
theorem of_held_put {g : World t} {w : W} {slot : Nat} {x : Held (S (t.kind w)) (P (t.kind w))}
    {p : ∀ w, Nat → Held (S (t.kind w)) (P (t.kind w)) → Prop} (hx : p w slot x)
    (hp : ∀ w' i h, (w', i) ≠ (w, slot) → (g.writers w').held i = some h → p w' i h) (w' : W)
    (i : Nat) (h : Held (S (t.kind w')) (P (t.kind w')))
    (hheld : ((g.put w slot x).writers w').held i = some h) : p w' i h := by
  by_cases hw : w' = w
  · subst hw
    by_cases hi : i = slot
    · subst hi
      have hxh : x = h := by simpa [put] using hheld
      exact hxh ▸ hx
    · exact hp w' i h (by simp [hi]) (by simpa [put, hi] using hheld)
  · exact hp w' i h (by simp [hw]) (by simpa [put, hw] using hheld)

/-- What is held after `clear` was held before, perhaps with its queue. -/
theorem of_held_clear {g : World t} {w w' : W} {slots : List Nat} {i : Nat}
    {h : Held (S (t.kind w')) (P (t.kind w'))}
    (hheld : ((g.clear w slots).writers w').held i = some h) :
    (g.writers w').held i = some h ∨ w' = w ∧ i ∈ slots ∧ ∃ x, (g.writers w').held i = some x ∧
      h = { x with life := x.life.after (t.of w').blueprint .clear } := by
  by_cases hw : w' = w
  · subst hw
    by_cases hi : i ∈ slots
    · obtain ⟨x, hx, rfl⟩ : ∃ x, (g.writers w').held i = some x ∧
          { x with life := x.life.after (t.of w').blueprint .clear } = h := by
        simpa [clear, hi] using hheld
      exact Or.inr ⟨rfl, hi, x, hx, rfl⟩
    · exact Or.inl (by simpa [clear, hi] using hheld)
  · exact Or.inl (by simpa [clear, hw] using hheld)

end Held

/-! ## All that a step can do -/

/-- The outcomes of an action, where the memory holds some rows. -/
inductive Outcome (g : World t) (rows : List EventRow) : Action t → World t → Prop where
  /-- Nothing was done, or a load or an append failed. -/
  | nothing (a : Action t) : Outcome g rows a g
  | constructed (w : W) (slot : Nat) (id : AggregateId) (state : S (t.kind w))
      (idle : (g.writers w).saving = none) (created : (t.of w).blueprint.create id = some state) :
      Outcome g rows (.construct w slot id) (g.put w slot ⟨⟨.fresh id state, []⟩, []⟩)
  | loaded (w : W) (slot : Nat) (id : AggregateId) (options : LoadOptions)
      (a : Aggregate (S (t.kind w)) (P (t.kind w))) (idle : (g.writers w).saving = none)
      (replayed : (t.of w).replayRows id options ((t.of w).history id options rows) =
        .ok (some a)) :
      Outcome g rows (.load w slot id options)
        (g.put w slot ⟨⟨a, []⟩, (t.of w).history id options rows⟩)
  | changed (w : W) (slot : Nat) (c : Change (P (t.kind w)))
      (h : Held (S (t.kind w)) (P (t.kind w))) (idle : (g.writers w).saving = none)
      (held : (g.writers w).held slot = some h) :
      Outcome g rows (.change w slot c)
        ({ g with made := c.made ++ g.made }.put w slot
          { h with life := h.life.after (t.of w).blueprint c })
  | appended (w : W) (slots : List Nat) (store : MemoryStore)
      (idle : (g.writers w).saving = none)
      (encodes : ∀ a ∈ g.aggregates w slots, ∀ e ∈ a.pending, (t.of w).Encodes e.payload)
      (stored : g.store.append ((t.of w).batch (g.aggregates w slots)) = .ok store) :
      Outcome g rows (.append w slots)
        ({ g with store }.setSaving w
          (some ⟨slots, (g.aggregates w slots).flatMap Aggregate.pending⟩))
  | published (w : W) (saving : Saving (P (t.kind w)))
      (unpublished : List (RecordedEvent (P (t.kind w)))) (bus : π)
      (underWay : (g.writers w).saving = some saving) :
      Outcome g rows (.publish w) ({ g with bus }.setSaving w (some { saving with unpublished }))
  | abandoned (w : W) (bus : π) : Outcome g rows (.publish w) ({ g with bus }.setSaving w none)
  | cleared (w : W) (saving : Saving (P (t.kind w)))
      (underWay : (g.writers w).saving = some saving) :
      Outcome g rows (.publish w) ((g.clear w saving.slots).setSaving w none)

variable {g : World t} {rows : List EventRow}

theorem outcome_load (hs : g.store.Holds rows) {w : W} (hidle : (g.writers w).saving = none)
    (slot : Nat) (id : AggregateId) (options : LoadOptions) :
    g.Outcome rows (.load w slot id options) (g.load w slot id options) := by
  have hload := Repository.load_eq (r := t.of w) (p := g.bus) rfl hs id options
  unfold load
  rw [hload, hs.rows_eq]
  cases hreplay : (t.of w).replayRows id options ((t.of w).history id options rows) with
  | error e => exact .nothing _
  | ok a =>
    cases a with
    | none => exact .nothing _
    | some a => exact .loaded w slot id options a hidle hreplay

theorem outcome_append {w : W} (hidle : (g.writers w).saving = none) (slots : List Nat) :
    g.Outcome rows (.append w slots) (g.append w slots) := by
  unfold append
  rcases Repository.appendPending_cases (r := t.of w) rfl (g.aggregates w slots) g.store
    g.bus with ⟨e, h⟩ | ⟨-, h⟩ | ⟨store, henc, happend, -, h⟩
  · rw [h]
    exact .nothing _
  · rw [h]
    exact .nothing _
  · rw [h]
    exact .appended w slots store hidle henc happend

theorem outcome_proceed {w : W} {saving : Saving (P (t.kind w))}
    (hsaving : (g.writers w).saving = some saving) :
    g.Outcome rows (.publish w) (g.proceed w saving) := by
  unfold proceed
  split
  · exact .cleared w saving hsaving
  · split
    · exact .published w saving _ _ hsaving
    · exact .abandoned w _

theorem outcome_step (hs : g.store.Holds rows) (a : Action t) : g.Outcome rows a (g.step a) := by
  cases a with
  | construct w slot id =>
    simp only [step, Option.isNone_iff_eq_none]
    split
    · rename_i hidle
      unfold construct
      split
      · rename_i state hcreate
        exact .constructed w slot id state hidle hcreate
      · exact .nothing _
    · exact .nothing _
  | load w slot id options =>
    simp only [step, Option.isNone_iff_eq_none]
    split
    · rename_i hidle
      exact outcome_load hs hidle slot id options
    · exact .nothing _
  | change w slot c =>
    simp only [step, Option.isNone_iff_eq_none]
    split
    · rename_i hidle
      unfold change
      split
      · rename_i h hheld
        exact .changed w slot c h hidle hheld
      · exact .nothing _
    · exact .nothing _
  | append w slots =>
    simp only [step, Option.isNone_iff_eq_none]
    split
    · rename_i hidle
      exact outcome_append hidle slots
    · exact .nothing _
  | publish w =>
    simp only [step]
    split
    · rename_i saving hsaving
      exact outcome_proceed hsaving
    · exact .nothing _

/-! ## A save, step by step -/

/-- A writer goes on with its save, so many steps. -/
def proceeded (g : World t) (w : W) : Nat → World t
  | 0 => g
  | n + 1 => (g.step (.publish w)).proceeded w n

theorem aggregates_clear (g : World t) (w : W) (slots : List Nat) :
    ((g.clear w slots).setSaving w none).aggregates w slots =
      (g.aggregates w slots).map Aggregate.clearChanges := by
  have hheld : ∀ i ∈ slots, ((g.clear w slots).writers w).held i =
      ((g.writers w).held i).map fun h =>
        { h with life := h.life.after (t.of w).blueprint .clear } := by
    intro i hi
    simp [clear, hi]
  have hchosen : ((g.clear w slots).setSaving w none).chosen w slots = (g.chosen w slots).map
      fun h => { h with life := h.life.after (t.of w).blueprint .clear } := by
    rw [chosen, held_setSaving, List.filterMap_congr hheld, chosen, List.map_filterMap]
  rw [aggregates, hchosen, aggregates, List.map_map, List.map_map]
  rfl

@[simp] theorem aggregates_setSaving (g : World t) (w : W)
    (saving : Option (Saving (P (t.kind w)))) (slots : List Nat) :
    (g.setSaving w saving).aggregates w slots = g.aggregates w slots := by
  rw [aggregates, chosen, held_setSaving]
  rfl

/-- After the append of a save come the calls of the publisher and, if all of them succeed, the
clearing of the queues. -/
theorem proceeded_saving {w : W} {slots : List Nat} (events : List (RecordedEvent (P (t.kind w)))) :
    ∀ g : World t, (g.writers w).saving = some ⟨slots, events⟩ →
      ∃ n result, (events.forM (t.of w).published : RepositoryM _ π Unit) (g.store, g.bus) =
          (result, ((g.proceeded w n).store, (g.proceeded w n).bus)) ∧
        ((g.proceeded w n).writers w).saving = none ∧
        (g.proceeded w n).aggregates w slots = match result with
          | .ok _ => (g.aggregates w slots).map Aggregate.clearChanges
          | .error _ => g.aggregates w slots := by
  induction events with
  | nil =>
    intro g hsaving
    have hstep : g.proceeded w 1 = (g.clear w slots).setSaving w none := by
      simp only [proceeded, step, hsaving, proceed]
    refine ⟨1, .ok (), ?_, ?_, ?_⟩
    · rw [hstep]
      rfl
    · rw [hstep, saving_setSaving_self]
    · rw [hstep]
      exact aggregates_clear g w slots
  | cons e events ih =>
    intro g hsaving
    cases hpublish : (t.of w).publisher.publish e g.bus with
    | mk outcome bus =>
      cases outcome with
      | error x =>
        have hstep : g.proceeded w 1 = { g with bus }.setSaving w none := by
          simp only [proceeded, step, hsaving, proceed, hpublish]
        have hcall := Repository.published_of_error hpublish g.store
        refine ⟨1, .error (.publish x), ?_, ?_, ?_⟩
        · show ((t.of w).published e >>= fun _ => events.forM (t.of w).published) _ = _
          rw [bind_of_error hcall, hstep]
          rfl
        · rw [hstep, saving_setSaving_self]
        · rw [hstep]
          exact aggregates_setSaving _ w none slots
      | ok _ =>
        have hstep : g.step (.publish w) = { g with bus }.setSaving w (some ⟨slots, events⟩) := by
          simp only [step, hsaving, proceed, hpublish]
        have hcall := Repository.published_of_ok hpublish g.store
        obtain ⟨n, result, hrest, hnone, hsaved⟩ :=
          ih (g.step (.publish w)) (by rw [hstep, saving_setSaving_self])
        refine ⟨n + 1, result, ?_, hnone, ?_⟩
        · show ((t.of w).published e >>= fun _ => events.forM (t.of w).published) _ = _
          have hstate : ((g.step (.publish w)).store, (g.step (.publish w)).bus) =
              (g.store, bus) := by
            rw [hstep]
            rfl
          rw [hstate] at hrest
          rw [bind_of_ok hcall]
          exact hrest
        · have hsame : (g.step (.publish w)).aggregates w slots = g.aggregates w slots := by
            rw [hstep]
            exact aggregates_setSaving _ w _ slots
          rw [hsame] at hsaved
          exact hsaved

/-- The steps of a save, taken one after the other, do what `saveAll` does, also to the aggregates
and also where it fails. -/
theorem proceeded_append {w : W} (hidle : (g.writers w).saving = none) (slots : List Nat) :
    ∃ n, let g' := (g.step (.append w slots)).proceeded w n
      (g'.writers w).saving = none ∧
      ∃ result, (t.of w).saveAll (g.aggregates w slots, (g.store, g.bus)) =
        (result, (g'.aggregates w slots, (g'.store, g'.bus))) := by
  have hstep : g.step (.append w slots) = g.append w slots := by
    simp only [step, hidle, Option.isNone_none, if_true]
  rcases Repository.appendPending_cases (r := t.of w) rfl (g.aggregates w slots) g.store
    g.bus with ⟨e, h⟩ | ⟨-, h⟩ | ⟨store, -, -, -, h⟩
  · refine ⟨0, ?_⟩
    have hsame : g.step (.append w slots) = g := by
      rw [hstep]
      simp only [append, h]
    simp only [proceeded, hsame]
    exact ⟨hidle, .error e, Repository.saveAll_of_refused h⟩
  · refine ⟨0, ?_⟩
    have hsame : g.step (.append w slots) = g := by
      rw [hstep]
      simp only [append, h]
    simp only [proceeded, hsame]
    exact ⟨hidle, .ok (), Repository.saveAll_of_none h⟩
  · have hsave : g.step (.append w slots) = { g with store }.setSaving w
        (some ⟨slots, (g.aggregates w slots).flatMap Aggregate.pending⟩) := by
      rw [hstep]
      simp only [append, h]
    have hsame : (g.step (.append w slots)).aggregates w slots = g.aggregates w slots := by
      rw [hsave]
      exact aggregates_setSaving _ w _ slots
    obtain ⟨n, result, hrun, hnone, hsaved⟩ := proceeded_saving _ (g.step (.append w slots))
      (by rw [hsave, saving_setSaving_self])
    rw [hsame] at hsaved
    have hstate : ((g.step (.append w slots)).store, (g.step (.append w slots)).bus) =
        (store, g.bus) := by
      rw [hsave]
      rfl
    rw [hstate] at hrun
    refine ⟨n, hnone, ?_⟩
    rw [hsaved]
    cases result with
    | ok _ => exact ⟨.ok (), Repository.saveAll_of_published h hrun⟩
    | error x => exact ⟨.error x, Repository.saveAll_of_interrupted h hrun⟩

open Accounts

/-- Two writers of accounts, who publish to nobody. -/
def rivals : Team Unit Bool Unit (fun _ => Account) (fun _ => AccountEvent) where
  mapping _ := ⟨Account.blueprint, .json AccountEvent⟩
  kind _ := ()
  publisher _ := ⟨fun _ => pure (.ok ())⟩

end World

end EventStore
