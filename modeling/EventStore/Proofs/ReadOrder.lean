import EventStore.Proofs.AppendAgreement
import EventStore.Proofs.MemoryRuns

/-!
# The order of reads

A memory gives rows in the order in which they were accepted, and accepts a row below the versions
of its aggregate if its slot is free.

Proved here:

* `ascending_append`: a batch keeps rows in the order of versions exactly if it `GoesOn` above them;
* `ascending_iff_filter`: rows are in that order exactly if all reads of them are;
* `ascending_after_iff`, `ascending_run_iff`: what one use of a memory does to that order, and what
  many do;
* `read_in_order_of_arrival`: so a memory reads what its filters accept, each row once, and in the
  order of versions exactly if every batch that is still stored went on above the rows before it.
-/

namespace EventStore

/-- Those of the rows that belong to one stream come in ascending order of versions. -/
def Ascending (rows : List EventRow) : Prop :=
  rows.Pairwise fun r r' => r.stream = r'.stream → r.version < r'.version

instance (rows : List EventRow) : Decidable (Ascending rows) :=
  inferInstanceAs (Decidable (rows.Pairwise _))

/-- Rows in ascending order, each of which is above all versions of its stream so far. -/
structure GoesOn (rows l : List EventRow) : Prop where
  ascending : Ascending l
  above : ∀ r ∈ rows, ∀ r' ∈ l, r.stream = r'.stream → r.version < r'.version

variable {rows l : List EventRow}

theorem ascending_nil : Ascending [] := List.Pairwise.nil

theorem ascending_append : Ascending (rows ++ l) ↔ Ascending rows ∧ GoesOn rows l := by
  rw [Ascending, List.pairwise_append]
  exact and_congr_right fun _ => ⟨fun ⟨hl, habove⟩ => ⟨hl, habove⟩, fun h => ⟨h.ascending, h.above⟩⟩

/-- Two rows of a stream are both read by the filter for their type. -/
theorem ascending_iff_filter :
    Ascending rows ↔ ∀ f : EventFilter, Ascending (rows.filter f.accepts) := by
  refine ⟨fun h f => h.filter _, fun h => List.pairwise_iff_forall_sublist.mpr ?_⟩
  intro r r' hpair hstream
  let f : EventFilter := { aggregateType := r.aggregateType }
  have hread : [r, r'].filter f.accepts = [r, r'] := by
    have htype : r.aggregateType = r'.aggregateType := congrArg StreamKey.aggregateType hstream
    simp [f, EventFilter.accepts, htype]
  have hsublist : [r, r'].Sublist (rows.filter f.accepts) := hread ▸ hpair.filter _
  exact List.pairwise_iff_forall_sublist.mp (h f) hsublist hstream

namespace MemoryStore.InUse

variable {u : InUse} {use : Use} {uses : List Use}

/-! ## One use -/

/-- The memory accepts a batch. -/
def Accepts (u : InUse) (l : List EventRow) : Prop :=
  ∃ s, storage.append l u.store = (.ok (), s)

theorem accepted_of_accepts (h : u.Accepts l) :
    (u.after (.append l)).accepted = u.accepted ++ newRows u.accepted l := by
  obtain ⟨s, happend⟩ := h
  rw [after, happend]

theorem accepted_of_not_accepts (h : ¬ u.Accepts l) :
    (u.after (.append l)).accepted = u.accepted := by
  rw [after]
  cases happend : storage.append l u.store with
  | mk result s =>
    cases result with
    | ok => exact (h ⟨s, happend⟩).elim
    | error e => rfl

/-- What a batch brings goes on above what is stored, if it is accepted. -/
def GoesOnWith (u : InUse) (l : List EventRow) : Prop :=
  u.Accepts l → GoesOn u.accepted (newRows u.accepted l)

/-- A clear leaves no rows. Any other use keeps them in order unless it brings rows that are not. -/
theorem ascending_after_iff : Ascending (u.after use).accepted ↔
    use = .clear ∨ Ascending u.accepted ∧ ∀ l, use = .append l → u.GoesOnWith l := by
  cases use with
  | append l =>
    by_cases h : u.Accepts l
    · simp [accepted_of_accepts h, ascending_append, GoesOnWith, h]
    · simp [accepted_of_not_accepts h, GoesOnWith, h]
  | read f => simp [after]
  | clear => simp [after, ascending_nil]

/-! ## Many uses -/

theorem run_concat : u.run (uses ++ [use]) = (u.run uses).after use := by
  rw [run, List.foldl_concat]
  rfl

/-- Each batch that was not cleared away later went on above the rows that were stored then. -/
def Orderly (u : InUse) (uses : List Use) : Prop :=
  ∀ before l after, uses = before ++ .append l :: after → .clear ∉ after →
    (u.run before).GoesOnWith l

theorem orderly_nil : u.Orderly [] := by
  intro before l after h
  simp at h

theorem orderly_concat : u.Orderly (uses ++ [use]) ↔
    use = .clear ∨ u.Orderly uses ∧ ∀ l, use = .append l → (u.run uses).GoesOnWith l := by
  constructor
  · intro h
    refine or_iff_not_imp_left.mpr fun hclear => ⟨?_, ?_⟩
    · rintro before l after rfl hafter
      exact h before l (after ++ [use]) (by simp) (by simp [hafter, Ne.symm hclear])
    · rintro l rfl
      exact h uses l [] rfl (by simp)
  · rintro h before l after hsplit hafter
    rcases List.eq_nil_or_concat' after with rfl | ⟨after, last, rfl⟩
    · obtain ⟨rfl, hlast⟩ := List.append_inj' hsplit rfl
      obtain rfl := List.singleton_inj.mp hlast
      exact (h.resolve_left nofun).2 l rfl
    · have hsplit' : uses ++ [use] = (before ++ .append l :: after) ++ [last] := by simpa using hsplit
      obtain ⟨rfl, hlast⟩ := List.append_inj' hsplit' rfl
      obtain rfl := List.singleton_inj.mp hlast
      simp only [List.mem_append, List.mem_singleton, not_or] at hafter
      exact (h.resolve_left (Ne.symm hafter.2)).1 before l after rfl hafter.1

/-- From rows in order, many uses lead to rows in order exactly if they are orderly. -/
theorem ascending_run_iff (hu : Ascending u.accepted) :
    Ascending (u.run uses).accepted ↔ u.Orderly uses := by
  induction uses using List.reverseRecOn with
  | nil => exact iff_of_true hu orderly_nil
  | append_singleton uses use ih => rw [run_concat, ascending_after_iff, orderly_concat, ih]

theorem read_run (uses : List Use) (f : EventFilter) :
    let u := ({} : InUse).run uses
    storage.read f u.store = (.ok (u.accepted.filter f.accepts), u.store) := by
  intro u
  have hholds : u.store.Holds u.accepted := holds_run holds_empty uses
  rw [← hholds.read_eq]
  rfl

/-- After any uses a memory reads the rows that a filter accepts, each once, in the order in which
they were accepted. All reads have the rows of each stream in ascending order of versions exactly if
each batch that was not cleared away brought rows above those that were stored before it. -/
theorem read_in_order_of_arrival (uses : List Use) :
    let u := ({} : InUse).run uses
    (∀ f, ∃ l, storage.read f u.store = (.ok l, u.store) ∧ l.Sublist u.store.rows ∧ l.Nodup ∧
      ∀ r, r ∈ l ↔ r ∈ u.store.rows ∧ f.accepts r) ∧
    ((∀ f l, storage.read f u.store = (.ok l, u.store) → Ascending l) ↔ ({} : InUse).Orderly uses)
    := by
  intro u
  have hholds : u.store.Holds u.accepted := holds_run holds_empty uses
  have hread : ∀ f, storage.read f u.store = (.ok (u.accepted.filter f.accepts), u.store) :=
    read_run uses
  rw [hholds.rows_eq]
  constructor
  · intro f
    have hnodup : u.accepted.Nodup := hholds.unique.ids.of_map _
    exact ⟨_, hread f, List.filter_sublist, hnodup.filter _, fun r => List.mem_filter⟩
  · rw [← ascending_run_iff ascending_nil, ascending_iff_filter]
    refine forall_congr' fun f => ?_
    rw [hread]
    exact ⟨fun h => h _ rfl, fun h l hl => Except.ok.inj (congrArg Prod.fst hl) ▸ h⟩

open TableStore (firstRow secondRow)

/-- The second version of an aggregate is accepted before the first one, in the same batch or in an
earlier one, and then it is read before it. -/
theorem second_version_is_read_first :
    let f : EventFilter := { aggregateType := "Account", aggregateIds := some ["ann"] }
    firstRow.stream = secondRow.stream ∧ firstRow.version < secondRow.version ∧
      ∀ uses ∈ [[Use.append [secondRow, firstRow]], [.append [secondRow], .append [firstRow]]],
        let u := ({} : InUse).run uses
        u.accepted = [secondRow, firstRow] ∧
          storage.read f u.store = (.ok [secondRow, firstRow], u.store) ∧
          ¬ Ascending [secondRow, firstRow] := by
  refine ⟨rfl, by decide, fun uses huses => ?_⟩
  have haccepted : (({} : InUse).run uses).accepted = [secondRow, firstRow] := by
    simp only [List.mem_cons, List.not_mem_nil, or_false] at huses
    rcases huses with rfl | rfl <;> decide +kernel
  refine ⟨haccepted, ?_, by decide⟩
  rw [read_run, haccepted]
  rfl

end MemoryStore.InUse

end EventStore
