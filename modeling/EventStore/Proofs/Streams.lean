import EventStore.Proofs.Dispatch
import EventStore.Proofs.Loading

/-!
# Numbered streams

Proved here, for rows whose versions in every stream are 1, 2, 3 and so on (`Numbered`):

* `history_eq_take`: a load reads the first rows of a stream, as many as its ceiling says;
* `replayRows_eq_some`: and gives an aggregate whose version is their number;
* `numbered_append`: versions that go on from the last one leave streams numbered.
-/

namespace EventStore

/-- The rows of a stream, in the order of their arrival. -/
def inStream (k : StreamKey) (rows : List EventRow) : List EventRow :=
  rows.filter (·.stream = k)

/-- In every stream the versions are 1, 2, 3 and so on, in the order of arrival. -/
def Numbered (rows : List EventRow) : Prop :=
  ∀ k, (inStream k rows).map (·.version) = List.range' 1 (inStream k rows).length

variable {k : StreamKey} {rows l : List EventRow}

theorem mem_inStream {r : EventRow} : r ∈ inStream k rows ↔ r ∈ rows ∧ r.stream = k := by
  simp [inStream]

theorem inStream_append : inStream k (rows ++ l) = inStream k rows ++ inStream k l :=
  List.filter_append ..

theorem inStream_eq_self (h : ∀ r ∈ l, r.stream = k) : inStream k l = l :=
  List.filter_eq_self.mpr fun r hr => by simpa using h r hr

theorem inStream_eq_nil (h : ∀ r ∈ l, r.stream ≠ k) : inStream k l = [] :=
  List.filter_eq_nil_iff.mpr fun r hr => by simpa using h r hr

theorem numbered_nil : Numbered [] := fun _ => rfl

/-- A slot of a stream is taken if its version is at most the number of rows. -/
theorem slot_mem_of_le (h : Numbered rows) {version : Nat} (hpos : 1 ≤ version)
    (hle : version ≤ (inStream k rows).length) : (⟨k, version⟩ : Slot) ∈ rows.map (·.slot) := by
  have hmem : version ∈ (inStream k rows).map (·.version) := by
    rw [h k, List.mem_range'_1]
    omega
  obtain ⟨r, hr, rfl⟩ := List.mem_map.mp hmem
  obtain ⟨hrows, rfl⟩ := mem_inStream.mp hr
  exact List.mem_map.mpr ⟨r, hrows, rfl⟩

/-- New rows may go on from the last version of each stream. -/
theorem numbered_append (h : Numbered rows)
    (hnext : ∀ k, (inStream k l).map (·.version) =
      List.range' ((inStream k rows).length + 1) (inStream k l).length) :
    Numbered (rows ++ l) := by
  intro k
  rw [inStream_append, List.map_append, h k, hnext k, List.length_append, Nat.add_comm _ 1]
  exact List.range'_append_1

/-! ## Loads -/

theorem filter_version_eq_take (h : l.map (·.version) = List.range' 1 l.length) (ceiling : Nat) :
    (l.filter fun r => r.version ≤ ceiling) = l.take ceiling := by
  have hversion : ∀ i, ∀ hi : i < l.length, l[i].version = i + 1 := by
    intro i hi
    have hget : (l.map (·.version))[i]? = some (1 + i) := by
      rw [h, List.getElem?_range' hi, Nat.one_mul]
    rw [List.getElem?_map, List.getElem?_eq_getElem hi] at hget
    have hversion : l[i].version = 1 + i := Option.some.inj hget
    omega
  have hsplit : (l.take ceiling ++ l.drop ceiling).filter (fun r => r.version ≤ ceiling) =
      l.take ceiling := by
    rw [List.filter_append, List.filter_eq_self.mpr, List.filter_eq_nil_iff.mpr, List.append_nil]
    · intro r hr
      obtain ⟨i, hi, rfl⟩ := List.mem_iff_getElem.mp hr
      rw [List.length_drop] at hi
      rw [List.getElem_drop, hversion _ (by omega)]
      simp only [decide_eq_true_eq]
      omega
    · intro r hr
      obtain ⟨i, hi, rfl⟩ := List.mem_iff_getElem.mp hr
      rw [List.length_take] at hi
      rw [List.getElem_take, hversion _ (by omega)]
      simp only [decide_eq_true_eq]
      omega
  rwa [List.take_append_drop] at hsplit

namespace Mapping

variable {S P : Type} {m : Mapping S P} {id : AggregateId} {options : LoadOptions}

theorem history_eq_filter : m.history id options rows =
    (inStream (m.streamOf id) rows).filter fun r =>
      options.maxVersion.all fun ceiling => r.version ≤ ceiling := by
  rw [inStream, List.filter_filter, history]
  refine List.filter_congr fun r _ => ?_
  rw [Bool.eq_iff_iff, accepts_filterOne_iff]
  cases options.maxVersion <;> simp [and_comm]

theorem history_eq_take (h : Numbered rows) :
    m.history id options rows =
      match options.maxVersion with
      | none => inStream (m.streamOf id) rows
      | some ceiling => (inStream (m.streamOf id) rows).take ceiling := by
  rw [history_eq_filter]
  cases hmax : options.maxVersion with
  | none => simp
  | some ceiling => simpa using filter_version_eq_take (h (m.streamOf id)) ceiling

theorem history_prefix (h : Numbered rows) :
    m.history id options rows <+: inStream (m.streamOf id) rows := by
  rw [history_eq_take h]
  split
  · exact List.prefix_refl _
  · exact List.take_prefix _ _

theorem versions_history (h : Numbered rows) :
    (m.history id options rows).map (·.version) =
      List.range' 1 (m.history id options rows).length := by
  obtain ⟨rest, hrest⟩ : m.history id options rows <+: inStream (m.streamOf id) rows :=
    history_prefix h
  have hall := h (m.streamOf id)
  rw [← hrest, List.map_append, List.length_append, ← List.range'_append_1] at hall
  exact (List.append_inj hall (by simp)).1

/-- An aggregate that was replayed from rows 1 to n is at version n, with nothing queued. -/
theorem replayRows_eq_some (hversions : l.map (·.version) = List.range' 1 l.length)
    {a : Aggregate S P} (h : m.replayRows id options l = .ok (some a)) :
    a.id = id ∧ a.version = l.length ∧ a.pending = [] := by
  obtain ⟨events, hevents, hne, hreplay, -⟩ := replayRows_eq_some_iff.mp h
  have hnumbers : events.map (·.versionNumber) = List.range' 1 l.length :=
    (map_eq_map_of_mapM (fun _ _ _ he => versionNumber_of_ofRow he) hevents).trans hversions
  have hsorted : events.Pairwise fun x y => x.versionNumber < y.versionNumber := by
    rw [← List.pairwise_map (f := DomainEvent.versionNumber) (R := (· < ·)), hnumbers]
    exact List.pairwise_lt_range'
  obtain ⟨state, -, -, rfl⟩ := Aggregate.replay_eq_ok_iff.mp hreplay
  rw [Aggregate.sortByVersion_eq_of_perm (List.Perm.refl _) hsorted]
  refine ⟨Aggregate.foldl_advance_id _, ?_, Aggregate.foldl_advance_pending _⟩
  have hlength : 0 < l.length := by
    have hcount := congrArg List.length hnumbers
    rw [List.length_map, List.length_range'] at hcount
    exact hcount ▸ List.length_pos_iff.mpr hne
  have hlast : events.getLast?.map (·.versionNumber) = some l.length := by
    rw [← List.getLast?_map, hnumbers, List.getLast?_range']
    simp only [Nat.ne_of_gt hlength, if_false]
    congr 1
    omega
  rw [Aggregate.foldl_advance_version, hlast]
  rfl

end Mapping

end EventStore
