/-! Entries by key, in the order of their keys.

A key occurs once. Inserting a key that is there replaces its value. -/

namespace EventStore

variable {α : Type}

/-- Puts a value at the place of its key, in place of another value with that key. -/
def insertEntry (k : String) (a : α) : List (String × α) → List (String × α)
  | [] => [(k, a)]
  | (k', a') :: l =>
    if k = k' then (k, a) :: l
    else if k < k' then (k, a) :: (k', a') :: l
    else (k', a') :: insertEntry k a l

/-- Keys in strictly increasing order. -/
def SortedKeys (l : List (String × α)) : Prop := l.Pairwise (·.1 < ·.1)

theorem mem_insertEntry {k : String} {a : α} {l : List (String × α)} {p : String × α}
    (h : p ∈ insertEntry k a l) : p = (k, a) ∨ p ∈ l := by
  induction l with
  | nil => simpa [insertEntry] using h
  | cons q l ih =>
    unfold insertEntry at h
    split at h
    · exact (List.mem_cons.mp h).imp_right (List.mem_cons_of_mem _)
    · split at h
      · exact List.mem_cons.mp h
      · rcases List.mem_cons.mp h with h | h
        · exact .inr (h ▸ List.mem_cons_self)
        · exact (ih h).imp_right (List.mem_cons_of_mem _)

theorem sortedKeys_insertEntry (k : String) (a : α) (l : List (String × α)) (h : SortedKeys l) :
    SortedKeys (insertEntry k a l) := by
  induction l with
  | nil => simp [insertEntry, SortedKeys]
  | cons q l ih =>
    obtain ⟨hq, hl⟩ := List.pairwise_cons.mp h
    unfold insertEntry
    split
    · rename_i he
      exact List.pairwise_cons.mpr ⟨fun p hp => by simpa [he] using hq p hp, hl⟩
    · rename_i hne
      split
      · rename_i hlt
        refine List.pairwise_cons.mpr ⟨fun p hp => ?_, h⟩
        rcases List.mem_cons.mp hp with rfl | hp
        · exact hlt
        · exact String.lt_trans hlt (hq p hp)
      · rename_i hge
        have hlt : q.1 < k := by
          have hle := String.not_lt.mp hge
          exact Classical.byContradiction fun h =>
            hne (String.le_antisymm (String.not_lt.mp h) hle)
        refine List.pairwise_cons.mpr ⟨fun p hp => ?_, ih hl⟩
        rcases mem_insertEntry hp with rfl | hp
        · exact hlt
        · exact hq p hp

/-- A finite map from texts, as the list of its entries. -/
structure Entries (α : Type) where
  toList : List (String × α)
  sorted : SortedKeys toList
deriving DecidableEq

namespace Entries

def empty : Entries α := ⟨[], List.Pairwise.nil⟩

def insert (m : Entries α) (k : String) (a : α) : Entries α :=
  ⟨insertEntry k a m.toList, sortedKeys_insertEntry k a _ m.sorted⟩

/-- Inserts entries one after the other. -/
def insertAll (m : Entries α) (l : List (String × α)) : Entries α :=
  l.foldl (fun m p => m.insert p.1 p.2) m

def ofList (l : List (String × α)) : Entries α := empty.insertAll l

end Entries

end EventStore
