import EventStore.Storage.Row

/-! Storage in memory.

Rows are kept by stream, each with its number in the order of arrival, and an index says which slot
each event id is stored at. To append a batch is to append all of its rows or none; a row that is
stored already, with the same event id in the same slot, is passed over, so that an append may be
repeated. -/

namespace EventStore

/-- A stored row and its number in the order of arrival. -/
structure Arrival where
  number : Nat
  row : EventRow
deriving DecidableEq

structure MemoryStore where
  streams : List (StreamKey × List Arrival) := []
  /-- Where each event id is stored. -/
  index : List (Uuid × Slot) := []
  /-- The number of the next row. -/
  next : Nat := 0
deriving DecidableEq

/-- Adds an arrival to the end of its stream. -/
def addArrival (k : StreamKey) (a : Arrival) :
    List (StreamKey × List Arrival) → List (StreamKey × List Arrival)
  | [] => [(k, [a])]
  | (k', l) :: streams =>
    if k = k' then (k', l ++ [a]) :: streams else (k', l) :: addArrival k a streams

/-- Rows in the order of their arrival. -/
def inArrivalOrder (l : List Arrival) : List EventRow :=
  (l.mergeSort fun a b => a.number ≤ b.number).map (·.row)

namespace MemoryStore

def arrivals (s : MemoryStore) (k : StreamKey) : List Arrival := (s.streams.lookup k).getD []

/-- Whether a row is stored in a slot. -/
def occupied (s : MemoryStore) (slot : Slot) : Bool :=
  (s.arrivals slot.stream).any fun a => a.row.version = slot.version

def slotOf? (s : MemoryStore) (id : Uuid) : Option Slot := s.index.lookup id

def length (s : MemoryStore) : Nat := s.index.length

/-- All rows in the order of their arrival. -/
def rows (s : MemoryStore) : List EventRow := inArrivalOrder (s.streams.flatMap (·.2))

/-- Empties the storage; the numbers of rows go on. -/
def clear (s : MemoryStore) : MemoryStore := { s with streams := [], index := [] }

/-- The rows of a batch that are still to be stored. The event ids of the batch so far are given,
and the slots of those of its rows that are to be stored. -/
def unstoredAfter (s : MemoryStore) (ids : List Uuid) (slots : List Slot) :
    List EventRow → Except StorageError (List EventRow)
  | [] => .ok []
  | r :: l =>
    if r.eventId ∈ ids then .error (.duplicateEvent r.eventId)
    else
      match s.slotOf? r.eventId with
      | some slot =>
        if slot = r.slot then s.unstoredAfter (r.eventId :: ids) slots l
        else .error (.duplicateEvent r.eventId)
      | none =>
        if s.occupied r.slot ∨ r.slot ∈ slots then .error (.conflict r.slot)
        else (s.unstoredAfter (r.eventId :: ids) (r.slot :: slots) l).map (r :: ·)

/-- The rows of a batch that are still to be stored. -/
def unstored (s : MemoryStore) (l : List EventRow) : Except StorageError (List EventRow) :=
  s.unstoredAfter [] [] l

/-- Stores a row. -/
def push (s : MemoryStore) (r : EventRow) : MemoryStore where
  streams := addArrival r.stream ⟨s.next, r⟩ s.streams
  index := (r.eventId, r.slot) :: s.index
  next := s.next + 1

def append (s : MemoryStore) (l : List EventRow) : Except StorageError MemoryStore :=
  (s.unstored l).map fun l => l.foldl push s

/-- The rows that a filter accepts, in the order of their arrival. -/
def read (s : MemoryStore) (f : EventFilter) : List EventRow :=
  if f.isEmptySelection then []
  else inArrivalOrder (s.streams.flatMap fun (_, l) => l.filter fun a => f.accepts a.row)

/-- The storage whose state is a memory. -/
def storage : Storage MemoryStore where
  append l := do
    set (← StorageM.ofExcept ((← get).append l))
  read f := return (← get).read f

end MemoryStore

end EventStore
