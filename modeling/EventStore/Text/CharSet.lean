/-! Sets of characters, written as ranges of code points.

A property of the Unicode standard is a table of such ranges; membership is a search in the table.
-/

namespace EventStore.Text

/-- A set of characters, given by its ranges of code points, both ends included. -/
structure CharSet where
  ranges : List (Nat × Nat)

namespace CharSet

instance : Membership Char CharSet where
  mem s c := ∃ r ∈ s.ranges, r.1 ≤ c.toNat ∧ c.toNat ≤ r.2

instance (c : Char) (s : CharSet) : Decidable (c ∈ s) :=
  inferInstanceAs (Decidable (∃ r ∈ s.ranges, r.1 ≤ c.toNat ∧ c.toNat ≤ r.2))

theorem mem_iff (c : Char) (s : CharSet) :
    c ∈ s ↔ ∃ r ∈ s.ranges, r.1 ≤ c.toNat ∧ c.toNat ≤ r.2 := Iff.rfl

end CharSet

end EventStore.Text
