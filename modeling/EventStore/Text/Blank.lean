import EventStore.Text.CharSet

/-! Blank characters and trimming.

A character is blank when it has the Unicode property White_Space. Trimming drops the blanks at both
ends of a text; a trimmed text is its own trimming. -/

namespace EventStore.Text

/-- The characters with the property White_Space. -/
def blanks : CharSet where
  ranges :=
    [(0x9, 0xD), (0x20, 0x20), (0x85, 0x85), (0xA0, 0xA0), (0x1680, 0x1680), (0x2000, 0x200A),
     (0x2028, 0x2029), (0x202F, 0x202F), (0x205F, 0x205F), (0x3000, 0x3000)]

def dropBlanks (l : List Char) : List Char := l.dropWhile (· ∈ blanks)

def trimList (l : List Char) : List Char := (dropBlanks (dropBlanks l).reverse).reverse

/-- The text without the blanks at its ends. -/
def trim (s : String) : String := String.ofList (trimList s.toList)

@[simp] theorem dropBlanks_nil : dropBlanks [] = [] := rfl

theorem dropBlanks_cons (c : Char) (l : List Char) :
    dropBlanks (c :: l) = if c ∈ blanks then dropBlanks l else c :: l := by
  simp [dropBlanks, List.dropWhile_cons]

theorem dropBlanks_dropBlanks (l : List Char) : dropBlanks (dropBlanks l) = dropBlanks l := by
  induction l with
  | nil => rfl
  | cons c l ih => by_cases h : c ∈ blanks <;> simp [dropBlanks_cons, h, ih]

/-- Dropping the blanks at the end leaves the start of a text that starts with none. -/
private theorem dropBlanks_reverse_dropBlanks (l : List Char) (h : dropBlanks l = l) :
    dropBlanks (dropBlanks l.reverse).reverse = (dropBlanks l.reverse).reverse := by
  cases l with
  | nil => rfl
  | cons c l =>
    have hc : c ∉ blanks := by
      intro hc
      have hle : (dropBlanks l).length ≤ l.length := (List.dropWhile_suffix _).length_le
      rw [dropBlanks_cons, if_pos hc] at h
      rw [h, List.length_cons] at hle
      omega
    have hend : dropBlanks (l.reverse ++ [c]) = dropBlanks l.reverse ++ [c] := by
      simp only [dropBlanks, List.dropWhile_append]
      split
      · simp_all
      · rfl
    rw [List.reverse_cons, hend]
    simp [dropBlanks_cons, hc]

theorem trimList_trimList (l : List Char) : trimList (trimList l) = trimList l := by
  have h := dropBlanks_reverse_dropBlanks (dropBlanks l) (dropBlanks_dropBlanks l)
  unfold trimList
  rw [h, List.reverse_reverse, dropBlanks_dropBlanks]

theorem trim_trim (s : String) : trim (trim s) = trim s := by
  simp [trim, trimList_trimList]

/-- A text none of whose characters is blank has nothing to trim. -/
theorem trim_eq_self (s : String) (h : ∀ c ∈ s.toList, c ∉ blanks) : trim s = s := by
  have drop : ∀ l : List Char, (∀ c ∈ l, c ∉ blanks) → dropBlanks l = l := by
    intro l hl
    cases l with
    | nil => rfl
    | cons c l => rw [dropBlanks_cons, if_neg (hl c (by simp))]
  have hr : ∀ c ∈ s.toList.reverse, c ∉ blanks := by simpa using h
  simp [trim, trimList, drop _ h, drop _ hr]

end EventStore.Text
