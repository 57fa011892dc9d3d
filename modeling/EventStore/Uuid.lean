import EventStore.Text.Blank
import EventStore.Text.Digits

/-! Universally unique identifiers.

An identifier is a number of 128 bits. It is written as 32 lower-case hexadecimal digits in five
groups with hyphens between them. It is also read without hyphens, between braces, or after
`urn:uuid:`, with letters of either case. -/

namespace EventStore

structure Uuid where
  value : BitVec 128
deriving DecidableEq, Hashable

namespace Uuid

open Text

/-- The identifier all of whose bits are zero. -/
def zero : Uuid := ⟨0⟩

/-- Lengths of the groups of digits. -/
def groups : List Nat := [8, 4, 4, 4, 12]

/-- Cuts a list into groups and joins them with hyphens. -/
def hyphenate : List Nat → List Char → List Char
  | [], l => l
  | [_], l => l
  | n :: ns, l => l.take n ++ '-' :: hyphenate ns (l.drop n)

/-- Removes the hyphens between groups; fails where one is missing. -/
def unhyphenate? : List Nat → List Char → Option (List Char)
  | [], l => some l
  | [_], l => some l
  | n :: ns, l =>
    match l.drop n with
    | '-' :: r => (unhyphenate? ns r).map (l.take n ++ ·)
    | _ => none

def digits (u : Uuid) : List Char := fixedDigits 16 32 u.value.toNat

def chars (u : Uuid) : List Char := hyphenate groups u.digits

def text (u : Uuid) : String := String.ofList u.chars

/-- Reads exactly 32 hexadecimal digits. -/
def ofDigits? (l : List Char) : Option Uuid :=
  if l.length = 32 ∧ l.all (fun c => (digitValue? c).isSome) then some ⟨.ofNat 128 (ofDigits 16 l)⟩
  else none

def ofHyphenated? (l : List Char) : Option Uuid := (unhyphenate? groups l).bind ofDigits?

/-- Reads any of the written forms. -/
def ofChars? (l : List Char) : Option Uuid :=
  if l.length = 32 then ofDigits? l
  else if l.length = 36 then ofHyphenated? l
  else if l.length = 38 ∧ l.head? = some '\x7b' ∧ l.getLast? = some '\x7d' then
    ofHyphenated? (l.drop 1).dropLast
  else if l.length = 45 ∧ (l.take 9).map Char.toLower = "urn:uuid:".toList then
    ofHyphenated? (l.drop 9)
  else none

def ofText? (s : String) : Option Uuid := ofChars? s.toList

private theorem digit_hex : ∀ n < 16, (digitValue? (digit n)).isSome ∧ digit n ∉ blanks := by
  decide

private theorem mem_fixedDigits (width n : Nat) (c : Char) (h : c ∈ fixedDigits 16 width n) :
    ∃ d < 16, c = digit d := by
  induction width generalizing n with
  | zero => simp [fixedDigits] at h
  | succ width ih =>
    rcases List.mem_append.mp h with h | h
    · exact ih _ h
    · exact ⟨n % 16, Nat.mod_lt _ (by decide), by simpa using h⟩

private theorem mem_hyphenate (ns : List Nat) (l : List Char) (c : Char) (h : c ∈ hyphenate ns l) :
    c = '-' ∨ c ∈ l := by
  induction ns generalizing l with
  | nil => exact .inr h
  | cons n ns ih =>
    cases ns with
    | nil => exact .inr h
    | cons m ns =>
      simp only [hyphenate, List.mem_append, List.mem_cons] at h
      rcases h with h | h | h
      · exact .inr (List.mem_of_mem_take h)
      · exact .inl h
      · exact (ih _ h).imp_right List.mem_of_mem_drop

theorem not_blank_of_mem_chars (u : Uuid) (c : Char) (h : c ∈ u.chars) : c ∉ blanks := by
  rcases mem_hyphenate _ _ _ h with rfl | h
  · decide
  · obtain ⟨d, hd, rfl⟩ := mem_fixedDigits _ _ _ h
    exact (digit_hex d hd).2

theorem length_digits (u : Uuid) : u.digits.length = 32 := length_fixedDigits 16 32 _

theorem length_chars (u : Uuid) : u.chars.length = 36 := by
  simp [chars, groups, hyphenate, length_digits]

private theorem unhyphenate?_hyphenate (ns : List Nat) (l : List Char)
    (h : ns.foldr (· + ·) 0 ≤ l.length) : unhyphenate? ns (hyphenate ns l) = some l := by
  induction ns generalizing l with
  | nil => rfl
  | cons n ns ih =>
    cases ns with
    | nil => rfl
    | cons m ns =>
      simp only [List.foldr_cons] at h ih
      have hn : n ≤ l.length := by omega
      have hd : ((l.take n) ++ '-' :: hyphenate (m :: ns) (l.drop n)).drop n
          = '-' :: hyphenate (m :: ns) (l.drop n) := by
        rw [List.drop_append_of_le_length (by simp [hn])]
        simp [List.drop_eq_nil_of_le, hn]
      have hr := ih (l.drop n) (by simp; omega)
      rw [hyphenate, unhyphenate?, hd]
      · simp [hr, hn]
      all_goals simp

/-- Reading the written form of an identifier gives the identifier. -/
theorem ofText?_text (u : Uuid) : ofText? u.text = some u := by
  have hall : u.digits.all (fun c => (digitValue? c).isSome) = true := by
    rw [List.all_eq_true]
    intro c h
    obtain ⟨d, hd, rfl⟩ := mem_fixedDigits _ _ _ h
    exact (digit_hex d hd).1
  have hread : ofDigits? u.digits = some u := by
    rw [ofDigits?, if_pos ⟨u.length_digits, hall⟩, digits, ofDigits_fixedDigits 16 32 _ (by decide)
      (by decide), Nat.mod_eq_of_lt (by have := u.value.isLt; omega)]
    simp
  have hgroups : unhyphenate? groups u.chars = some u.digits :=
    unhyphenate?_hyphenate groups _ (by simp [groups, length_digits])
  simp [ofText?, text, ofChars?, length_chars, ofHyphenated?, hgroups, hread]

end Uuid

end EventStore
