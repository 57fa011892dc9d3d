/-! Numbers as digits: decimal and hexadecimal text.

Reading the digits that are written for a number gives the number back. -/

namespace EventStore.Text

/-- The digit for a value below sixteen, in lower case. -/
def digit (n : Nat) : Char := if n < 10 then Char.ofNat (48 + n) else Char.ofNat (87 + n)

/-- The value of a hexadecimal digit of either case. -/
def digitValue? (c : Char) : Option Nat :=
  let n := c.toNat
  if 48 ≤ n ∧ n ≤ 57 then some (n - 48)
  else if 97 ≤ n ∧ n ≤ 102 then some (n - 87)
  else if 65 ≤ n ∧ n ≤ 70 then some (n - 55)
  else none

/-- The decimal digits of a number, without leading zeros. -/
def decimal (n : Nat) : List Char :=
  if n < 10 then [digit n] else decimal (n / 10) ++ [digit (n % 10)]

/-- The last `width` digits of a number in the given base, padded with zeros. -/
def fixedDigits (base : Nat) : (width : Nat) → Nat → List Char
  | 0, _ => []
  | width + 1, n => fixedDigits base width (n / base) ++ [digit (n % base)]

/-- The decimal digits, padded with zeros to at least the given width. -/
def paddedDecimal (width n : Nat) : List Char :=
  List.replicate (width - (decimal n).length) '0' ++ decimal n

/-- The value of a list of digits in the given base; what is no digit counts as zero. -/
def ofDigits (base : Nat) (l : List Char) : Nat :=
  l.foldl (fun n c => base * n + (digitValue? c).getD 0) 0

def hexadecimal (n : Nat) : List Char := Nat.toDigits 16 n

def decimalText (n : Nat) : String := String.ofList (decimal n)

/-- An integer in decimal, with a minus sign below zero. -/
def integer : Int → List Char
  | .ofNat n => decimal n
  | .negSucc n => '-' :: decimal (n + 1)

def integerText (z : Int) : String := String.ofList (integer z)

theorem digitValue?_digit : ∀ n < 16, digitValue? (digit n) = some n := by decide

theorem ofDigits_append_singleton (base : Nat) (l : List Char) (c : Char) :
    ofDigits base (l ++ [c]) = base * ofDigits base l + (digitValue? c).getD 0 := by
  simp [ofDigits, List.foldl_append]

theorem ofDigits_decimal (n : Nat) : ofDigits 10 (decimal n) = n := by
  induction n using Nat.strongRecOn with
  | ind n ih =>
    rw [decimal]
    split
    · simp [ofDigits, digitValue?_digit n (by omega)]
    · rw [ofDigits_append_singleton, ih (n / 10) (by omega), digitValue?_digit (n % 10) (by omega)]
      simp only [Option.getD_some]
      omega

theorem isDigit_digit : ∀ n < 10, (digit n).isDigit = true := by decide

theorem decimal_isDigit (n : Nat) : ∀ c ∈ decimal n, c.isDigit = true := by
  induction n using Nat.strongRecOn with
  | ind n ih =>
    rw [decimal]
    split
    · simpa using isDigit_digit n (by omega)
    · intro c hc
      rcases List.mem_append.mp hc with h | h
      · exact ih (n / 10) (by omega) c h
      · simp only [List.mem_singleton] at h
        exact h ▸ isDigit_digit (n % 10) (by omega)

theorem decimal_ne_nil (n : Nat) : decimal n ≠ [] := by
  rw [decimal]
  split <;> simp

theorem ofDigits_fixedDigits (base width n : Nat) (h0 : 0 < base) (hb : base ≤ 16) :
    ofDigits base (fixedDigits base width n) = n % Nat.pow base width := by
  induction width generalizing n with
  | zero => simp [fixedDigits, ofDigits, Nat.mod_one]
  | succ width ih =>
    have hd : n % base < 16 := Nat.lt_of_lt_of_le (Nat.mod_lt n h0) hb
    have hpow : Nat.pow base (width + 1) = base * Nat.pow base width := Nat.mul_comm _ _
    rw [fixedDigits, ofDigits_append_singleton, ih, digitValue?_digit _ hd, Option.getD_some,
      hpow, Nat.mod_mul]
    omega

theorem length_fixedDigits (base width n : Nat) : (fixedDigits base width n).length = width := by
  induction width generalizing n with
  | zero => rfl
  | succ width ih => simp [fixedDigits, ih]

end EventStore.Text
