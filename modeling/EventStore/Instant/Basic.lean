import EventStore.Instant.Date
import EventStore.Text.Blank
import EventStore.Text.Digits

/-! Points in time, in UTC.

An instant is a date, a second of that day and a number of nanoseconds. A leap second is the second
before it with a second more of nanoseconds. The written form is that of RFC 3339 with the offset
`Z`; the fraction is left out when it is zero and else has 3, 6 or 9 digits, the fewest that lose
nothing. -/

namespace EventStore

structure Instant where
  date : Date
  second : Nat
  nanos : Nat
  second_lt : second < 86400
  nanos_lt : nanos < 2000000000
deriving DecidableEq

namespace Instant

open Text

/-- The first instant of the year 1970. -/
def epoch : Instant := ⟨.newYear 1970, 0, 0, by decide, by decide⟩

/-- Years are written with four digits, and with a sign outside the range that four digits cover. -/
def yearChars (y : Int) : List Char :=
  if 0 ≤ y ∧ y ≤ 9999 then fixedDigits 10 4 y.toNat
  else (if y < 0 then '-' else '+') :: paddedDecimal 4 y.natAbs

/-- The fraction of a second, with its point. -/
def fractionChars (nanos : Nat) : List Char :=
  if nanos = 0 then []
  else if nanos % 1000000 = 0 then '.' :: fixedDigits 10 3 (nanos / 1000000)
  else if nanos % 1000 = 0 then '.' :: fixedDigits 10 6 (nanos / 1000)
  else '.' :: fixedDigits 10 9 nanos

def chars (t : Instant) : List Char :=
  yearChars t.date.year ++ '-' :: fixedDigits 10 2 t.date.month ++
    '-' :: fixedDigits 10 2 t.date.day ++
    'T' :: fixedDigits 10 2 (t.second / 3600) ++
    ':' :: fixedDigits 10 2 (t.second / 60 % 60) ++
    ':' :: fixedDigits 10 2 (t.second % 60 + t.nanos / 1000000000) ++
    fractionChars (t.nanos % 1000000000) ++ ['Z']

def text (t : Instant) : String := String.ofList t.chars

/-- The instant whose clock shows the given time at an offset from UTC that is less than a day. -/
def sinceOffset (t : Instant) (offset : Int) : Instant :=
  let s : Int := t.second - offset
  have lt (n : Nat) : n % 86400 < 86400 := Nat.mod_lt n (by decide)
  { t with
    date := if s < 0 then t.date.previous else if 86400 ≤ s then t.date.next else t.date
    second := (s + 86400).toNat % 86400
    second_lt := lt _ }

end Instant

end EventStore
