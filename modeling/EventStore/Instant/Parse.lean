import EventStore.Instant.Basic

/-! Reading points in time.

The form of RFC 3339 is read with some freedom: blanks may stand before each number and separator,
numbers may be shorter than their width, a year with a sign may be longer, digits of the fraction
after the ninth are ignored, and the offset may be `Z`, `UTC` or a signed number of hours and
minutes. -/

namespace EventStore.Instant

open Text

/-- Reads one to `width` digits. -/
def digits? (width : Nat) (l : List Char) : Option (Nat × List Char) :=
  let ds := (l.takeWhile Char.isDigit).take width
  if ds = [] then none else some (ofDigits 10 ds, l.drop ds.length)

/-- Reads a number of at most two digits after blanks. -/
def field? (l : List Char) : Option (Nat × List Char) := digits? 2 (dropBlanks l)

/-- Reads a year: four digits, or any number of them after a sign. -/
def year? (l : List Char) : Option (Int × List Char) :=
  match dropBlanks l with
  | '-' :: r => (digits? r.length r).map fun (n, r) => (-(n : Int), r)
  | '+' :: r => (digits? r.length r).map fun (n, r) => ((n : Int), r)
  | r => (digits? 4 r).map fun (n, r) => ((n : Int), r)

/-- Reads a separator after blanks. -/
def separator? (c : Char) (l : List Char) : Option (List Char) :=
  match dropBlanks l with
  | d :: r => if d = c then some r else none
  | [] => none

/-- Reads the nanoseconds, which are zero where no point follows. -/
def fraction? (l : List Char) : Option (Nat × List Char) :=
  match l with
  | '.' :: r =>
    (digits? 9 r).map fun (n, r') =>
      (n * Nat.pow 10 (9 - (r.length - r'.length)), r'.dropWhile Char.isDigit)
  | _ => some (0, l)

/-- Reads an offset in seconds. -/
def offset? (l : List Char) : Option (Int × List Char) :=
  let l := dropBlanks l
  if (l.take 3).map Char.toLower = ['u', 't', 'c'] then some (0, l.drop 3)
  else
    match l with
    | [] => none
    | sign :: r =>
      if sign = 'Z' ∨ sign = 'z' then some (0, r)
      else if sign = '+' ∨ sign = '-' ∨ sign = '−' then
        match r with
        | h₁ :: h₂ :: r =>
          match r.dropWhile fun c => c = ':' ∨ c ∈ blanks with
          | m₁ :: m₂ :: r =>
            if h₁.isDigit ∧ h₂.isDigit ∧ '0' ≤ m₁ ∧ m₁ ≤ '5' ∧ m₂.isDigit then
              let n : Int := ofDigits 10 [h₁, h₂] * 3600 + ofDigits 10 [m₁, m₂] * 60
              some (if sign = '+' then n else -n, r)
            else none
          | _ => none
        | _ => none
      else none

/-- Years that an instant may lie in. -/
def yearInRange (y : Int) : Bool := -262143 ≤ y && y ≤ 262142

/-- The instant of a clock time; the sixtieth second is a leap second. -/
def ofFields? (date : Date) (hour minute second nanos : Nat) : Option Instant :=
  if h : hour < 24 ∧ minute < 60 ∧ second < 60 ∧ nanos < 1000000000 then
    some ⟨date, hour * 3600 + minute * 60 + second, nanos, by omega, by omega⟩
  else if h : hour < 24 ∧ minute < 60 ∧ second = 60 ∧ nanos < 1000000000 then
    some ⟨date, hour * 3600 + minute * 60 + 59, nanos + 1000000000, by omega, by omega⟩
  else none

def ofChars? (l : List Char) : Option Instant := do
  let (year, l) ← year? l
  let l ← separator? '-' l
  let (month, l) ← field? l
  let l ← separator? '-' l
  let (day, l) ← field? l
  let l ← match l with
    | c :: r => if c = 'T' ∨ c = 't' ∨ c = ' ' then some r else none
    | [] => none
  let (hour, l) ← field? l
  let l ← separator? ':' l
  let (minute, l) ← field? l
  let l ← separator? ':' l
  let (second, l) ← field? l
  let (nanos, l) ← fraction? l
  let (offset, l) ← offset? l
  if dropBlanks l = [] ∧ yearInRange year ∧ offset.natAbs < 86400 then
    let date ← Date.ofFields? year month day
    let clock ← ofFields? date hour minute second nanos
    let t := clock.sinceOffset offset
    if yearInRange t.date.year then some t else none
  else none

def ofText? (s : String) : Option Instant := ofChars? s.toList

end EventStore.Instant
