import EventStore.Decimal.Shortest
import EventStore.Text.Digits

/-! Numbers of JSON texts.

A numeral is an integer if it is written as one and fits 64 bits, and a double precision number
otherwise. Its digits are collected while they fit 64 bits; later digits of the whole part only
raise the power of ten, and later digits of the fraction are ignored. The number is then scaled by
a power of ten in one rounded operation. -/

namespace EventStore.Json

open Text

inductive Number where
  | integer (z : Int)
  | float (x : Binary64)
deriving DecidableEq, Repr

/-- A numeral by its parts; the whole part has at least one digit. -/
structure Numeral where
  negative : Bool
  whole : List Char
  fraction : Option (List Char)
  /-- Sign and digits of the exponent. -/
  exponent : Option (Bool × List Char)
deriving DecidableEq, Repr

/-- Largest value of a word of 64 bits. -/
def maxWord : Nat := 0xFFFFFFFFFFFFFFFF

/-- Adds digits to a significand while it fits 64 bits, and counts them. -/
def absorb (significand : Nat) : List Char → Nat × Nat
  | [] => (significand, 0)
  | c :: l =>
    let n := 10 * significand + (digitValue? c).getD 0
    if n ≤ maxWord then
      let (m, count) := absorb n l
      (m, count + 1)
    else (significand, 0)

/-- Scales a number by a power of ten; `none` when the result has no finite value. Powers below
`10 ^ -308` are reached in steps. -/
def scaleByTen (x : Binary64) (e : Int) : Option Binary64 :=
  if 0 ≤ e then
    if e ≤ 308 then
      let y := x.mulMagnitude (.ofInt (Nat.pow 10 e.toNat))
      if y.isFinite then some y else none
    else if x.magnitudeBits = 0 then some x
    else none
  else if -308 ≤ e then some (x.divMagnitude (.ofInt (Nat.pow 10 e.natAbs)))
  else if x.magnitudeBits = 0 then some x
  else scaleByTen (x.divMagnitude (.ofInt (Nat.pow 10 308))) (e + 308)
termination_by e.natAbs

/-- Largest exponent that is taken as a number. -/
def maxExponent : Nat := 0x7FFFFFFF

def Numeral.float? (n : Numeral) : Option Binary64 :=
  let (m, used) := absorb 0 n.whole
  let (m, fractionUsed) := absorb m (n.fraction.getD [])
  let shift : Int := (n.whole.length - used : Nat) - (fractionUsed : Int)
  let magnitude :=
    match n.exponent with
    | none => scaleByTen (.ofInt m) shift
    | some (negative, digits) =>
      let e := ofDigits 10 digits
      if maxExponent < e then
        if m ≠ 0 ∧ ¬ negative then none else some (.ofInt 0)
      else scaleByTen (.ofInt m) (shift + if negative then -(e : Int) else e)
  magnitude.map fun x => if n.negative then x.neg else x

/-- The number that a numeral stands for; `none` beyond the range of double precision. -/
def Numeral.number? (n : Numeral) : Option Number :=
  let m := ofDigits 10 n.whole
  if n.fraction.isSome ∨ n.exponent.isSome ∨ maxWord < m then n.float?.map .float
  else if ¬ n.negative then some (.integer m)
  else if 0 < m ∧ m ≤ 0x8000000000000000 then some (.integer (-(m : Int)))
  else some (.float (Binary64.ofInt m).neg)

/-- An integer with a sign in any case. -/
def signed (z : Int) : List Char := if z < 0 then integer z else '+' :: integer z

/-- The digits of a positive decimal: positional up to sixteen digits before the point and down to
five zeros after it, otherwise with an exponent. -/
def decimalChars (d : Decimal.Scaled) : List Char :=
  let ds := decimal d.digits
  let point : Int := ds.length + d.exponent
  if 0 ≤ d.exponent ∧ point ≤ 16 then ds ++ List.replicate d.exponent.toNat '0' ++ ['.', '0']
  else if 0 < point ∧ point ≤ 16 then ds.take point.toNat ++ '.' :: ds.drop point.toNat
  else if -5 < point ∧ point ≤ 0 then '0' :: '.' :: List.replicate (-point).toNat '0' ++ ds
  else
    let fraction := if ds.length = 1 then [] else '.' :: ds.drop 1
    ds.take 1 ++ fraction ++ 'e' :: signed (point - 1)

/-- A float with the fewest digits that identify it; what is not finite has no numeral. -/
def floatChars (x : Binary64) : List Char :=
  if ¬ x.isFinite then "null".toList
  else
    let sign := if x.isNegative then ['-'] else []
    sign ++ if x.magnitudeBits = 0 then "0.0".toList else decimalChars (Decimal.shortest x.dyadic)

def Number.chars : Number → List Char
  | .integer z => Text.integer z
  | .float x => floatChars x

end EventStore.Json
