import EventStore.Binary64

/-! The fewest decimal digits that identify a double precision number.

Decimals are tried on grids `10 ^ e`, the coarsest first. On each grid the two neighbours of the
number are tested, and the first grid with a neighbour that rounds to the number wins: of two hits
the nearer one, and of two equally near the even one. -/

namespace EventStore.Decimal

/-- The number `digits * 10 ^ exponent`. -/
structure Scaled where
  digits : Nat
  exponent : Int
deriving DecidableEq, Repr

/-- Compares `a * 10 ^ i` with `b * 2 ^ j`. -/
def compareScaled (a : Nat) (i : Int) (b : Nat) (j : Int) : Ordering :=
  compare (a * Nat.pow 10 i.toNat * Nat.pow 2 (-j).toNat)
    (b * Nat.pow 2 j.toNat * Nat.pow 10 (-i).toNat)

/-- Whether a decimal rounds to a number. The numbers that do lie between the midpoints to its two
neighbours, and the midpoints belong to it exactly when its significand is even. The neighbour
below a power of two is half as far away as the one above. -/
def readsBack (x : Binary64.Dyadic) (d : Scaled) : Bool :=
  let narrow := x.significand = Binary64.hiddenBit ∧ x.exponent ≠ -1074
  let low := if narrow then 4 * x.significand - 1 else 4 * x.significand - 2
  let high := 4 * x.significand + 2
  let closed := x.significand % 2 = 0
  let below := compareScaled d.digits d.exponent low (x.exponent - 2)
  let above := compareScaled d.digits d.exponent high (x.exponent - 2)
  (below = .gt || (closed && below = .eq)) && (above = .lt || (closed && above = .eq))

/-- The least `k` such that the number lies below `10 ^ k`. -/
def scale (x : Binary64.Dyadic) : Int :=
  match (List.range 310).find? fun (k : Nat) =>
      compareScaled 1 k x.significand x.exponent = .gt with
  | none => 310
  | some (k + 1) => k + 1
  | some 0 =>
    let least := (List.range 400).find? fun (j : Nat) =>
      compareScaled 1 (-((j + 1 : Nat) : Int)) x.significand x.exponent ≠ .gt
    Int.negOfNat (least.getD 400)

/-- The best decimal on the grid `10 ^ e`, if one of the two candidates reads back. -/
def onGrid? (x : Binary64.Dyadic) (e : Int) : Option Scaled :=
  let r := x.ratio
  let num := r.num * Nat.pow 10 (-e).toNat
  let den := r.den * Nat.pow 10 e.toNat
  let q := num / den
  let down : Scaled := ⟨q, e⟩
  let up : Scaled := ⟨q + 1, e⟩
  match readsBack x down, readsBack x up with
  | false, false => none
  | true, false => some down
  | false, true => some up
  | true, true => some ⟨Binary64.Ratio.nearest ⟨num, den⟩, e⟩

/-- Moves trailing zeros of the digits into the exponent. -/
def strip (d : Scaled) : Scaled :=
  if h : d.digits ≠ 0 ∧ d.digits % 10 = 0 then strip ⟨d.digits / 10, d.exponent + 1⟩ else d
termination_by d.digits
decreasing_by omega

/-- The shortest decimal of a positive number. Seventeen digits always identify a number; the exact
value stands where a search must end. -/
def shortest (x : Binary64.Dyadic) : Scaled :=
  let k := scale x
  let found := (List.range 17).findSome? fun n => onGrid? x (k - (n + 1 : Nat))
  strip (found.getD ⟨x.significand * Nat.pow 5 (-x.exponent).toNat * Nat.pow 2 x.exponent.toNat,
    -((-x.exponent).toNat : Int)⟩)

end EventStore.Decimal
