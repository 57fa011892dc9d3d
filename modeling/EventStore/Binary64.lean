/-! Double precision numbers as words.

A word of 64 bits holds a sign, an exponent of eleven bits and a fraction of 52 bits. A finite word
stands for `m * 2 ^ q`. Every operation here computes the exact result with natural numbers and then
rounds it once, to the nearest word, a tie going to the even one. -/

namespace EventStore

/-- A double precision number, by its bits. -/
structure Binary64 where
  bits : UInt64
deriving DecidableEq, Repr

namespace Binary64

/-- The bit of the sign. -/
def signBit : Nat := 0x8000000000000000

/-- The bit above the fraction, which a significand has and a word leaves out. -/
def hiddenBit : Nat := 0x10000000000000

/-- The bits of infinity without its sign; a word above it is no number. -/
def infinityBits : Nat := 0x7FF * hiddenBit

def magnitudeBits (x : Binary64) : Nat := x.bits.toNat % signBit

def isNegative (x : Binary64) : Bool := signBit ≤ x.bits.toNat

def isFinite (x : Binary64) : Bool := x.magnitudeBits < infinityBits

def isNaN (x : Binary64) : Bool := infinityBits < x.magnitudeBits

def ofMagnitude (negative : Bool) (n : Nat) : Binary64 :=
  ⟨.ofNat (if negative then signBit + n else n)⟩

/-- The number `significand * 2 ^ exponent`. -/
structure Dyadic where
  significand : Nat
  exponent : Int

/-- The magnitude of a finite word. -/
def dyadic (x : Binary64) : Dyadic :=
  let e : Nat := x.magnitudeBits / hiddenBit
  let f : Nat := x.magnitudeBits % hiddenBit
  if e = 0 then ⟨f, -1074⟩ else ⟨hiddenBit + f, (e : Int) - 1075⟩

/-- A fraction of natural numbers. -/
structure Ratio where
  num : Nat
  den : Nat

/-- The same number divided by `2 ^ e`. -/
def Ratio.shift (r : Ratio) (e : Int) : Ratio :=
  ⟨r.num * Nat.pow 2 (-e).toNat, r.den * Nat.pow 2 e.toNat⟩

/-- The nearest natural number, a tie going to the even one. -/
def Ratio.nearest (r : Ratio) : Nat :=
  let q := r.num / r.den
  let twice := 2 * (r.num % r.den)
  if r.den < twice ∨ (twice = r.den ∧ q % 2 = 1) then q + 1 else q

def Dyadic.ratio (d : Dyadic) : Ratio := Ratio.shift ⟨d.significand, 1⟩ (-d.exponent)

/-- The bits of the word nearest to a fraction, without a sign. The unit in the last place is the
power of two that leaves a quotient of 53 bits, and never less than the least one there is. -/
def roundMagnitude (r : Ratio) : Nat :=
  if r.num = 0 then 0
  else
    let e : Int := (Nat.log2 r.num : Int) - Nat.log2 r.den - 52
    let full := r.shift e
    let e := max (-1074) (if full.num / full.den < hiddenBit then e - 1 else e)
    min infinityBits ((e + 1074).toNat * hiddenBit + (r.shift e).nearest)

def ofRatio (negative : Bool) (r : Ratio) : Binary64 := ofMagnitude negative (roundMagnitude r)

def ofInt (z : Int) : Binary64 := ofRatio (z < 0) ⟨z.natAbs, 1⟩

/-- The product of two finite magnitudes. -/
def mulMagnitude (x y : Binary64) : Binary64 :=
  let a := x.dyadic.ratio
  let b := y.dyadic.ratio
  ofRatio false ⟨a.num * b.num, a.den * b.den⟩

/-- The quotient of two finite magnitudes, the second not zero. -/
def divMagnitude (x y : Binary64) : Binary64 :=
  let a := x.dyadic.ratio
  let b := y.dyadic.ratio
  ofRatio false ⟨a.num * b.den, a.den * b.num⟩

def neg (x : Binary64) : Binary64 := ofMagnitude (!x.isNegative) x.magnitudeBits

/-- Equality of numbers: the two zeros are equal, and what is no number equals nothing. -/
def numEq (x y : Binary64) : Bool :=
  !x.isNaN && !y.isNaN && (x == y || (x.magnitudeBits == 0 && y.magnitudeBits == 0))

end Binary64

end EventStore
