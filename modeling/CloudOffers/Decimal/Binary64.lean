/-!
Binary64 numbers by their bits: their order, their equality as numbers, and the nearest one to a
quotient. A finite value is `significand * 2 ^ scale` units of `2 ^ -1074`.
-/

namespace CloudOffers

structure Binary64 where
  bits : UInt64
deriving DecidableEq, Inhabited

namespace Binary64

def signPlace : Nat := Nat.pow 2 63

/-- The place above the fraction: a normal number leaves out this bit of its significand. -/
def leadingPlace : Nat := Nat.pow 2 52

/-- The magnitude of infinity; finite numbers lie below it and NaNs above. -/
def infinityMagnitude : Nat := 2047 * leadingPlace

def negative (x : Binary64) : Bool := decide (signPlace ≤ x.bits.toNat)

def magnitude (x : Binary64) : Nat := x.bits.toNat % signPlace

def ofMagnitude (negative : Bool) (magnitude : Nat) : Binary64 :=
  ⟨UInt64.ofNat (magnitude + if negative then signPlace else 0)⟩

def zero : Binary64 := ⟨0⟩

def infinity (negative : Bool) : Binary64 := ofMagnitude negative infinityMagnitude

def nan : Binary64 := ofMagnitude false (infinityMagnitude + leadingPlace / 2)

def isNaN (x : Binary64) : Bool := decide (infinityMagnitude < x.magnitude)

def isFinite (x : Binary64) : Bool := decide (x.magnitude < infinityMagnitude)

def isInfinite (x : Binary64) : Bool := decide (x.magnitude = infinityMagnitude)

def isZero (x : Binary64) : Bool := decide (x.magnitude = 0)

def isPositive (x : Binary64) : Bool := !x.negative && !x.isNaN && !x.isZero

/-- Equality as numbers: both zeros are equal, and a NaN equals nothing. -/
def equals (x y : Binary64) : Bool :=
  !x.isNaN && !y.isNaN && (decide (x = y) || (x.isZero && y.isZero))

/-- Position in the total order: -NaN, -inf, ..., -0, 0, ..., inf, NaN. -/
def rank (x : Binary64) : Int :=
  if x.negative then -(x.magnitude : Int) - 1 else x.magnitude

def le (x y : Binary64) : Bool := decide (x.rank ≤ y.rank)

def significand (x : Binary64) : Nat :=
  if x.magnitude < leadingPlace then x.magnitude else x.magnitude % leadingPlace + leadingPlace

def scale (x : Binary64) : Nat := x.magnitude / leadingPlace - 1

def roundDiv (num den : Nat) : Nat :=
  let q := num / den
  let r := num % den
  if 2 * r < den then q
  else if den < 2 * r then q + 1
  else q + q % 2

/-- The magnitude nearest to `num / den` units of `2 ^ -1074`. -/
def nearestMagnitude (num den : Nat) : Nat :=
  let scale := (num / den).log2 - 52
  min infinityMagnitude (scale * leadingPlace + roundDiv num (den * Nat.pow 2 scale))

def ofRatio (negative : Bool) (num den : Nat) : Binary64 :=
  ofMagnitude negative (nearestMagnitude (num * Nat.pow 2 1074) den)

def ofNat (n : Nat) : Binary64 := ofRatio false n 1

/-- The number nearest to `digits * 10 ^ exponent`. Exponents beyond any finite number are settled
before a power is taken. -/
def ofDecimal (negative : Bool) (digits : Nat) (exponent : Int) : Binary64 :=
  if digits = 0 then ofMagnitude negative 0
  else if 400 < exponent then infinity negative
  else if exponent < -(400 + digits.log2) then ofMagnitude negative 0
  else if 0 ≤ exponent then ofRatio negative (digits * Nat.pow 10 exponent.toNat) 1
  else ofRatio negative digits (Nat.pow 10 (-exponent).toNat)

end Binary64

end CloudOffers
