import CloudOffers.Decimal.Binary64
/-!
Arithmetic of magnitudes, rounded once for each operation, and with it numbers of few digits and a power
of ten, by one rounding for the digits and one for each power. The result need not be the number nearest
to the decimal: see `Binary64.ofDecimal` for that.
-/

namespace CloudOffers.Binary64

def units (x : Binary64) : Nat := x.significand * Nat.pow 2 x.scale

/-- The sum of two numbers, of which neither is negative. -/
def sum (x y : Binary64) : Binary64 := ofMagnitude false (nearestMagnitude (x.units + y.units) 1)

def product (x y : Binary64) : Binary64 := ofRatio false (x.units * y.units) (Nat.pow 2 2148)

def quotient (x y : Binary64) : Binary64 := ofRatio false x.units y.units

def powerOfTen (n : Nat) : Binary64 := ofNat (Nat.pow 10 n)

def greatestPower : Nat := 308

/-- The absolute value of `x * 10 ^ exponent`. Positive powers beyond the greatest are out of range;
negative ones are divided by in two steps, and two steps of the greatest power leave nothing. -/
def scaled? (x : Binary64) (exponent : Int) : Option Binary64 :=
  if x.isZero then some zero
  else if greatestPower < exponent then none
  else if 0 ≤ exponent then
    let y := x.product (powerOfTen exponent.toNat)
    if y.isFinite then some y else none
  else if -(2 * greatestPower) < exponent then
    let first := min greatestPower exponent.natAbs
    let y := x.quotient (powerOfTen first)
    some (if first < exponent.natAbs then y.quotient (powerOfTen (exponent.natAbs - first)) else y)
  else some zero

def ofScaled? (negative : Bool) (digits : Nat) (exponent : Int) : Option Binary64 :=
  (scaled? (ofNat digits) exponent).map (fun x ↦ ofMagnitude negative x.magnitude)

end CloudOffers.Binary64
