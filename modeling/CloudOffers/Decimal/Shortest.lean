import CloudOffers.Decimal.Binary64
/-!
The shortest decimal of a finite number: the fewest digits that round back to it, and of those the
nearest.
-/

namespace CloudOffers

inductive Tie where
  | toEven
  | up
deriving DecidableEq

structure Decimal where
  digits : Nat
  exponent : Int
deriving DecidableEq, Inhabited

namespace Binary64

/-- The reals that round to a number, in units of `2 ^ -1076`: its value, both ends, and whether
the ends belong to it. -/
structure Neighbourhood where
  value : Nat
  low : Nat
  high : Nat
  closed : Bool

def neighbourhood (x : Binary64) : Neighbourhood where
  value := 4 * x.significand * Nat.pow 2 x.scale
  low :=
    (4 * x.significand - if x.significand = leadingPlace ∧ 0 < x.scale then 1 else 2) *
      Nat.pow 2 x.scale
  high := (4 * x.significand + 2) * Nat.pow 2 x.scale
  closed := x.significand % 2 = 0

/-- Whether `d * step` lies among the reals of a neighbourhood that is measured in units `unit`. -/
def Neighbourhood.holds (n : Neighbourhood) (unit step d : Nat) : Bool :=
  if n.closed then n.low * unit ≤ d * step && d * step ≤ n.high * unit
  else n.low * unit < d * step && d * step < n.high * unit

/-- The multiple of `10 ^ exponent` that rounds back, the nearer one if both neighbours do. -/
def Neighbourhood.onGrid (n : Neighbourhood) (tie : Tie) (exponent : Int) : Option Nat :=
  let unit := Nat.pow 10 (-exponent).toNat
  let step := Nat.pow 10 exponent.toNat * Nat.pow 2 1076
  let below := n.value * unit / step
  match n.holds unit step below, n.holds unit step (below + 1) with
  | false, false => none
  | true, false => some below
  | false, true => some (below + 1)
  | true, true =>
    let twice := 2 * (n.value * unit)
    let middle := (2 * below + 1) * step
    if twice < middle then some below
    else if middle < twice then some (below + 1)
    else match tie with
      | .up => some (below + 1)
      | .toEven => some (below + below % 2)

/-- Tries ever finer grids. -/
def Neighbourhood.search (n : Neighbourhood) (tie : Tie) : Nat → Int → Decimal
  | 0, exponent => ⟨0, exponent⟩
  | fuel + 1, exponent =>
    match n.onGrid tie exponent with
    | some d => ⟨d, exponent⟩
    | none => n.search tie fuel (exponent - 1)

/-- An exponent whose power of ten exceeds the value. -/
def Neighbourhood.top (n : Neighbourhood) : Int :=
  ((n.value.log2 : Int) - 1075) * 30103 / 100000 + 1

def shortest (tie : Tie) (x : Binary64) : Decimal :=
  let n := x.neighbourhood
  n.search tie 1100 n.top

end Binary64

end CloudOffers
