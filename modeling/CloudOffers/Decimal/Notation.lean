import CloudOffers.Decimal.Shortest
/-!
How numbers are written: a `NumberStyle` says where positional notation ends and what stands around
the digits.
-/

namespace CloudOffers

/-- The decisions of a number format. -/
structure NumberStyle where
  tie : Tie
  /-- Whether a number with this exponent of its leading digit is written positionally. -/
  positional : Int → Bool
  /-- Whether an integral number ends in `.0`. -/
  pointZero : Bool
  nan : String
  infinity : String

namespace NumberStyle

/-- The style of JSON output: positional from `1e-5` up to `1e16`, always with a fraction or an
exponent, which has a sign. JSON has no text for the values that are not finite. -/
def json : NumberStyle where
  tie := .toEven
  positional := fun e ↦ -5 ≤ e && e < 16
  pointZero := true
  nan := "null"
  infinity := "null"

/-- The style of texts for people and for metrics: never an exponent. -/
def plain : NumberStyle where
  tie := .up
  positional := fun _ ↦ true
  pointZero := false
  nan := "NaN"
  infinity := "inf"

def digits (n : Nat) : List Char := Nat.toDigits 10 n

/-- Writes `ds * 10 ^ exponent` with a point. -/
def positionalText (style : NumberStyle) (ds : List Char) (exponent : Int) : List Char :=
  let point := ds.length + exponent
  if 0 ≤ exponent then
    ds ++ List.replicate exponent.toNat '0' ++ if style.pointZero then ['.', '0'] else []
  else if 0 < point then ds.take point.toNat ++ '.' :: ds.drop point.toNat
  else '0' :: '.' :: List.replicate (-point).toNat '0' ++ ds

/-- Writes `ds` with its first digit before the point, and the exponent of that digit. -/
def scientificText (ds : List Char) (exponent : Int) : List Char :=
  let mantissa := match ds with
    | [] => ['0']
    | [d] => [d]
    | d :: rest => d :: '.' :: rest
  mantissa ++ 'e' :: (if exponent < 0 then '-' else '+') :: digits exponent.natAbs

def decimalText (style : NumberStyle) (d : Decimal) : List Char :=
  let ds := digits d.digits
  let leading := ds.length + d.exponent - 1
  if style.positional leading then style.positionalText ds d.exponent
  else scientificText ds leading

def chars (style : NumberStyle) (x : Binary64) : List Char :=
  if x.isNaN then style.nan.toList
  else
    let body :=
      if x.isInfinite then style.infinity.toList
      else if x.isZero then style.positionalText ['0'] 0
      else style.decimalText (x.shortest style.tie)
    if x.negative then '-' :: body else body

def text (style : NumberStyle) (x : Binary64) : String := String.ofList (style.chars x)

end NumberStyle

end CloudOffers
