import CloudOffers.Source.Error
/-!
Why a refresh cannot start, and what stopped a part of one.
-/

namespace CloudOffers

def fractionDigits (places n : Nat) : List Char :=
  let ds := Nat.toDigits 10 n
  ((List.replicate (places - ds.length) '0' ++ ds).reverse.dropWhile (· = '0')).reverse

/-- A length of time in the largest unit of which it holds one, from nanoseconds. -/
def durationText (nanos : Nat) : String :=
  if 1000000000 ≤ nanos then inUnit 9 "s"
  else if 1000000 ≤ nanos then inUnit 6 "ms"
  else if 1000 ≤ nanos then inUnit 3 "µs"
  else toString nanos ++ "ns"
where
  inUnit (places : Nat) (unit : String) : String :=
    let fraction := fractionDigits places (nanos % Nat.pow 10 places)
    toString (nanos / Nat.pow 10 places) ++
      (if fraction.isEmpty then "" else String.ofList ('.' :: fraction)) ++ unit

inductive RegionStage where
  | products
  | images
  | versions
deriving DecidableEq

def RegionStage.name : RegionStage → String
  | .products => "products"
  | .images => "images"
  | .versions => "versions"

inductive RefreshError where
  | noProviders
  | invalidInterval (nanos : Nat)
  | attributesFailed (provider service name : String) (cause : SourceError)
  | regionsFailed (provider service : String) (cause : SourceError)
  | regionFailed (provider service region : String) (stage : RegionStage) (cause : SourceError)
deriving DecidableEq

namespace RefreshError

def message : RefreshError → String
  | .noProviders => "no providers configured"
  | .invalidInterval nanos => "invalid interval: " ++ durationText nanos
  | .attributesFailed provider service name cause =>
    "failed to retrieve attribute values (provider: " ++ provider ++ ", service: " ++ service ++
      ", attribute: " ++ name ++ "): " ++ cause.message
  | .regionsFailed provider service cause =>
    "failed to retrieve regions (provider: " ++ provider ++ ", service: " ++ service ++ "): " ++
      cause.message
  | .regionFailed provider service region stage cause =>
    "failed to retrieve " ++ stage.name ++ " (provider: " ++ provider ++ ", service: " ++ service ++
      ", region: " ++ region ++ "): " ++ cause.message

end RefreshError

end CloudOffers
