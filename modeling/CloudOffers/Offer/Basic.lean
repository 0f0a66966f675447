import CloudOffers.Dict
import CloudOffers.Decimal.Notation
/-!
What cloud providers offer: services, products with their prices, machine images.
-/

namespace CloudOffers

/-- Spot prices by availability zone. -/
abbrev SpotPrices := Dict String Binary64

structure Price where
  onDemand : Binary64
  spot : SpotPrices
deriving DecidableEq, Inhabited

structure Product where
  instanceType : String
  onDemandPrice : Binary64
  spotPrices : SpotPrices
  cpus : Binary64
  memory : Binary64
  gpus : Binary64
  network : String
  networkCategory : String
  zones : List String
  attributes : Dict String String
  currentGeneration : Bool
deriving DecidableEq, Inhabited

namespace Product

/-- Burstable products are told by the `t` of their family. -/
def isBurstable (p : Product) : Bool :=
  match p.instanceType.toList with
  | c :: _ => c = 't' || c = 'T'
  | [] => false

def price (p : Product) : Price := ⟨p.onDemandPrice, p.spotPrices⟩

end Product

/-- A named offering, such as `compute`. -/
structure Service where
  name : String
deriving DecidableEq, Inhabited

structure Provider where
  name : String
  services : List Service
deriving DecidableEq, Inhabited

structure Image where
  name : String
  version : String
  gpuAvailable : Bool
deriving DecidableEq, Inhabited

structure ZonePrice where
  zone : String
  price : Binary64
deriving DecidableEq, Inhabited

namespace ZonePrice

/-- Spot prices as a list, ascending by zone. -/
def ofSpot (spot : SpotPrices) : List ZonePrice := spot.entries.map (fun e ↦ ⟨e.1, e.2⟩)

end ZonePrice

/-- A product as it is served: its spot prices are a list, and the map inside is empty. -/
structure ProductDetails where
  product : Product
  burst : Bool
  spotPrices : List ZonePrice
deriving DecidableEq, Inhabited

namespace ProductDetails

def ofProduct (p : Product) : ProductDetails where
  product := { p with spotPrices := Dict.empty }
  burst := p.isBurstable
  spotPrices := ZonePrice.ofSpot p.spotPrices

/-- Applies a price: its spot prices, and its on-demand price if that is known. -/
def withPrice (d : ProductDetails) (price : Price) : ProductDetails where
  product :=
    if price.onDemand.isPositive then { d.product with onDemandPrice := price.onDemand }
    else d.product
  burst := d.burst
  spotPrices := ZonePrice.ofSpot price.spot

end ProductDetails

end CloudOffers
