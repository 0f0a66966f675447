import CloudOffers.Json.Document
import CloudOffers.Offer.Attribute
/-!
The JSON forms of what providers offer.
-/

namespace CloudOffers

open Json Json.Document

instance : Document Price where
  shape := .record "Price" [field "onDemandPrice" Binary64, fieldWith "spotPrice" (Dict.empty : SpotPrices)]
  toJson p := .obj [("onDemandPrice", toJson p.onDemand), ("spotPrice", toJson p.spot)]
  ofJson?
    | .obj [("onDemandPrice", onDemand), ("spotPrice", spot)] => do
      some ⟨← ofJson? onDemand, ← ofJson? spot⟩
    | _ => none

namespace Product

/-- The members of a product. An empty map of spot prices is left out. -/
def members (p : Product) : List (String × Json) :=
  [("type", toJson p.instanceType), ("onDemandPrice", toJson p.onDemandPrice)] ++
  (if p.spotPrices.isEmpty then [] else [("spotPrice", toJson p.spotPrices)]) ++
  [("cpusPerVm", toJson p.cpus), ("memPerVm", toJson p.memory), ("gpusPerVm", toJson p.gpus),
    ("ntwPerf", toJson p.network), ("ntwPerfCategory", toJson p.networkCategory),
    ("zones", toJson p.zones), ("attributes", toJson p.attributes),
    ("currentGen", toJson p.currentGeneration)]

def fields : List Field :=
  [field "type" String, fieldWith "onDemandPrice" Binary64.zero,
    fieldWith "spotPrice" (Dict.empty : SpotPrices), field "cpusPerVm" Binary64,
    field "memPerVm" Binary64, fieldWith "gpusPerVm" Binary64.zero, fieldWith "ntwPerf" "",
    fieldWith "ntwPerfCategory" "", fieldWith "zones" ([] : List String),
    fieldWith "attributes" (Dict.empty : Dict String String), fieldWith "currentGen" false]

def ofMembers? : List (String × Json) → Option Product
  | [("type", instanceType), ("onDemandPrice", onDemand), ("spotPrice", spot), ("cpusPerVm", cpus),
      ("memPerVm", memory), ("gpusPerVm", gpus), ("ntwPerf", network), ("ntwPerfCategory", category),
      ("zones", zones), ("attributes", attributes), ("currentGen", current)] => do
    some ⟨← ofJson? instanceType, ← ofJson? onDemand, ← ofJson? spot, ← ofJson? cpus,
      ← ofJson? memory, ← ofJson? gpus, ← ofJson? network, ← ofJson? category, ← ofJson? zones,
      ← ofJson? attributes, ← ofJson? current⟩
  | _ => none

end Product

instance : Document Product where
  shape := .record "VmInfo" Product.fields
  toJson p := .obj p.members
  ofJson?
    | .obj members => Product.ofMembers? members
    | _ => none

instance : Document Service where
  shape := .record "Service" [field "service" String]
  toJson s := .obj [("service", toJson s.name)]
  ofJson?
    | .obj [("service", name)] => do some ⟨← ofJson? name⟩
    | _ => none

instance : Document Provider where
  shape := .record "Provider" [field "provider" String, field "services" (List Service)]
  toJson p := .obj [("provider", toJson p.name), ("services", toJson p.services)]
  ofJson?
    | .obj [("provider", name), ("services", services)] => do
      some ⟨← ofJson? name, ← ofJson? services⟩
    | _ => none

instance : Document AttributeValue where
  shape := .record "AttrValue" [field "value" Binary64, field "strValue" String]
  toJson v := .obj [("value", toJson v.value), ("strValue", toJson v.display)]
  ofJson?
    | .obj [("value", value), ("strValue", display)] => do
      some ⟨← ofJson? value, ← ofJson? display⟩
    | _ => none

/-- Reading keeps the order given. -/
instance : Document AttributeValues where
  shape := shape (List AttributeValue)
  toJson s := toJson s.items
  ofJson? v := (ofJson? v).map AttributeValues.mk

instance : Document Image where
  shape := .record "Image" [field "name" String, fieldWith "version" "", fieldWith "gpuAvailable" false]
  toJson i := .obj [("name", toJson i.name), ("version", toJson i.version),
    ("gpuAvailable", toJson i.gpuAvailable)]
  ofJson?
    | .obj [("name", name), ("version", version), ("gpuAvailable", gpu)] => do
      some ⟨← ofJson? name, ← ofJson? version, ← ofJson? gpu⟩
    | _ => none

instance : Document ZonePrice where
  shape := .record "ZonePrice" [field "zone" String, field "price" Binary64]
  toJson z := .obj [("zone", toJson z.zone), ("price", toJson z.price)]
  ofJson?
    | .obj [("zone", zone), ("price", price)] => do some ⟨← ofJson? zone, ← ofJson? price⟩
    | _ => none

/-- The members of the product stand among those of the details; `spotPrice` is the list. -/
instance : Document ProductDetails where
  shape := .extended "ProductDetails" [field "burst" Bool, field "spotPrice" (List ZonePrice)] Product.fields
  toJson d := .obj (d.product.members ++ [("burst", toJson d.burst), ("spotPrice", toJson d.spotPrices)])
  ofJson?
    | .obj members => do
      let product ← Product.ofMembers? (members.take Product.fields.length)
      match members.drop Product.fields.length with
      | [("burst", burst), ("spotPrice", spot)] =>
        some ⟨product, ← ofJson? burst, ← ofJson? spot⟩
      | _ => none
    | _ => none

end CloudOffers
