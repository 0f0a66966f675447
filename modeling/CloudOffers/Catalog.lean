import CloudOffers.Offer.Document
import CloudOffers.Source.Error
/-!
Catalogs: what one provider offers, as a file lists it. Products, images and versions are listed by
region and are the same for every service.
-/

namespace CloudOffers

/-- Prices by region and instance type. -/
abbrev PriceSnapshot := Dict String (Dict String Price)

structure Catalog where
  services : List String
  /-- Region ids by display name. -/
  regions : Dict String String
  products : Dict String (List Product)
  images : Dict String (List Image)
  versions : Dict String (List String)
  shortLivedPrices : Bool
deriving DecidableEq, Inhabited

open Json Json.Document

instance : Document Catalog where
  shape := .record "Catalog"
    [field "services" (List String), field "regions" (Dict String String),
      fieldWith "products" (Dict.empty : Dict String (List Product)),
      fieldWith "images" (Dict.empty : Dict String (List Image)),
      fieldWith "versions" (Dict.empty : Dict String (List String)), fieldWith "shortLivedPrices" false]
  toJson c := .obj [("services", toJson c.services), ("regions", toJson c.regions),
    ("products", toJson c.products), ("images", toJson c.images), ("versions", toJson c.versions),
    ("shortLivedPrices", toJson c.shortLivedPrices)]
  ofJson?
    | .obj [("services", services), ("regions", regions), ("products", products),
        ("images", images), ("versions", versions), ("shortLivedPrices", shortLived)] => do
      some ⟨← ofJson? services, ← ofJson? regions, ← ofJson? products, ← ofJson? images,
        ← ofJson? versions, ← ofJson? shortLived⟩
    | _ => none

namespace Catalog

def ofBytes (bs : Bytes) : Except SourceError Catalog :=
  match Json.parse Catalog bs with
  | .ok c => .ok c
  | .error e => .error (.ofJson e)

variable (c : Catalog)

def checkService (name : String) : Except SourceError Unit :=
  if name ∈ c.services then .ok () else .error (.unknownService name)

def checkRegion (id : String) : Except SourceError Unit :=
  if id ∈ c.regions.values then .ok () else .error (.unknownRegion id)

def check (service region : String) : Except SourceError Unit := do
  c.checkService service
  c.checkRegion region

def productsIn (region : String) : List Product := (c.products.get? region).getD []

def imagesIn (region : String) : List Image := (c.images.get? region).getD []

def versionsIn (region : String) : List String := (c.versions.get? region).getD []

/-- The prices of a region; of products of one type the last counts. -/
def pricesIn (region : String) : Dict String Price :=
  Dict.ofList ((c.productsIn region).map (fun p ↦ (p.instanceType, p.price)))

def snapshot : PriceSnapshot := Dict.ofList (c.regions.values.map (fun id ↦ (id, c.pricesIn id)))

def attributeValues (name : String) : Except SourceError AttributeValues :=
  let all := c.products.values.flatten
  if name = Attribute.cpu then .ok (.ofFloats (all.map (·.cpus)))
  else if name = Attribute.memory then .ok (.ofFloats (all.map (·.memory)))
  else .error (.invalidCatalog ("unsupported attribute: " ++ name))

end Catalog

end CloudOffers
