import CloudOffers.Offer.Attribute
/-!
Keys of cached entries. A key says what kind of data it addresses and for which provider, service,
region, attribute or instance type, as far as the kind is scoped by them.
-/

namespace CloudOffers

inductive Tier where
  | long
  | short
deriving DecidableEq

inductive Category where
  | services
  | regions
  | zones
  | attributes
  | products
  | prices
  | images
  | versions
  | status
deriving DecidableEq

namespace Category

def all : List Category :=
  [.services, .regions, .zones, .attributes, .products, .prices, .images, .versions, .status]

def name : Category → String
  | .services => "services"
  | .regions => "regions"
  | .zones => "zones"
  | .attributes => "attributes"
  | .products => "vms"
  | .prices => "prices"
  | .images => "images"
  | .versions => "versions"
  | .status => "status"

/-- Prices are short-lived, everything else is long-lived. -/
def tier : Category → Tier
  | .prices => .short
  | _ => .long

def Payload : Category → Type
  | .services => List Service
  | .regions => Dict String String
  | .zones => List String
  | .attributes => AttributeValues
  | .products => List Product
  | .prices => Price
  | .images => List Image
  | .versions => List String
  | .status => String

end Category

inductive Key where
  | services (provider : String)
  | regions (provider service : String)
  | zones (provider region : String)
  | attributes (provider service name : String)
  | products (provider service region : String)
  | price (provider region instanceType : String)
  | images (provider service region : String)
  | versions (provider service region : String)
  | status (provider : String)
deriving DecidableEq

namespace Key

def category : Key → Category
  | .services .. => .services
  | .regions .. => .regions
  | .zones .. => .zones
  | .attributes .. => .attributes
  | .products .. => .products
  | .price .. => .prices
  | .images .. => .images
  | .versions .. => .versions
  | .status .. => .status

def tier (k : Key) : Tier := k.category.tier

def provider : Key → String
  | .services p | .regions p _ | .zones p _ | .attributes p _ _ | .products p _ _ | .price p _ _
  | .images p _ _ | .versions p _ _ | .status p => p

def service? : Key → Option String
  | .regions _ s | .attributes _ s _ | .products _ s _ | .images _ s _ | .versions _ s _ => some s
  | _ => none

def region? : Key → Option String
  | .zones _ r | .products _ _ r | .price _ r _ | .images _ _ r | .versions _ _ r => some r
  | _ => none

def attribute? : Key → Option String
  | .attributes _ _ a => some a
  | _ => none

def instanceType? : Key → Option String
  | .price _ _ t => some t
  | _ => none

def Payload (k : Key) : Type := k.category.Payload

/-- What a key says besides its category. Keys of one category say as much as each other. -/
def arguments : Key → List String
  | .services p | .status p => [p]
  | .regions p a | .zones p a => [p, a]
  | .attributes p a b | .products p a b | .price p a b | .images p a b | .versions p a b => [p, a, b]

theorem eq_of_arguments {k k' : Key} (hc : k.category = k'.category)
    (ha : k.arguments = k'.arguments) : k = k' := by
  cases k <;> cases k' <;> simp_all [category, arguments]

def part (name : String) : Option String → String
  | some value => ", " ++ name ++ "=" ++ value
  | none => ""

/-- The parts of a key that there are, such as `provider=amazon, service=compute`. -/
def text (k : Key) : String :=
  "provider=" ++ k.provider ++ part "service" k.service? ++ part "region" k.region? ++
    part "attribute" k.attribute? ++ part "instanceType" k.instanceType?

end Key

end CloudOffers
