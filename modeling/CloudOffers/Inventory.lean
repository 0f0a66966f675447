import CloudOffers.Store.Basic
import CloudOffers.Text.Ascending
import CloudOffers.Log
/-!
Questions about what the configured providers offer, answered from what can be looked up in the
store. A question whose answer is not there is refused with the key that is missing.
-/

namespace CloudOffers

inductive Refusal where
  | invalidInput (reason : String)
  | unsupportedProvider (name : String)
  | notCached (key : Key)
  | metrics (reason : String)
deriving DecidableEq

namespace Refusal

def message : Refusal → String
  | .invalidInput reason => "INVALID_INPUT: " ++ reason
  | .unsupportedProvider name => "UNSUPPORTED_PROVIDER: " ++ name
  | .notCached key => "NOT_CACHED: " ++ key.category.name ++ " not yet cached (" ++ key.text ++ ")"
  | .metrics reason => "METRICS_ERROR: " ++ reason

def code : Refusal → Int
  | .invalidInput _ => -32602
  | .unsupportedProvider _ => -32003
  | .notCached _ => -32001
  | .metrics _ => -32002

def key? : Refusal → Option Key
  | .notCached key => some key
  | _ => none

end Refusal

/-- The providers that questions may name, ascending. -/
structure Inventory where
  names : List String
deriving DecidableEq

namespace Inventory

def ofNames (names : List String) : Except Refusal Inventory :=
  if names.isEmpty then .error (.invalidInput "no providers configured") else .ok ⟨ascending names⟩

variable (inv : Inventory) (held : Lookup)

/-- What is held under a key, for a provider that may be asked about. -/
def ask (k : Key) : Except Refusal k.Payload :=
  if k.provider ∈ inv.names then
    match held k with
    | some v => .ok v
    | none => .error (.notCached k)
  else .error (.unsupportedProvider k.provider)

def services (provider : String) : Except Refusal (List Service) := inv.ask held (.services provider)

def provider (name : String) : Except Refusal Provider := do
  .ok ⟨name, ← inv.services held name⟩

/-- All providers; one whose services are not there is listed without any. -/
def providers : List Provider :=
  inv.names.map (fun name ↦
    match inv.provider held name with
    | .ok p => p
    | .error _ => ⟨name, []⟩)

def providersLog : List Log.Event :=
  inv.names.filterMap (fun name ↦
    match inv.provider held name with
    | .ok _ => none
    | .error e => some (Log.warn "could not retrieve provider" [("provider", name), ("error", e.message)]))

def attributes : List String := Attribute.all

def attributeValues (provider service name : String) : Except Refusal (List Binary64) :=
  if provider ∈ inv.names ∧ name ∉ Attribute.all then
    .error (.invalidInput ("unsupported attribute: " ++ name))
  else (inv.ask held (.attributes provider service name)).map AttributeValues.floats

def zones (provider region : String) : Except Refusal (List String) :=
  inv.ask held (.zones provider region)

def regions (provider service : String) : Except Refusal (Dict String String) :=
  inv.ask held (.regions provider service)

/-- A product with the price that is held for it. -/
def details (provider region : String) (p : Product) : ProductDetails :=
  match held (.price provider region p.instanceType) with
  | some price => (ProductDetails.ofProduct p).withPrice price
  | none => ProductDetails.ofProduct p

def products (provider service region : String) : Except Refusal (List ProductDetails) :=
  (inv.ask held (.products provider service region)).map
    (fun (l : List Product) ↦ l.map (details held provider region))

def productsLog (provider service region : String) : List Log.Event :=
  match inv.ask held (.products provider service region) with
  | .ok (l : List Product) =>
    l.filterMap (fun p ↦
      match held (.price provider region p.instanceType) with
      | some _ => none
      | none => some (Log.debug "price info not yet cached" [("instance_type", p.instanceType)]))
  | .error _ => []

def status (provider : String) : Except Refusal String := inv.ask held (.status provider)

def images (provider service region : String) : Except Refusal (List Image) :=
  inv.ask held (.images provider service region)

def versions (provider service region : String) : Except Refusal (List String) :=
  inv.ask held (.versions provider service region)

end Inventory

end CloudOffers
