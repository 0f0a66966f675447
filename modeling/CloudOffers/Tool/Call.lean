import CloudOffers.Tool.Basic
import CloudOffers.Inventory
import CloudOffers.Offer.Document
import CloudOffers.Metrics.Exposition
/-!
Calls of tools. A call is read as a query, the query is put to the inventory, and its answer is one
JSON object whose text the caller gets.
-/

namespace CloudOffers

inductive Query where
  | providers
  | provider (name : String)
  | attributes
  | attributeValues (provider service name : String)
  | regions (provider service : String)
  | zones (provider region : String)
  | products (provider service region : String)
  | images (provider service region : String)
  | versions (provider service region : String)
  | status (provider : String)
  | metrics
deriving DecidableEq

namespace Tool

def query (arg : String → String) : Tool → Query
  | .listProviders => .providers
  | .getProvider => .provider (arg "provider")
  | .listAttributes => .attributes
  | .getAttributeValues => .attributeValues (arg "provider") (arg "service") (arg "attribute")
  | .getRegions => .regions (arg "provider") (arg "service")
  | .getZones => .zones (arg "provider") (arg "region")
  | .getProducts => .products (arg "provider") (arg "service") (arg "region")
  | .getImages => .images (arg "provider") (arg "service") (arg "region")
  | .getVersions => .versions (arg "provider") (arg "service") (arg "region")
  | .getStatus => .status (arg "provider")
  | .getMetrics => .metrics

def shape (t : Tool) : Json.Shape :=
  .record t.params.1 (t.params.2.map (fun p ↦ Json.Field.required p.name .text))

/-- The members of an object, ascending by name; of members of one name the last counts. -/
def ascendingMembers : Json → Json
  | .obj members => Json.ofDict (Dict.ofList members)
  | v => v

def argument (args : Json) (name : String) : String :=
  match args.member? name with
  | some (.str s) => s
  | _ => ""

/-- Reads the arguments of a call, in the order of their names. No arguments are an empty object. -/
def readQuery (t : Tool) (args : Option Json) : Except Json.Error Query := do
  let args := match args with
    | none | some .null => .obj []
    | some v => v
  let settled ← t.shape.settle (ascendingMembers args)
  .ok (t.query (argument settled))

end Tool

structure Region where
  id : String
  name : String
deriving DecidableEq, Inhabited

open Json Json.Document

namespace Region

/-- The regions of a map from names to identifiers, ascending by name. -/
def ofDict (d : Dict String String) : List Region := d.entries.map (fun e ↦ ⟨e.2, e.1⟩)

instance : Document Region where
  shape := .record "Region" [field "id" String, field "name" String]
  toJson r := .obj [("id", toJson r.id), ("name", toJson r.name)]
  ofJson?
    | .obj [("id", id), ("name", name)] => do some ⟨← ofJson? id, ← ofJson? name⟩
    | _ => none

end Region

/-- Rendering never fails. -/
instance : Coe Metrics.Registry (Except Refusal String) := ⟨fun g ↦ .ok g.text⟩

namespace Query

/-- The answer, from what is held and what the metrics are rendered as. -/
def answer (inv : Inventory) (held : Lookup) (metrics : Except Refusal String) : Query → Except Refusal Json
  | .providers => .ok (.obj [("providers", toJson (inv.providers held))])
  | .provider p => do .ok (.obj [("provider", toJson (← inv.provider held p))])
  | .attributes => .ok (.obj [("attributes", toJson Attribute.all)])
  | .attributeValues p s a => do
    .ok (.obj [("attributeValues", toJson (← inv.attributeValues held p s a))])
  | .regions p s => do .ok (.obj [("regions", toJson (Region.ofDict (← inv.regions held p s)))])
  | .zones p r => do .ok (.obj [("zones", toJson (← inv.zones held p r))])
  | .products p s r => do
    let found ← inv.products held p s r
    let time := match inv.status held p with
      | .ok text => [("scrapingTime", Json.str text)]
      | .error _ => []
    .ok (.obj (("products", toJson found) :: time))
  | .images p s r => do .ok (.obj [("images", toJson (← inv.images held p s r))])
  | .versions p s r => do .ok (.obj [("versions", toJson (← inv.versions held p s r))])
  | .status p => do .ok (.obj [("status", toJson (← inv.status held p))])
  | .metrics => do .ok (.obj [("metrics", toJson (← metrics))])

def log (inv : Inventory) (held : Lookup) : Query → List Log.Event
  | .providers => inv.providersLog held
  | .products p s r => inv.productsLog held p s r
  | _ => []

end Query

inductive CallError where
  | unknownTool
  | badArguments (e : Json.Error)
  | refused (e : Refusal)

namespace CallError

def code : CallError → Int
  | .unknownTool | .badArguments _ => -32602
  | .refused e => e.code

def message : CallError → String
  | .unknownTool => "tool not found"
  | .badArguments e => "failed to deserialize parameters: " ++ e.message
  | .refused e => e.message

end CallError

namespace Tool

def readCall (name : String) (args : Option Json) : Except CallError Query :=
  match ofName? name with
  | none => .error .unknownTool
  | some t => (t.readQuery args).mapError .badArguments

def call (inv : Inventory) (held : Lookup) (metrics : Except Refusal String) (name : String)
    (args : Option Json) : Except CallError String := do
  let query ← readCall name args
  match query.answer inv held metrics with
  | .ok v => .ok v.pretty
  | .error e => .error (.refused e)

def callLog (inv : Inventory) (held : Lookup) (name : String) (args : Option Json) : List Log.Event :=
  match readCall name args with
  | .ok query => query.log inv held
  | .error _ => []

end Tool

end CloudOffers
