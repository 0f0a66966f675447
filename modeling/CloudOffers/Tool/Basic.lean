/-!
The tools that the server offers, with what is said of them and of their parameters.
-/

namespace CloudOffers

inductive Tool where
  | listProviders
  | getProvider
  | listAttributes
  | getAttributeValues
  | getRegions
  | getZones
  | getProducts
  | getImages
  | getVersions
  | getStatus
  | getMetrics
deriving DecidableEq

namespace Tool

/-- A parameter. All parameters are required texts. -/
structure Param where
  name : String
  description? : Option String
deriving DecidableEq

def all : List Tool :=
  [.listProviders, .getProvider, .listAttributes, .getAttributeValues, .getRegions, .getZones,
    .getProducts, .getImages, .getVersions, .getStatus, .getMetrics]

def name : Tool → String
  | .listProviders => "list_providers"
  | .getProvider => "get_provider"
  | .listAttributes => "list_attributes"
  | .getAttributeValues => "get_attribute_values"
  | .getRegions => "get_regions"
  | .getZones => "get_zones"
  | .getProducts => "get_products"
  | .getImages => "get_images"
  | .getVersions => "get_versions"
  | .getStatus => "get_status"
  | .getMetrics => "get_metrics"

def ofName? (name : String) : Option Tool := all.find? (fun t ↦ t.name = name)

def description : Tool → String
  | .listProviders => "List the configured cloud providers with their services."
  | .getProvider => "Get one cloud provider with its services."
  | .listAttributes => "List the attribute names accepted by get_attribute_values."
  | .getAttributeValues =>
    "Get the distinct values of an attribute (cpu or memory) offered by a provider's service."
  | .getRegions => "List the regions of a provider's service as id and display name."
  | .getZones => "List the availability zones of a region."
  | .getProducts => "List the products of a region with their latest on-demand and spot prices."
  | .getImages => "List the machine images of a provider's service in a region."
  | .getVersions => "List the versions of a provider's service in a region."
  | .getStatus => "Get the completion time (unix millis) of a provider's last full refresh."
  | .getMetrics => "Get scrape metrics in the Prometheus text format."

def regionParam : Param := ⟨"region", some "Region id, e.g. \"eu-west-1\"."⟩

/-- What the record of a tool's parameters is called, and the parameters in their order. -/
def params : Tool → String × List Param
  | .listProviders | .listAttributes | .getMetrics => ("NoParams", [])
  | .getProvider | .getStatus =>
    ("ProviderParams", [⟨"provider", some "Provider identifier, e.g. \"amazon\"."⟩])
  | .getAttributeValues =>
    ("AttributeValuesParams",
      [⟨"provider", none⟩, ⟨"service", none⟩, ⟨"attribute", some "One of \"cpu\" or \"memory\"."⟩])
  | .getRegions => ("RegionsParams", [⟨"provider", none⟩, ⟨"service", none⟩])
  | .getZones => ("ZonesParams", [⟨"provider", none⟩, regionParam])
  | .getProducts | .getImages | .getVersions =>
    ("ProductsParams", [⟨"provider", none⟩, ⟨"service", none⟩, regionParam])

end Tool

structure ServerInfo where
  name : String
  version : String
  instructions : String
deriving DecidableEq

namespace ServerInfo

def this : ServerInfo where
  name := "cloudinfo"
  version := "0.1.0"
  instructions := "Cached cloud product and price information. Data appears after the first refresh of " ++
    "each provider; until then queries fail with NOT_CACHED."

end ServerInfo

end CloudOffers
