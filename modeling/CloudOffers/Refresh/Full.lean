import CloudOffers.Refresh.Plan
import CloudOffers.Refresh.Error
import CloudOffers.Text.Ascending
/-!
The full refresh of a provider: prices of the snapshot, services, their attributes, their regions,
and the status. A failure ends the part it occurs in; the parts after it go on with what there is.
-/

namespace CloudOffers

open Metrics (notApplicable)

/-- The ids of a map of regions, ascending and without repetition. -/
def regionIds (regions : Dict String String) : List String := ascending regions.values

namespace FullRefresh

/-- A part of a refresh that a failure ends. -/
abbrev Part := ExceptT RefreshError Plan

def need (r : Request) (failed : SourceError → RefreshError) : Part r.Answer :=
  ExceptT.mk (.ask r (fun
    | .ok answer => .done (.ok answer)
    | .error e => .done (.error (failed e))))

/-- Reports a failure of a part, which still fails. -/
def reporting {α : Type} (event : Metrics.Event) (part : Part α) : Part α :=
  tryCatch part (fun e ↦ do Plan.report event; throw e)

variable (provider : String)

/-- Publishes the prices of the snapshot. Without one, the prices stay as they are. -/
def publishSnapshot : Plan Unit := do
  match ← Plan.request .snapshot with
  | .error e => Plan.log (Log.error "failed to initialize provider" [("error", e.message)])
  | .ok (snapshot : PriceSnapshot) =>
    snapshot.entries.forM (fun (region, prices) ↦
      prices.entries.forM (fun (instanceType, price) ↦ do
        Plan.report (.price provider region instanceType price.onDemand)
        Plan.put (.price provider region instanceType) price))

def publishServices : Plan (List Service) := do
  match ← Plan.request .services with
  | .ok (services : List Service) =>
    Plan.put (.services provider) services
    return services
  | .error e =>
    Plan.report (.failure provider notApplicable notApplicable)
    Plan.log (Log.error "failed to retrieve services" [("error", e.message)])
    return []

def publishAttribute (service name : String) : Part Unit := do
  let values ← reporting (.failure provider notApplicable notApplicable)
    (need (.attributeValues service name) (.attributesFailed provider service name))
  Plan.put (.attributes provider service name) values

def publishAttributes (services : List Service) : Part Unit :=
  services.forM (fun s ↦ Attribute.all.forM (publishAttribute provider s.name))

/-- The zones that products of a region name, ascending. -/
def zonesOf (products : List Product) : List String := ascending (products.flatMap (·.zones))

/-- Publishes the products of a region, and their zones if they name any: another service may have
named some already. -/
def publishProducts (service region : String) (products : List Product) : Plan Unit := do
  (products.filter (·.onDemandPrice.isPositive)).forM (fun p ↦
    Plan.report (.price provider region p.instanceType p.onDemandPrice))
  if !(zonesOf products).isEmpty then
    Plan.put (.zones provider region) (zonesOf products)
  Plan.put (.products provider service region) products

def publishRegion (service region : String) : Part Unit := do
  Plan.log (Log.debug "scraping region" [("service", service), ("region", region)])
  let failed := RefreshError.regionFailed provider service region
  let products ← need (.products service region) (failed .products)
  publishProducts provider service region products
  if ← Plan.imagesOffered then
    let images ← need (.images service region) (failed .images)
    Plan.put (.images provider service region) images
  let versions ← need (.versions service region) (failed .versions)
  Plan.put (.versions provider service region) versions

/-- Publishes a region and reports how long it took, or that it failed. -/
def visitRegion (service region : String) : Part Unit := do
  let started ← Plan.now
  reporting (.failure provider service region) (publishRegion provider service region)
  let ended ← Plan.now
  Plan.report (.regionCompleted provider service region (ended - started))

def publishRegions (services : List Service) : Part Unit :=
  services.forM (fun s ↦ do
    let regions ← reporting (.failure provider s.name notApplicable)
      (need (.regions s.name) (.regionsFailed provider s.name))
    Plan.put (.regions provider s.name) regions
    (regionIds regions).forM (visitRegion provider s.name))

/-- Runs a part; what ends it is logged and goes no further. -/
def contained (message : String) (part : Part Unit) : Plan Unit := do
  match ← part.run with
  | .ok () => return ()
  | .error e => Plan.log (Log.error message [("error", e.message)])

/-- The status is the time at which it is published, in milliseconds. -/
def publishStatus : Plan Unit := do
  let now ← Plan.now
  Plan.put (.status provider) (toString (now / 1000000))
  Plan.log (Log.debug "status updated" [])

def plan : Plan Unit := do
  Plan.log (Log.info "start scraping provider information" [])
  let started ← Plan.now
  publishSnapshot provider
  let services ← publishServices provider
  contained "failed to scrape service attributes" (publishAttributes provider services)
  contained "failed to scrape service region information" (publishRegions provider services)
  publishStatus provider
  let ended ← Plan.now
  Plan.report (.providerCompleted provider (ended - started))
  Plan.log (Log.info "finished scraping provider information"
    [("elapsed_ms", toString ((ended - started) / 1000000))])

end FullRefresh

end CloudOffers
