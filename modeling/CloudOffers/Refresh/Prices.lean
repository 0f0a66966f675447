import CloudOffers.Refresh.Full
/-!
The price refresh of a provider: the current prices of every region of its compute service. Regions
do not wait for each other, and one that fails does not concern the others.
-/

namespace CloudOffers.PriceRefresh

open Metrics (notApplicable)

/-- The service whose regions have current prices. -/
def compute : String := "compute"

variable (provider : String)

/-- Begins the refresh: when it began, and the regions to visit. -/
def start : Plan (Nat × List String) := do
  Plan.log (Log.info "start scraping prices" [])
  let started ← Plan.now
  match ← Plan.request (.regions compute) with
  | .ok (regions : Dict String String) => return (started, regionIds regions)
  | .error e =>
    Plan.report (.priceFailure provider notApplicable)
    Plan.log (Log.error "failed to retrieve regions" [("error", e.message)])
    return (started, [])

/-- Publishes the current prices of a region. Without them, the prices stay as they are. -/
def publishRegion (region : String) : Plan Unit := do
  let started ← Plan.now
  match ← Plan.request (.currentPrices region) with
  | .error e =>
    Plan.report (.priceFailure provider region)
    Plan.log (Log.error "failed to scrape spot prices in region" [("region", region), ("error", e.message)])
  | .ok (prices : Dict String Price) =>
    prices.entries.forM (fun (instanceType, price) ↦
      Plan.put (.price provider region instanceType) price)
    let ended ← Plan.now
    Plan.report (.regionPricesCompleted provider region (ended - started))

def finish (started : Nat) : Plan Unit := do
  let ended ← Plan.now
  Plan.report (.providerPricesCompleted provider (ended - started))
  Plan.log (Log.info "finished scraping prices" [("elapsed_ms", toString ((ended - started) / 1000000))])

/-- The refresh with its regions one after the other. -/
def plan : Plan Unit := do
  let (started, regions) ← start provider
  regions.forM (publishRegion provider)
  finish provider started

end CloudOffers.PriceRefresh
