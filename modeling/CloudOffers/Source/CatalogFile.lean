import CloudOffers.Source.Request
/-!
The source behind a catalog file. Asking for the snapshot reads the file and holds what was read; the
other requests are answered from the catalog held, except that current prices are read from the file
each time.
-/

namespace CloudOffers

structure CatalogFile where
  path : String
  content : Except SourceError Json.Bytes
  held : Catalog

namespace CatalogFile

def read (content : Except SourceError Json.Bytes) : Except SourceError Catalog := do
  Catalog.ofBytes (← content)

/-- Opens a file, which must hold a catalog. -/
def openAt (path : String) (content : Except SourceError Json.Bytes) : Except SourceError CatalogFile := do
  .ok ⟨path, content, ← read content⟩

def readLog (path : String) (content : Except SourceError Json.Bytes) : List Log.Event :=
  match read content with
  | .ok c => [Log.debug "loaded catalog" [("path", path), ("services", toString c.services.length)]]
  | .error _ => []

def answer : (r : Request) → CatalogFile → r.Reply × CatalogFile
  | .snapshot, f =>
    match read f.content with
    | .ok c => (.ok c.snapshot, { f with held := c })
    | .error e => (.error e, f)
  | .services, f => (.ok (f.held.services.map Service.mk), f)
  | .attributeValues service name, f =>
    (do f.held.checkService service; f.held.attributeValues name, f)
  | .regions service, f => (do f.held.checkService service; .ok f.held.regions, f)
  | .products service region, f => (do f.held.check service region; .ok (f.held.productsIn region), f)
  | .images service region, f => (do f.held.check service region; .ok (f.held.imagesIn region), f)
  | .versions service region, f => (do f.held.check service region; .ok (f.held.versionsIn region), f)
  | .currentPrices region, f =>
    (do let c ← read f.content; c.checkRegion region; .ok (c.pricesIn region), f)

def notes : Request → CatalogFile → List Log.Event
  | .snapshot, f | .currentPrices _, f => readLog f.path f.content
  | _, _ => []

def source : Source CatalogFile where
  answer := answer
  notes := notes
  offersImages f := !f.held.images.isEmpty
  offersCurrentPrices f := f.held.shortLivedPrices

end CatalogFile

end CloudOffers
