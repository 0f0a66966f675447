import CloudOffers.Refresh.Timeline
import CloudOffers.Settings.Loading
import CloudOffers.Source.CatalogFile
import CloudOffers.Tool.Call
/-!
The server: the catalog files of the configured providers, refreshed on a timeline into a store from
which the tools are answered.
-/

namespace CloudOffers

inductive StartError where
  | settings (e : SettingsError)
  | catalog (provider path : String) (e : SourceError)
  | refresh (e : RefreshError)
  | inventory (e : Refusal)

namespace StartError

/-- What was being done, if it is told, and what went wrong. -/
def parts : StartError → Option String × String
  | .settings e => (some "failed to load configuration", e.message)
  | .catalog provider path e =>
    (some ("failed to open catalog for " ++ provider ++ " at " ++ path), e.message)
  | .refresh e => (none, e.message)
  | .inventory e => (none, e.message)

/-- The lines of the report about an error. Those of its cause are indented. -/
def report (e : StartError) : List String :=
  match e.parts with
  | (some context, cause) =>
    ("Error: " ++ context).splitOn "\n" ++ ["", "Caused by:"] ++ (cause.splitOn "\n").map ("    " ++ ·)
  | (none, cause) => ("Error: " ++ cause).splitOn "\n"

end StartError

structure Server where
  settings : Settings
  inventory : Inventory
  timeline : Timeline CatalogFile
  registry : Metrics.Registry

namespace Server

/-- What is in a file. -/
abbrev Files := String → Except SourceError Json.Bytes

def openCatalogs (s : Settings) (files : Files) :
    List String → Except StartError (List (String × CatalogFile))
  | [] => .ok []
  | provider :: rest => do
    let path := s.catalogPath provider
    let file ← (CatalogFile.openAt path (files path)).mapError (.catalog provider path)
    .ok ((provider, file) :: (← openCatalogs s files rest))

def openLog (s : Settings) (files : Files) (providers : List String) : List Log.Event :=
  providers.flatMap (fun provider ↦
    CatalogFile.readLog (s.catalogPath provider) (files (s.catalogPath provider)))

/-- Starts from settings. Nothing has been refreshed yet. -/
def ofSettings (s : Settings) (files : Files) : Except StartError Server := do
  let opened ← openCatalogs s files s.providers
  let (rota, sources) ←
    (Rota.ofProviders s.renewal (Dict.ofList opened).entries).mapError .refresh
  let full ← (Periodic.ofInterval s.renewal).mapError .refresh
  let prices ← (Periodic.ofInterval Settings.priceRefresh).mapError .refresh
  let inventory ← (Inventory.ofNames s.providers).mapError .inventory
  .ok
    { settings := s
      inventory := inventory
      timeline := Timeline.start rota full prices (sources.map (·.2)) (Store.empty ⟨s.longTtl, s.shortTtl⟩)
      registry := .empty }

/-- Starts from the environment and the files there are. -/
def start (vars : List (String × String)) (texts : String → Option String) (files : Files) :
    Except StartError Server := do
  let s ← (Settings.load vars texts).mapError .settings
  ofSettings s files

variable (wall : Nat → Nat)

/-- The files answer at once. -/
def conditions : Conditions CatalogFile where
  source := CatalogFile.source
  delay _ _ := 0
  wall := wall

/-- The timeline once the files hold what they hold now. -/
def refiled (s : Server) (files : Files) : Timeline CatalogFile :=
  { s.timeline with sources := s.timeline.sources.map (fun f ↦ { f with content := files f.path }) }

/-- The server once its timeline has gone on: what was reported is counted, and what was logged comes
with the server. -/
def follow (s : Server) (t : Timeline CatalogFile) : Server × List Log.Event :=
  ({ s with
    timeline := { t with calls := [], events := [], logs := [] }
    registry := t.events.foldl Metrics.Registry.record s.registry }, t.logs)

/-- Lets time pass, with what is in the files now. -/
def advance (s : Server) (files : Files) (span : Nat) : Server × List Log.Event :=
  s.follow ((s.refiled files).advance (conditions wall) span)

/-- Ends the refreshes. Cycles that are running get as long as the settings say. -/
def shutdown (s : Server) (files : Files) : Server × List Log.Event :=
  let (drained, t) := (s.refiled files).shutdown (conditions wall) s.settings.shutdown
  let (s, logs) := s.follow t
  (s, logs ++ if drained then [] else [Log.warn "exiting with refresh cycles still running" []])

def held (s : Server) : Lookup := s.timeline.store.lookup (wall s.timeline.now)

end Server

end CloudOffers
