import CloudOffers.Settings.Basic
import CloudOffers.Text.Blank
import CloudOffers.Log
/-!
Which settings are legal, and what is said of the first that is not.
-/

namespace CloudOffers

inductive SettingsError where
  | loadFailed (reason : String)
  | invalid (field reason : String)
  | missing (field hint : String)
deriving DecidableEq

namespace SettingsError

def message : SettingsError → String
  | .loadFailed reason => "failed to load configuration: " ++ reason
  | .invalid field reason => "invalid configuration: " ++ field ++ " - " ++ reason
  | .missing field hint => "missing required configuration: " ++ field ++ " (" ++ hint ++ ")"

end SettingsError

namespace Settings

/-- Checks the names of providers in order, against those seen before. -/
def checkNames (seen : List String) : List String → Except SettingsError Unit
  | [] => .ok ()
  | name :: rest =>
    if isBlankText name then .error (.invalid "providers" "names must not be empty")
    else if name ∈ seen then .error (.invalid "providers" ("duplicate provider: " ++ name))
    else checkNames (name :: seen) rest

/-- Reports the first fault. -/
def validate (s : Settings) : Except SettingsError Unit := do
  if s.providers.isEmpty then
    .error (.missing "providers" "Set CLOUDINFO_PROVIDERS environment variable, e.g. [amazon]")
  checkNames [] s.providers
  if s.renewalSecs < 60 then
    .error (.invalid "renewal_interval_secs" "must be at least 60 seconds")
  if s.longTtlSecs = 0 then
    .error (.invalid "cache_long_ttl_secs" "must be greater than 0")
  if s.shortTtlSecs = 0 then
    .error (.invalid "cache_short_ttl_secs" "must be greater than 0")
  if 300000 < s.shutdownMs then
    .error (.invalid "shutdown_timeout_ms" "must not exceed 5 minutes (300000ms)")

/-- What is logged about legal settings under which entries expire between refreshes. -/
def warnings (s : Settings) : List Log.Event :=
  (if s.longTtlSecs < s.renewalSecs then
    [Log.warn ("Long-lived cache TTL is shorter than the renewal interval; " ++
        "metadata will expire between refreshes")
      [("cache_long_ttl_secs", toString s.longTtlSecs), ("renewal_interval_secs", toString s.renewalSecs)]]
  else []) ++
  (if s.shortTtl < priceRefresh then
    [Log.warn ("Short-lived cache TTL is shorter than the price refresh interval; " ++
        "prices will expire between refreshes")
      [("cache_short_ttl_secs", toString s.shortTtlSecs)]]
  else [])

def validationLog (s : Settings) : List Log.Event :=
  match s.validate with
  | .ok () => s.warnings
  | .error _ => []

end Settings

end CloudOffers
