import CloudOffers.Json.Document
import CloudOffers.Text.Path
/-!
Settings of the program and their defaults.
-/

namespace CloudOffers

structure Settings where
  providers : List String
  catalogDir : String
  renewalSecs : Nat
  longTtlSecs : Nat
  shortTtlSecs : Nat
  shutdownMs : Nat
deriving DecidableEq, Inhabited

namespace Settings

/-- A day between refreshes, entries for two days, prices for ten minutes. -/
def default : Settings where
  providers := []
  catalogDir := "./catalogs"
  renewalSecs := 86400
  longTtlSecs := 172800
  shortTtlSecs := 600
  shutdownMs := 10000

/-- The interval of the price refresh, which is no setting. All lengths of time are in nanoseconds. -/
def priceRefresh : Nat := 240 * 1000000000

def renewal (s : Settings) : Nat := s.renewalSecs * 1000000000

def longTtl (s : Settings) : Nat := s.longTtlSecs * 1000000000

def shortTtl (s : Settings) : Nat := s.shortTtlSecs * 1000000000

/-- How long the end of the program waits for refreshes. -/
def shutdown (s : Settings) : Nat := s.shutdownMs * 1000000

def catalogPath (s : Settings) (provider : String) : String :=
  Path.under s.catalogDir (provider ++ ".json")

end Settings

open Json Json.Document

instance : Document Settings where
  shape := .record "AppConfig"
    [fieldWith "providers" Settings.default.providers,
      Field.optional "catalog_dir" .path (toJson Settings.default.catalogDir),
      fieldWith "renewal_interval_secs" Settings.default.renewalSecs,
      fieldWith "cache_long_ttl_secs" Settings.default.longTtlSecs,
      fieldWith "cache_short_ttl_secs" Settings.default.shortTtlSecs,
      fieldWith "shutdown_timeout_ms" Settings.default.shutdownMs]
  toJson s := .obj [("providers", toJson s.providers), ("catalog_dir", toJson s.catalogDir),
    ("renewal_interval_secs", toJson s.renewalSecs), ("cache_long_ttl_secs", toJson s.longTtlSecs),
    ("cache_short_ttl_secs", toJson s.shortTtlSecs), ("shutdown_timeout_ms", toJson s.shutdownMs)]
  ofJson?
    | .obj [("providers", providers), ("catalog_dir", dir), ("renewal_interval_secs", renewal),
        ("cache_long_ttl_secs", long), ("cache_short_ttl_secs", short),
        ("shutdown_timeout_ms", shutdown)] => do
      some ⟨← ofJson? providers, ← ofJson? dir, ← ofJson? renewal, ← ofJson? long, ← ofJson? short,
        ← ofJson? shutdown⟩
    | _ => none

end CloudOffers
