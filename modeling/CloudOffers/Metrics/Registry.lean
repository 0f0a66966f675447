import CloudOffers.Dict
import CloudOffers.Decimal.Notation
import CloudOffers.Decimal.Scaled
import CloudOffers.Metrics.Fingerprint
/-!
What refreshes report, and the samples that the reports add up to: the last price of a product,
counts of failures, and how long refreshes took.
-/

namespace CloudOffers.Metrics

/-- Stands for a service or a region where there is none. -/
def notApplicable : String := "N/A"

/-- A report of a refresh. Durations are in nanoseconds. -/
inductive Event where
  | price (provider region instanceType : String) (value : Binary64)
  | failure (provider service region : String)
  | regionCompleted (provider service region : String) (elapsed : Nat)
  | providerCompleted (provider : String) (elapsed : Nat)
  | priceFailure (provider region : String)
  | regionPricesCompleted (provider region : String) (elapsed : Nat)
  | providerPricesCompleted (provider : String) (elapsed : Nat)
deriving DecidableEq

/-- Upper bounds of the buckets of durations. -/
def bounds : List Nat :=
  [100000000, 500000000, 1000000000, 5000000000, 15000000000, 30000000000, 60000000000, 120000000000,
    300000000000, 600000000000, 1800000000000]

/-- The number of seconds that is nearest to a bound. -/
def limit (bound : Nat) : Binary64 := .ofRatio false bound 1000000000

/-- A duration in seconds. The whole seconds and the rest are rounded, and so is their sum. -/
def seconds (nanos : Nat) : Binary64 :=
  (Binary64.ofNat (nanos / 1000000000)).sum (.ofRatio false (nanos % 1000000000) 1000000000)

/-- Durations in seconds by bucket, and what they add up to. A duration counts in every bucket whose
bound it does not exceed. -/
structure Histogram where
  within : List Nat
  count : Nat
  sum : Binary64
deriving DecidableEq

namespace Histogram

def empty : Histogram := ⟨bounds.map (fun _ ↦ 0), 0, .zero⟩

def observe (h : Histogram) (elapsed : Nat) : Histogram where
  within := List.zipWith (fun bound n ↦ if (seconds elapsed).le (limit bound) then n + 1 else n)
    bounds h.within
  count := h.count + 1
  sum := h.sum.sum (seconds elapsed)

end Histogram

/-- The samples of one family, by the fingerprints of their labels. With each stand the values of its
labels, as they were first reported. -/
abbrev Samples (α : Type) := Dict Nat (List String × α)

namespace Samples

/-- Changes the sample of some labels, or adds one. Labels with one fingerprint share a sample. -/
def update {α : Type} (s : Samples α) (labels : List String) (f : Option α → α) : Samples α :=
  s.alter (fingerprint labels) (fun
    | some (first, v) => (first, f (some v))
    | none => (labels, f none))

end Samples

structure Registry where
  prices : Samples Binary64
  failures : Samples Nat
  regions : Samples Histogram
  providers : Samples Histogram
  priceFailures : Samples Nat
  regionPrices : Samples Histogram
  providerPrices : Samples Histogram
deriving DecidableEq

namespace Registry

def empty : Registry := ⟨.empty, .empty, .empty, .empty, .empty, .empty, .empty⟩

def increment (s : Samples Nat) (labels : List String) : Samples Nat :=
  s.update labels (fun n ↦ n.getD 0 + 1)

def observe (s : Samples Histogram) (labels : List String) (elapsed : Nat) : Samples Histogram :=
  s.update labels (fun h ↦ (h.getD .empty).observe elapsed)

def record (g : Registry) : Event → Registry
  | .price provider region instanceType value =>
    { g with prices := g.prices.update [provider, region, instanceType] (fun _ ↦ value) }
  | .failure provider service region =>
    { g with failures := increment g.failures [provider, service, region] }
  | .regionCompleted provider service region elapsed =>
    { g with regions := observe g.regions [provider, service, region] elapsed }
  | .providerCompleted provider elapsed =>
    { g with providers := observe g.providers [provider] elapsed }
  | .priceFailure provider region =>
    { g with priceFailures := increment g.priceFailures [provider, region] }
  | .regionPricesCompleted provider region elapsed =>
    { g with regionPrices := observe g.regionPrices [provider, region] elapsed }
  | .providerPricesCompleted provider elapsed =>
    { g with providerPrices := observe g.providerPrices [provider] elapsed }

def ofEvents (events : List Event) : Registry := events.foldl record empty

end Registry

end CloudOffers.Metrics
