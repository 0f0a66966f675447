import CloudOffers.Metrics.Registry
/-!
The text form of the samples: families ascending by name, each with its help, its type and a line
for every sample.
-/

namespace CloudOffers.Metrics

/-- A family of samples: its name, its help, and the names of its labels in the order in which their
values are reported. -/
structure Family where
  name : String
  help : String
  labels : List String

namespace Family

def prices : Family :=
  ⟨"cloudinfo_on_demand_price", "On-demand price of an instance type",
    ["provider", "region", "instance_type"]⟩

def failures : Family :=
  ⟨"cloudinfo_scrape_failures_total", "Total number of failed full refresh steps",
    ["provider", "service", "region"]⟩

def regions : Family :=
  ⟨"cloudinfo_scrape_region_duration_seconds", "Full refresh duration of a region in seconds",
    ["provider", "service", "region"]⟩

def providers : Family :=
  ⟨"cloudinfo_scrape_provider_duration_seconds",
    "Full refresh cycle duration of a provider in seconds", ["provider"]⟩

def priceFailures : Family :=
  ⟨"cloudinfo_scrape_short_lived_failures_total",
    "Total number of failed short-lived price refreshes", ["provider", "region"]⟩

def regionPrices : Family :=
  ⟨"cloudinfo_scrape_region_short_lived_duration_seconds",
    "Short-lived price refresh duration of a region in seconds", ["provider", "region"]⟩

def providerPrices : Family :=
  ⟨"cloudinfo_scrape_provider_short_lived_duration_seconds",
    "Short-lived price refresh cycle duration of a provider in seconds", ["provider"]⟩

end Family

def escape (c : Char) : List Char :=
  if c = '\\' then ['\\', '\\']
  else if c = '"' then ['\\', '"']
  else if c = '\n' then ['\\', 'n']
  else [c]

def label (name value : String) : List Char :=
  name.toList ++ '=' :: '"' :: (value.toList.flatMap escape ++ ['"'])

def sampleLine (name : String) (labels : List (String × String)) (value : String) : String :=
  String.ofList (name.toList ++
    '\x7b' :: ([','].intercalate (labels.map (fun l ↦ label l.1 l.2)) ++ '\x7d' :: ' ' :: value.toList))

namespace Family

def heading (f : Family) (type : String) : List String :=
  ["# HELP " ++ f.name ++ " " ++ f.help, "# TYPE " ++ f.name ++ " " ++ type]

def ascendingLabels (f : Family) (values : List String) : List (String × String) :=
  (Dict.ofList (f.labels.zip values)).entries

/-- The samples, ascending by the values of their labels in the order of the names. -/
def ascendingSamples {α : Type} (f : Family) (samples : Samples α) : Dict (List String) (List String × α) :=
  Dict.ofList (samples.values.map (fun s ↦ ((f.ascendingLabels s.1).map (·.2), s)))

/-- The lines of a family; one without samples has none. -/
def lines {α : Type} (f : Family) (type : String) (samples : Samples α)
    (line : List (String × String) → α → List String) : List String :=
  if samples.isEmpty then []
  else f.heading type ++
    (f.ascendingSamples samples).values.flatMap (fun s ↦ line (f.ascendingLabels s.1) s.2)

def gaugeLines (f : Family) (samples : Samples Binary64) : List String :=
  f.lines "gauge" samples (fun labels x ↦ [sampleLine f.name labels (NumberStyle.plain.text x)])

def counterLines (f : Family) (samples : Samples Nat) : List String :=
  f.lines "counter" samples (fun labels n ↦ [sampleLine f.name labels (toString n)])

def histogramLines (f : Family) (samples : Samples Histogram) : List String :=
  f.lines "histogram" samples (fun labels h ↦
    (bounds.zip h.within).map (fun b ↦
      sampleLine (f.name ++ "_bucket") (labels ++ [("le", NumberStyle.plain.text (limit b.1))]) (toString b.2)) ++
    [sampleLine (f.name ++ "_bucket") (labels ++ [("le", "+Inf")]) (toString h.count),
      sampleLine (f.name ++ "_sum") labels (NumberStyle.plain.text h.sum),
      sampleLine (f.name ++ "_count") labels (toString h.count)])

end Family

namespace Registry

def lines (g : Registry) : List String :=
  Family.prices.gaugeLines g.prices ++
  Family.failures.counterLines g.failures ++
  Family.providers.histogramLines g.providers ++
  Family.providerPrices.histogramLines g.providerPrices ++
  Family.regions.histogramLines g.regions ++
  Family.regionPrices.histogramLines g.regionPrices ++
  Family.priceFailures.counterLines g.priceFailures

def text (g : Registry) : String := String.join (g.lines.map (· ++ "\n"))

end Registry

end CloudOffers.Metrics
