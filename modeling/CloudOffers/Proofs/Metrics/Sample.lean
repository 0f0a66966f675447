import CloudOffers.Proofs.Metrics.Line
import CloudOffers.Proofs.Metrics.Tally
import Mathlib.Data.List.Nodup
/-!
What is shown of reports that have the same labels: one sample for a gauge or a counter, and one for each
bound of a histogram. A line tells which family and which labels it is about.
-/

namespace CloudOffers.Metrics

/-- The labels of a report, ascending by name. -/
def Event.labels : Event → List (String × String)
  | .price provider region instanceType _ =>
    [("instance_type", instanceType), ("provider", provider), ("region", region)]
  | .failure provider service region | .regionCompleted provider service region _ =>
    [("provider", provider), ("region", region), ("service", service)]
  | .providerCompleted provider _ | .providerPricesCompleted provider _ => [("provider", provider)]
  | .priceFailure provider region | .regionPricesCompleted provider region _ =>
    [("provider", provider), ("region", region)]

namespace Form

def type : Form → String
  | .gauge => "gauge"
  | .counter => "counter"
  | .histogram => "histogram"

/-- The bounds of the buckets of durations, in nanoseconds and as they are shown. -/
def buckets : List (Nat × String) :=
  [(100000000, "0.1"), (500000000, "0.5"), (1000000000, "1"), (5000000000, "5"), (15000000000, "15"),
    (30000000000, "30"), (60000000000, "60"), (120000000000, "120"), (300000000000, "300"), (600000000000, "600"),
    (1800000000000, "1800")]

theorem map_bounds : bounds.map (fun bound ↦ (bound, NumberStyle.plain.text (limit bound))) = buckets := by
  decide +kernel

/-- What is shown of reports that have the same labels. -/
def samples (name : String) (labels : List (String × String)) (es : List Event) : Form → List Sample
  | .gauge => [⟨name, labels, NumberStyle.plain.text (es.getLast?.elim .zero Event.amount)⟩]
  | .counter => [⟨name, labels, toString es.length⟩]
  | .histogram =>
    buckets.map (fun b ↦ ⟨name ++ "_bucket", labels ++ [("le", b.2)],
      toString (es.countP (fun e ↦ e.elapsed ≤ b.1))⟩) ++
    [⟨name ++ "_bucket", labels ++ [("le", "+Inf")], toString es.length⟩,
      ⟨name ++ "_sum", labels, NumberStyle.plain.text (Event.totalSeconds es)⟩,
      ⟨name ++ "_count", labels, toString es.length⟩]

/-- The names of the samples of a family. -/
def names (name : String) : Form → List String
  | .gauge | .counter => [name]
  | .histogram => [name ++ "_bucket", name ++ "_sum", name ++ "_count"]

end Form

namespace Kind

def family : Kind → Family
  | .price => ⟨"cloudinfo_on_demand_price", "On-demand price of an instance type",
      ["provider", "region", "instance_type"]⟩
  | .failure => ⟨"cloudinfo_scrape_failures_total", "Total number of failed full refresh steps",
      ["provider", "service", "region"]⟩
  | .region => ⟨"cloudinfo_scrape_region_duration_seconds", "Full refresh duration of a region in seconds",
      ["provider", "service", "region"]⟩
  | .provider => ⟨"cloudinfo_scrape_provider_duration_seconds",
      "Full refresh cycle duration of a provider in seconds", ["provider"]⟩
  | .priceFailure => ⟨"cloudinfo_scrape_short_lived_failures_total",
      "Total number of failed short-lived price refreshes", ["provider", "region"]⟩
  | .regionPrices => ⟨"cloudinfo_scrape_region_short_lived_duration_seconds",
      "Short-lived price refresh duration of a region in seconds", ["provider", "region"]⟩
  | .providerPrices => ⟨"cloudinfo_scrape_provider_short_lived_duration_seconds",
      "Short-lived price refresh cycle duration of a provider in seconds", ["provider"]⟩

/-- All kinds, ascending by the names of their families. -/
def all : List Kind := [.price, .failure, .provider, .providerPrices, .region, .regionPrices, .priceFailure]

end Kind

section Labels

theorem ascendingLabels_values (e : Event) : e.kind.family.ascendingLabels e.values = e.labels := by
  cases e <;>
    simp only [Event.kind, Kind.family, Event.values, Event.labels, Family.ascendingLabels, List.zip_cons_cons,
      List.zip_nil_right, List.foldl_cons, List.foldl_nil, Dict.ofList, Dict.insert, Dict.insertEntry, Dict.empty,
      String.reduceEq, String.reduceLT, ↓reduceIte]

theorem values_eq_iff {e e' : Event} (h : e.kind = e'.kind) : e.values = e'.values ↔ e.labels = e'.labels := by
  constructor
  · intro hvalues
    rw [← ascendingLabels_values, ← ascendingLabels_values, h, hvalues]
  · intro hlabels
    cases e <;> cases e' <;> cases h <;> simp_all [Event.values, Event.labels]

theorem labels_eq_of_texts {e e' : Event} (h : e.kind = e'.kind)
    (htexts : e.labels.map (·.2) = e'.labels.map (·.2)) : e.labels = e'.labels := by
  cases e <;> cases e' <;> cases h <;> simp_all [Event.labels]

theorem named_labels (e : Event) : e.labels ≠ [] ∧ ∀ l ∈ e.labels, Plain l.1 ∧ l.1 ≠ "le" := by
  have htype : Plain "instance_type" := plain_ofList (by decide)
  have hprovider : Plain "provider" := plain_ofList (by decide)
  have hregion : Plain "region" := plain_ofList (by decide)
  have hservice : Plain "service" := plain_ofList (by decide)
  cases e <;> simp [Event.labels, htype, hprovider, hregion, hservice]

end Labels

section Samples

variable {f : Form} {name : String} {labels : List (String × String)} {es : List Event} {s : Sample}

theorem newline_not_mem_toString (n : Nat) : '\n' ∉ (toString n).toList := by
  have htext : (toString n).toList = NumberStyle.digits n := String.toList_ofList
  rw [htext]
  exact NumberStyle.newline_not_mem_digits n

/-- A sample of a family has its labels; one of a bucket has one more. -/
structure Form.Shows (f : Form) (name : String) (labels : List (String × String)) (s : Sample) : Prop where
  name : s.name ∈ f.names name
  labels : s.labels = labels ∨ ∃ bound, s.labels = labels ++ [("le", bound)]
  value : '\n' ∉ s.value.toList

theorem Form.shows_of_mem (h : s ∈ f.samples name labels es) : f.Shows name labels s := by
  cases f with
  | gauge =>
    obtain rfl := List.mem_singleton.1 h
    exact ⟨List.mem_cons_self, .inl rfl, NumberStyle.newline_not_mem_plain _⟩
  | counter =>
    obtain rfl := List.mem_singleton.1 h
    exact ⟨List.mem_cons_self, .inl rfl, newline_not_mem_toString _⟩
  | histogram =>
    obtain hbucket | hrest := List.mem_append.1 h
    · obtain ⟨bound, -, rfl⟩ := List.mem_map.1 hbucket
      exact ⟨List.mem_cons_self, .inr ⟨_, rfl⟩, newline_not_mem_toString _⟩
    · simp only [List.mem_cons, List.not_mem_nil, or_false] at hrest
      obtain rfl | rfl | rfl := hrest
      · exact ⟨List.mem_cons_self, .inr ⟨_, rfl⟩, newline_not_mem_toString _⟩
      · exact ⟨List.mem_cons_of_mem _ List.mem_cons_self, .inl rfl, NumberStyle.newline_not_mem_plain _⟩
      · exact ⟨List.mem_of_mem_getLast? rfl, .inl rfl, newline_not_mem_toString _⟩

theorem Form.nodup_samples (f : Form) (name : String) (labels : List (String × String)) (es : List Event) :
    ((f.samples name labels es).map (fun s ↦ (s.name, s.labels))).Nodup := by
  cases f with
  | gauge | counter => exact List.nodup_singleton _
  | histogram =>
    have hbounds : (buckets.map (·.2) ++ ["+Inf"]).Nodup := by decide
    have hinjective : Function.Injective (fun bound ↦ (name ++ "_bucket", labels ++ [("le", bound)])) :=
      fun a b hab ↦ by simpa using hab
    have hlist : (histogram.samples name labels es).map (fun s ↦ (s.name, s.labels)) =
        (buckets.map (·.2) ++ ["+Inf"]).map (fun bound ↦ (name ++ "_bucket", labels ++ [("le", bound)])) ++
          [(name ++ "_sum", labels), (name ++ "_count", labels)] := by
      simp [samples, Function.comp_def]
    rw [hlist, List.nodup_append]
    refine ⟨hbounds.map hinjective, by simp, fun a ha b hb hab ↦ ?_⟩
    obtain ⟨bound, -, rfl⟩ := List.mem_map.1 ha
    have hlabels : b.2 = labels := by
      simp only [List.mem_cons, List.not_mem_nil, or_false] at hb
      obtain rfl | rfl := hb <;> rfl
    rw [← hab] at hlabels
    simp at hlabels

end Samples

namespace Form

theorem plain_of_mem_names (f : Form) {name n : String} (hname : Plain name) (hn : n ∈ f.names name) : Plain n := by
  cases f with
  | gauge | counter =>
    obtain rfl := List.mem_singleton.1 hn
    exact hname
  | histogram =>
    simp only [names, List.mem_cons, List.not_mem_nil, or_false] at hn
    obtain rfl | rfl | rfl := hn
    · exact hname.append (plain_ofList (by decide))
    · exact hname.append (plain_ofList (by decide))
    · exact hname.append (plain_ofList (by decide))

theorem plain_type (f : Form) : Plain f.type := by
  cases f <;> exact plain_ofList (by decide)

end Form

namespace Kind

theorem plain_name (k : Kind) : Plain k.family.name := by
  cases k <;> exact plain_ofList (by decide)

theorem newline_not_mem_help (k : Kind) : '\n' ∉ k.family.help.toList := by
  cases k <;> exact newline_not_mem_ofList (by decide)

theorem newline_not_mem_heading {k : Kind} {l : String} (hl : l ∈ k.family.heading k.form.type) : '\n' ∉ l.toList := by
  have hname := k.plain_name.not_mem (c := '\n') (by decide)
  have htype := k.form.plain_type.not_mem (c := '\n') (by decide)
  simp only [Family.heading, List.mem_cons, List.not_mem_nil, or_false] at hl
  obtain rfl | rfl := hl <;> simp [hname, htype, k.newline_not_mem_help]

theorem head?_heading {f : Family} {type : String} : ∀ l ∈ f.heading type, l.toList.head? = some '#' := by
  simp [Family.heading]

/-- A name belongs to one family only. -/
theorem find?_of_mem_names {k : Kind} :
    ∀ n ∈ k.form.names k.family.name, all.find? (fun k ↦ n ∈ k.form.names k.family.name) = some k := by
  cases k <;>
    simp [all, form, Form.names, family]

end Kind

section Reported

variable {k k' : Kind} {name name' : String} {e e' : Event} {es es' : List Event} {s s' : Sample} {l : String}

theorem named_of_mem (h : s ∈ k.form.samples k.family.name e.labels es) : s.Named := by
  obtain ⟨hne, hlabels⟩ := named_labels e
  have hplain (l : String × String) (hl : l ∈ e.labels) : Plain l.1 := (hlabels l hl).1
  have hle : Plain "le" := plain_ofList (by decide)
  refine ⟨k.form.plain_of_mem_names k.plain_name (Form.shows_of_mem h).name, ?_, ?_⟩
  all_goals obtain heq | ⟨bound, heq⟩ := (Form.shows_of_mem h).labels
  · rwa [heq]
  · simp [heq]
  · rwa [heq]
  · rw [heq]
    exact List.forall_mem_append.2 ⟨hplain, List.forall_mem_singleton.2 hle⟩

theorem labels_eq_of_mem {f f' : Form} (h : s ∈ f.samples name e.labels es) (h' : s' ∈ f'.samples name' e'.labels es')
    (hlabels : s.labels = s'.labels) : e.labels = e'.labels := by
  have hno (e : Event) (bound : String) : ("le", bound) ∉ e.labels := fun hmem ↦ ((named_labels e).2 _ hmem).2 rfl
  obtain heq | ⟨bound, heq⟩ := (Form.shows_of_mem h).labels
  all_goals obtain heq' | ⟨bound', heq'⟩ := (Form.shows_of_mem h').labels
  · rw [← heq, ← heq', hlabels]
  · refine absurd ?_ (hno e bound')
    rw [← heq, hlabels, heq']
    exact List.mem_append_right _ List.mem_cons_self
  · refine absurd ?_ (hno e' bound)
    rw [← heq', ← hlabels, heq]
    exact List.mem_append_right _ List.mem_cons_self
  · rw [heq, heq'] at hlabels
    exact (List.append_inj' hlabels rfl).1

theorem kind_eq_of_mem (h : s ∈ k.form.samples k.family.name e.labels es)
    (h' : s ∈ k'.form.samples k'.family.name e'.labels es') : k = k' :=
  Option.some.inj ((Kind.find?_of_mem_names _ (Form.shows_of_mem h).name).symm.trans
    (Kind.find?_of_mem_names _ (Form.shows_of_mem h').name))

/-- A line of a family that shows some reports. -/
inductive LineOf (k : Kind) (P : Event → Prop) : String → Prop
  | heading {l : String} : l ∈ k.family.heading k.form.type → LineOf k P l
  | sample {e : Event} {es : List Event} {s : Sample} :
    P e → e.kind = k → s ∈ k.form.samples k.family.name e.labels es → LineOf k P s.line

theorem LineOf.newline_not_mem {P : Event → Prop} (h : LineOf k P l) : '\n' ∉ l.toList := by
  cases h with
  | heading hl => exact Kind.newline_not_mem_heading hl
  | sample _ _ hs => exact Sample.newline_not_mem_line (named_of_mem hs) (Form.shows_of_mem hs).value

/-- A line of a sample is one of reports with its labels. -/
theorem LineOf.exists {P : Event → Prop} (h : LineOf k' P s.line)
    (hs : s ∈ k.form.samples k.family.name e.labels es) :
    ∃ e', P e' ∧ e'.kind = k ∧ k' = k ∧ e'.labels = e.labels := by
  generalize hline : s.line = line at h
  cases h with
  | heading hl =>
    have hhead := Kind.head?_heading _ hl
    rw [← hline, Sample.toList_line] at hhead
    cases hname : s.name.toList with
    | nil =>
      rw [hname] at hhead
      exact absurd (Option.some.inj hhead) (by decide)
    | cons c cs =>
      rw [hname] at hhead
      have hmem : '#' ∈ s.name.toList := by
        rw [hname, ← Option.some.inj hhead]
        exact List.mem_cons_self
      exact absurd hmem ((named_of_mem hs).plain.not_mem (by decide))
  | @sample e' es' s' he' hkind hs' =>
    obtain rfl := Sample.line_inj (named_of_mem hs) (named_of_mem hs') hline
    obtain rfl := kind_eq_of_mem hs hs'
    exact ⟨e', he', hkind, rfl, labels_eq_of_mem hs' hs rfl⟩

end Reported

end CloudOffers.Metrics
