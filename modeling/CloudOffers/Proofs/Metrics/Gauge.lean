import CloudOffers.Proofs.Metrics.Tally
import Mathlib.Data.List.Find
/-!
What the gauge of prices shows. Prices whose labels have one fingerprint share a sample: it has the
labels of the first of them and the value of the last.
-/

namespace CloudOffers.Metrics

/-- The labels of a price, and its value. -/
def Event.sample? : Event → Option (List String × Binary64)
  | .price provider region instanceType value => some ([provider, region, instanceType], value)
  | _ => none

def samples (events : List Event) : List (List String × Binary64) := events.filterMap Event.sample?

theorem samples_append (a b : List Event) : samples (a ++ b) = samples a ++ samples b :=
  List.filterMap_append

/-- The value that was last reported with some labels. -/
def lastPrice? (labels : List String) (events : List Event) : Option Binary64 :=
  ((samples events).reverse.find? (fun s ↦ s.1 = labels)).map (·.2)

theorem lastPrice?_append (labels : List String) (a b : List Event) :
    lastPrice? labels (a ++ b) = (lastPrice? labels b).or (lastPrice? labels a) := by
  rw [lastPrice?, samples_append, List.reverse_append, List.find?_append, Option.map_or]
  rfl

theorem price_mem_samples {provider region instanceType : String} {x : Binary64} {events : List Event} :
    ([provider, region, instanceType], x) ∈ samples events ↔
      .price provider region instanceType x ∈ events := by
  rw [samples, List.mem_filterMap]
  constructor
  · intro hmem
    obtain ⟨e, he, hsample⟩ := hmem
    cases e with
    | price =>
      cases hsample
      exact he
    | _ => cases hsample
  · intro he
    exact ⟨_, he, rfl⟩

/-- If all prices with some labels are the same, it does not matter which is the last. -/
theorem lastPrice?_of_forall {labels : List String} {events : List Event} {x : Binary64}
    (h : ∀ v, (labels, v) ∈ samples events → v = x) :
    lastPrice? labels events = none ∨ lastPrice? labels events = some x := by
  cases hlast : lastPrice? labels events with
  | none => exact .inl rfl
  | some v =>
    obtain ⟨⟨labels', v'⟩, hfound, hv⟩ := Option.map_eq_some_iff.1 hlast
    obtain rfl : v' = v := hv
    obtain rfl : labels' = labels := by simpa using List.find?_some hfound
    have hmem := List.mem_reverse.1 (List.mem_of_find?_eq_some hfound)
    exact .inr (congrArg some (h v' hmem))

theorem lastPrice?_eq_some_of_mem {labels : List String} {events : List Event} {x : Binary64}
    (hmem : (labels, x) ∈ samples events) (h : ∀ v, (labels, v) ∈ samples events → v = x) :
    lastPrice? labels events = some x := by
  obtain hnone | hsome := lastPrice?_of_forall h
  · rw [lastPrice?, Option.map_eq_none_iff, List.find?_eq_none] at hnone
    exact absurd (decide_eq_true rfl) (hnone _ (List.mem_reverse.2 hmem))
  · exact hsome

theorem lastPrice?_flatMap {α : Type} {labels : List String} {f : α → List Event} {x : Binary64}
    {l : List α} (h : ∀ a ∈ l, lastPrice? labels (f a) = none ∨ lastPrice? labels (f a) = some x) :
    lastPrice? labels (l.flatMap f) = none ∨ lastPrice? labels (l.flatMap f) = some x := by
  induction l with
  | nil => exact .inl rfl
  | cons a l ih =>
    obtain ⟨ha, hl⟩ := List.forall_mem_cons.1 h
    rw [List.flatMap_cons, lastPrice?_append]
    obtain hnone | hsome := ih hl
    · rwa [hnone, Option.none_or]
    · exact .inr (by rw [hsome, Option.some_or])

namespace Registry

theorem find?_reverse_isSome {α : Type} {l : List α} {p : α → Bool} {a : α} (h : l.find? p = some a) :
    ∃ b, l.reverse.find? p = some b := by
  refine Option.isSome_iff_exists.1 (List.find?_isSome.2 ⟨a, ?_, List.find?_some h⟩)
  exact List.mem_reverse.2 (List.mem_of_find?_eq_some h)

/-- Whether a price has some fingerprint. -/
def hasKey (key : Nat) (s : List String × Binary64) : Bool := fingerprint s.1 = key

/-- The first price with some fingerprint. -/
def firstWith? (key : Nat) (events : List Event) : Option (List String × Binary64) :=
  (samples events).find? (hasKey key)

/-- The last price with some fingerprint. -/
def lastWith? (key : Nat) (events : List Event) : Option (List String × Binary64) :=
  (samples events).reverse.find? (hasKey key)

theorem filter_samples (key : Nat) (events : List Event) :
    (samples events).filter (hasKey key) = (sharing .price key events).map (fun e ↦ (e.values, e.amount)) := by
  induction events with
  | nil => rfl
  | cons e events ih =>
    cases e with
    | price provider region instanceType x =>
      by_cases hkey : fingerprint [provider, region, instanceType] = key <;>
        simp_all [samples, Event.sample?, hasKey, sharing, Event.kind, Event.values, Event.amount]
    | _ => exact ih

theorem get?_prices_ofEvents (events : List Event) (key : Nat) :
    (ofEvents events).prices.get? key = (firstWith? key events).bind (fun first ↦
      (lastWith? key events).map (fun last ↦ (first.1, last.2))) := by
  rw [firstWith?, lastWith?, ← List.head?_filter, ← List.head?_filter, List.filter_reverse, List.head?_reverse,
    filter_samples]
  refine (get?_samples_ofEvents .price events key).trans ?_
  cases sharing .price key events with
  | nil => rfl
  | cons first es => simp [Form.value, Kind.form, List.getLast?_cons]

/-- What is exposed for some labels. -/
def Shows (g : Registry) (labels : List String) (x : Binary64) : Prop := (labels, x) ∈ g.prices.values

theorem shows_iff {events : List Event} {labels : List String} {x : Binary64} :
    (ofEvents events).Shows labels x ↔ ∃ first last,
      firstWith? (fingerprint labels) events = some first ∧
      lastWith? (fingerprint labels) events = some last ∧ first.1 = labels ∧ last.2 = x := by
  have hget (key : Nat) : (ofEvents events).prices.get? key = some (labels, x) ↔ ∃ first last,
      firstWith? key events = some first ∧ lastWith? key events = some last ∧
      first.1 = labels ∧ last.2 = x := by
    rw [get?_prices_ofEvents]
    simp [Option.bind_eq_some_iff]
  rw [← hget]
  constructor
  · intro hshows
    obtain ⟨⟨key, s⟩, hmem, hs⟩ := List.mem_map.1 hshows
    obtain rfl : s = (labels, x) := hs
    -- a sample is kept under the fingerprint of its labels
    obtain ⟨first, last, hfirst, -, hlabels, -⟩ := (hget key).1 (Dict.mem_entries_iff.1 hmem)
    have hfound : hasKey key first = true := List.find?_some hfirst
    have hkey : fingerprint labels = key := hlabels ▸ of_decide_eq_true hfound
    rw [hkey]
    exact Dict.mem_entries_iff.1 hmem
  · intro hsample
    exact List.mem_map.2 ⟨_, Dict.mem_entries_iff.2 hsample, rfl⟩

/-- No price was reported with other labels of the same fingerprint. -/
def Unshared (labels : List String) (events : List Event) : Prop :=
  ∀ s ∈ samples events, fingerprint s.1 = fingerprint labels → s.1 = labels

theorem shows_iff_of_unshared {events : List Event} {labels : List String} {x : Binary64}
    (h : Unshared labels events) :
    (ofEvents events).Shows labels x ↔ lastPrice? labels events = some x := by
  have hsame : ∀ s ∈ samples events, hasKey (fingerprint labels) s = decide (s.1 = labels) := by
    intro s hs
    refine decide_eq_decide.2 ⟨h s hs, fun heq ↦ by rw [heq]⟩
  rw [shows_iff, firstWith?, lastWith?, List.find?_congr hsame,
    List.find?_congr (fun s hs ↦ hsame s (List.mem_reverse.1 hs)), lastPrice?, Option.map_eq_some_iff]
  constructor
  · intro hfound
    obtain ⟨first, last, -, hlast, -, hx⟩ := hfound
    exact ⟨last, hlast, hx⟩
  · intro hfound
    obtain ⟨last, hlast, hx⟩ := hfound
    have hreverse := find?_reverse_isSome hlast
    rw [List.reverse_reverse] at hreverse
    obtain ⟨first, hfirst⟩ := hreverse
    have hlabels : first.1 = labels := by simpa using List.find?_some hfirst
    exact ⟨first, last, hfirst, hlast, hlabels, hx⟩

end Registry

end CloudOffers.Metrics
