import CloudOffers.Metrics.Exposition
import CloudOffers.Proofs.Dict
import CloudOffers.Proofs.Metrics.Duration
import Mathlib.Data.List.Induction
/-!
The registry after any reports. A family keeps one sample for each fingerprint: its labels are those of the
first report, and its value is what all the reports with the fingerprint add up to.
-/

namespace CloudOffers.Metrics

/-- What a report is about. Each kind has a family of its own. -/
inductive Kind where
  | price
  | failure
  | region
  | provider
  | priceFailure
  | regionPrices
  | providerPrices
deriving DecidableEq

inductive Form where
  | gauge
  | counter
  | histogram

namespace Event

def kind : Event → Kind
  | .price .. => .price
  | .failure .. => .failure
  | .regionCompleted .. => .region
  | .providerCompleted .. => .provider
  | .priceFailure .. => .priceFailure
  | .regionPricesCompleted .. => .regionPrices
  | .providerPricesCompleted .. => .providerPrices

/-- The values of the labels, in the order in which they are reported. -/
def values : Event → List String
  | .price provider region instanceType _ => [provider, region, instanceType]
  | .failure provider service region | .regionCompleted provider service region _ =>
    [provider, service, region]
  | .providerCompleted provider _ | .providerPricesCompleted provider _ => [provider]
  | .priceFailure provider region | .regionPricesCompleted provider region _ => [provider, region]

/-- The price that is reported. -/
def amount : Event → Binary64
  | .price _ _ _ value => value
  | _ => .zero

/-- How long what is reported took, in nanoseconds. -/
def elapsed : Event → Nat
  | .regionCompleted _ _ _ elapsed | .providerCompleted _ elapsed | .regionPricesCompleted _ _ elapsed
  | .providerPricesCompleted _ elapsed => elapsed
  | _ => 0

/-- The seconds of the reports, added up one after the other. Of each the whole seconds and the rest are rounded,
and so is their sum. -/
def totalSeconds (es : List Event) : Binary64 :=
  es.foldl (fun total e ↦ total.sum ((Binary64.ofNat (e.elapsed / 1000000000)).sum
    (.ofRatio false (e.elapsed % 1000000000) 1000000000))) .zero

end Event

/-- One more duration counts in the buckets whose bounds are no shorter. -/
theorem Histogram.observe_mk (counts : Nat → Nat) (count : Nat) (sum : Binary64) (elapsed : Nat) :
    (Histogram.mk (bounds.map counts) count sum).observe elapsed =
      ⟨bounds.map (fun bound ↦ counts bound + if elapsed ≤ bound then 1 else 0), count + 1,
        sum.sum (seconds elapsed)⟩ := by
  rw [observe, List.zipWith_map_right, List.zipWith_self]
  refine congrArg (Histogram.mk · _ _) (List.map_congr_left fun bound hbound ↦ ?_)
  by_cases hle : elapsed ≤ bound <;> simp [hle, seconds_le_limit_iff hbound]

namespace Form

@[reducible] def Value : Form → Type
  | .gauge => Binary64
  | .counter => Nat
  | .histogram => Histogram

/-- The value of a sample after one more report. -/
def next (e : Event) : (f : Form) → Option f.Value → f.Value
  | .gauge, _ => e.amount
  | .counter, (n : Option Nat) => n.getD 0 + 1
  | .histogram, (h : Option Histogram) => (h.getD .empty).observe e.elapsed

/-- What reports add up to: the last price, their number, or how many took no longer than each bound. -/
def value (es : List Event) : (f : Form) → f.Value
  | .gauge => es.getLast?.elim Binary64.zero Event.amount
  | .counter => es.length
  | .histogram => Histogram.mk (bounds.map (fun bound ↦ es.countP (fun e ↦ e.elapsed ≤ bound))) es.length
      (Event.totalSeconds es)

theorem value_singleton (f : Form) (e : Event) : f.value [e] = f.next e none := by
  cases f with
  | gauge => rfl
  | counter => rfl
  | histogram =>
    simp only [value, next, Option.getD_none, Histogram.empty, Histogram.observe_mk, List.countP_singleton,
      decide_eq_true_eq, List.length_singleton, Nat.zero_add, Event.totalSeconds, List.foldl_cons, List.foldl_nil,
      seconds]

theorem value_concat (f : Form) (es : List Event) (e : Event) :
    f.value (es ++ [e]) = f.next e (some (f.value es)) := by
  cases f with
  | gauge => simp [value, next]
  | counter => simp [value, next]
  | histogram =>
    simp only [value, next, Option.getD_some, Histogram.observe_mk, List.countP_append, List.countP_singleton,
      decide_eq_true_eq, List.length_append, List.length_singleton, Event.totalSeconds, List.foldl_append,
      List.foldl_cons, List.foldl_nil, seconds]

end Form

namespace Kind

def form : Kind → Form
  | .price => .gauge
  | .failure | .priceFailure => .counter
  | .region | .provider | .regionPrices | .providerPrices => .histogram

def samples : (k : Kind) → Registry → Samples k.form.Value
  | .price, g => g.prices
  | .failure, g => g.failures
  | .region, g => g.regions
  | .provider, g => g.providers
  | .priceFailure, g => g.priceFailures
  | .regionPrices, g => g.regionPrices
  | .providerPrices, g => g.providerPrices

theorem samples_empty (k : Kind) : k.samples .empty = .empty := by
  cases k <;> rfl

theorem samples_record (k : Kind) (g : Registry) (e : Event) :
    k.samples (g.record e) =
      if e.kind = k then (k.samples g).update e.values (k.form.next e) else k.samples g := by
  cases k <;> cases e <;> rfl

end Kind

theorem Samples.get?_update {α : Type} (s : Samples α) (labels : List String) (f : Option α → α) (key : Nat) :
    (s.update labels f).get? key =
      if key = fingerprint labels then
        some (((s.get? key).map (·.1)).getD labels, f ((s.get? key).map (·.2)))
      else s.get? key := by
  rw [update, Dict.alter, Dict.get?_insert]
  split
  next hkey =>
    rw [hkey]
    cases s.get? (fingerprint labels) <;> rfl
  next => rfl

theorem Registry.ofEvents_concat (events : List Event) (e : Event) :
    ofEvents (events ++ [e]) = (ofEvents events).record e :=
  List.foldl_append

/-- The reports of a kind whose labels have some fingerprint. -/
def sharing (k : Kind) (key : Nat) (events : List Event) : List Event :=
  events.filter (fun e ↦ e.kind = k ∧ fingerprint e.values = key)

theorem get?_samples_ofEvents (k : Kind) (events : List Event) (key : Nat) :
    (k.samples (.ofEvents events)).get? key = (sharing k key events).head?.map (fun first ↦
      (first.values, k.form.value (sharing k key events))) := by
  induction events using List.reverseRecOn with
  | nil =>
    rw [Registry.ofEvents, List.foldl_nil, Kind.samples_empty]
    rfl
  | append_singleton events e ih =>
    have hsharing : sharing k key (events ++ [e]) = sharing k key events ++ sharing k key [e] := List.filter_append ..
    rw [Registry.ofEvents_concat, Kind.samples_record, hsharing]
    by_cases hthis : e.kind = k ∧ fingerprint e.values = key
    · have hone : sharing k key [e] = [e] := List.filter_cons_of_pos (decide_eq_true hthis)
      rw [if_pos hthis.1, Samples.get?_update, if_pos hthis.2.symm, ih, hone]
      cases sharing k key events with
      | nil => simp [Form.value_singleton]
      | cons first es => simp [← Form.value_concat]
    · have hnone : sharing k key [e] = [] := List.filter_cons_of_neg (by simpa using hthis)
      rw [hnone, List.append_nil, ← ih]
      split
      next hkind =>
        have hkey : key ≠ fingerprint e.values := fun h ↦ hthis ⟨hkind, h.symm⟩
        rw [Samples.get?_update, if_neg hkey]
      next => rfl

end CloudOffers.Metrics
