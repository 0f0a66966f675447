import CloudOffers.Refresh.Periodic
import Mathlib.Data.List.Basic
/-!
When work on an interval runs. What is due and what starts are kept apart: a run that is late by little moves
nothing, one that is late by more moves all that follow, and in neither case do runs catch up.
-/

namespace CloudOffers.Periodic

/-- The `k`-th run is due at `due k` and starts at `start k`: as soon as it is due and the run before it has
ended. The next one is due an interval later, counted from the start if that was late. -/
structure Delays (interval : Nat) (duration due start : Nat → Nat) : Prop where
  due_zero : due 0 = 0
  start_zero : start 0 = 0
  punctual : ∀ k, start k ≤ due k + 5000000 → due (k + 1) = due k + interval
  late : ∀ k, due k + 5000000 < start k → due (k + 1) = start k + interval
  start_succ : ∀ k, start (k + 1) = max (due (k + 1)) (start k + duration k)

namespace Delays

variable {interval : Nat} {duration due start : Nat → Nat} (h : Delays interval duration due start)

include h

theorem due_le_start (k : Nat) : due k ≤ start k := by
  cases k with
  | zero => exact Nat.le_of_eq (h.due_zero.trans h.start_zero.symm)
  | succ k =>
    rw [h.start_succ]
    exact Nat.le_max_left ..

theorem stop_le_start (k : Nat) : start k + duration k ≤ start (k + 1) := by
  rw [h.start_succ]
  exact Nat.le_max_right ..

theorem due_succ (k : Nat) : due k + interval ≤ due (k + 1) ∧ start k + interval ≤ due (k + 1) + 5000000 := by
  have hle := h.due_le_start k
  rcases Nat.lt_or_ge (due k + 5000000) (start k) with hlate | hpunctual
  · rw [h.late k hlate]
    omega
  · -- the next due time ignores by how much this start was late, at most the tolerance
    rw [h.punctual k hpunctual]
    omega

theorem due_add (k d : Nat) : due k + d * interval ≤ due (k + d) := by
  induction d with
  | zero => simp
  | succ d ih =>
    have hnext := (h.due_succ (k + d)).1
    rw [Nat.succ_mul, ← Nat.add_assoc k d 1]
    omega

theorem start_add (k d : Nat) : start k + d * interval ≤ start (k + d) + 5000000 := by
  cases d with
  | zero => simp
  | succ d =>
    have hnext := (h.due_succ k).2
    have hdue := h.due_add (k + 1) d
    have hstart := h.due_le_start (k + 1 + d)
    rw [Nat.succ_mul, Nat.add_left_comm k d 1, Nat.add_comm d, ← Nat.add_assoc]
    omega

theorem stop_le_start_of_lt {j k : Nat} (hjk : j < k) : start j + duration j ≤ start k := by
  induction k with
  | zero => omega
  | succ k ih =>
    rcases Nat.lt_or_eq_of_le (Nat.le_of_lt_succ hjk) with hlt | rfl
    · have hstop := h.stop_le_start k
      have hbefore := ih hlt
      omega
    · exact h.stop_le_start j

theorem start_mono {j k : Nat} (hjk : j ≤ k) : start j ≤ start k := by
  rcases Nat.lt_or_eq_of_le hjk with hlt | rfl
  · have hstop := h.stop_le_start_of_lt hlt
    omega
  · exact Nat.le_refl _

theorem start_of_short {k : Nat} (hshort : ∀ j < k, duration j < interval) :
    due k = k * interval ∧ start k = k * interval := by
  induction k with
  | zero => exact ⟨by rw [h.due_zero, Nat.zero_mul], by rw [h.start_zero, Nat.zero_mul]⟩
  | succ k ih =>
    obtain ⟨hdue, hstart⟩ := ih fun j hj ↦ hshort j (Nat.lt_succ_of_lt hj)
    have hlast := hshort k (Nat.lt_succ_self k)
    have hnext := h.punctual k (by omega)
    refine ⟨by rw [hnext, hdue, Nat.succ_mul], ?_⟩
    rw [h.start_succ, hnext, hdue, hstart, Nat.succ_mul]
    omega

end Delays

variable (p : Periodic) (duration : Nat → Nat)

/-- The ticker at the `k`-th run, and when that run can start at the earliest. -/
def awaited : Nat → Ticker × Nat
  | 0 => (p.ticker, 0)
  | k + 1 =>
    let (t, free) := awaited k
    (t.next (t.start free), t.start free + duration k)

def dueTime (k : Nat) : Nat := (p.awaited duration k).1.due

def startTime (k : Nat) : Nat := (p.awaited duration k).1.start (p.awaited duration k).2

theorem interval_awaited (k : Nat) : (p.awaited duration k).1.interval = p.interval := by
  induction k with
  | zero => rfl
  | succ k ih => exact ih

theorem dueTime_succ (k : Nat) : p.dueTime duration (k + 1) =
    (if p.dueTime duration k + 5000000 < p.startTime duration k then p.startTime duration k
      else p.dueTime duration k) + p.interval := by
  rw [← p.interval_awaited duration k]
  rfl

theorem delays : Delays p.interval duration (p.dueTime duration) (p.startTime duration) where
  due_zero := rfl
  start_zero := rfl
  punctual k hpunctual := by rw [dueTime_succ, if_neg (Nat.not_lt.2 hpunctual)]
  late k hlate := by rw [dueTime_succ, if_pos hlate]
  start_succ _ := rfl

def spanOf (k : Nat) : Span := ⟨p.startTime duration k, p.startTime duration k + duration k⟩

theorem runsFrom_awaited (bound n k : Nat) :
    runsFrom duration bound (n + 1) k (p.awaited duration k).1 (p.awaited duration k).2 =
      if p.startTime duration k < bound then p.spanOf duration k ::
        runsFrom duration bound n (k + 1) (p.awaited duration (k + 1)).1 (p.awaited duration (k + 1)).2
      else [] := rfl

theorem getElem?_runsFrom (bound n k j : Nat) :
    (runsFrom duration bound n k (p.awaited duration k).1 (p.awaited duration k).2)[j]? =
      if j < n ∧ p.startTime duration (k + j) < bound then some (p.spanOf duration (k + j)) else none := by
  induction n generalizing k j with
  | zero => simp [runsFrom]
  | succ n ih =>
    rw [runsFrom_awaited]
    by_cases hstart : p.startTime duration k < bound
    · rw [if_pos hstart]
      cases j with
      | zero => simp [hstart]
      | succ j =>
        rw [List.getElem?_cons_succ, ih, Nat.add_right_comm k 1 j]
        simp [Nat.add_assoc]
    · -- No later run starts either, as the runs start in order.
      have hlater := (p.delays duration).start_mono (Nat.le_add_right k j)
      have hnone : ¬(j < n + 1 ∧ p.startTime duration (k + j) < bound) := by omega
      rw [if_neg hstart, if_neg hnone, List.getElem?_nil]

/-- The bound on the number of runs cuts none off. -/
theorem getElem?_runs (bound k : Nat) : (p.runs duration bound)[k]? =
    if p.startTime duration k < bound then some (p.spanOf duration k) else none := by
  have hruns := p.getElem?_runsFrom duration bound (bound / p.interval + 1) 0 k
  rw [Nat.zero_add] at hruns
  refine hruns.trans (if_congr (and_iff_right_of_imp fun hstart ↦ ?_) rfl rfl)
  have hdue := (p.delays duration).due_add 0 k
  have hle := (p.delays duration).due_le_start k
  rw [(p.delays duration).due_zero, Nat.zero_add, Nat.zero_add] at hdue
  exact Nat.lt_succ_of_le ((Nat.le_div_iff_mul_le p.interval_pos).2 (by omega))

theorem getElem?_runs_eq_some_iff {bound k : Nat} {r : Span} : (p.runs duration bound)[k]? = some r ↔
    p.startTime duration k < bound ∧ p.spanOf duration k = r := by
  rw [getElem?_runs, Option.ite_none_right_eq_some, Option.some_inj]

/-- The runs of work on an interval that is cancelled at some time. -/
structure Scheduled (interval : Nat) (duration : Nat → Nat) (cancelled : Nat) (runs : List Span) : Prop where
  first : runs.head?.map Span.start = if 0 < cancelled then some 0 else none
  started : ∀ r ∈ runs, r.start < cancelled
  ended : ∀ k r, runs[k]? = some r → r.stop = r.start + duration k
  apart : runs.Pairwise fun r r' ↦ r.stop ≤ r'.start
  spaced : ∀ k d r r', runs[k]? = some r → runs[k + d]? = some r' → r.start + d * interval ≤ r'.start + 5000000
  punctual : ∀ k, (∀ j < k, duration j < interval) →
    runs[k]?.map Span.start = if k * interval < cancelled then some (k * interval) else none

theorem scheduled (cancelled : Nat) :
    Scheduled p.interval duration cancelled (p.runs duration cancelled) where
  first := by
    rw [List.head?_eq_getElem?, getElem?_runs, (p.delays duration).start_zero]
    split
    · exact congrArg some (p.delays duration).start_zero
    · rfl
  started r hr := by
    obtain ⟨k, hk⟩ := List.mem_iff_getElem?.1 hr
    obtain ⟨hstart, rfl⟩ := (p.getElem?_runs_eq_some_iff duration).1 hk
    exact hstart
  ended k r hk := by
    obtain ⟨-, rfl⟩ := (p.getElem?_runs_eq_some_iff duration).1 hk
    rfl
  apart := by
    refine List.pairwise_iff_getElem.2 fun j k hj hk hjk ↦ ?_
    obtain ⟨-, hr⟩ := (p.getElem?_runs_eq_some_iff duration).1 (List.getElem?_eq_getElem hj)
    obtain ⟨-, hr'⟩ := (p.getElem?_runs_eq_some_iff duration).1 (List.getElem?_eq_getElem hk)
    rw [← hr, ← hr']
    exact (p.delays duration).stop_le_start_of_lt hjk
  spaced k d r r' hk hkd := by
    obtain ⟨-, rfl⟩ := (p.getElem?_runs_eq_some_iff duration).1 hk
    obtain ⟨-, rfl⟩ := (p.getElem?_runs_eq_some_iff duration).1 hkd
    exact (p.delays duration).start_add k d
  punctual k hshort := by
    have hstart := ((p.delays duration).start_of_short hshort).2
    rw [getElem?_runs, hstart]
    split
    · exact congrArg some hstart
    · rfl

theorem ofInterval_eq_ok {interval : Nat} (h : 0 < interval) :
    ofInterval interval = .ok ⟨interval, h⟩ := dif_pos h

theorem interval_of_ofInterval {interval : Nat} {p : Periodic} (h : ofInterval interval = .ok p) :
    p.interval = interval := by
  rw [ofInterval] at h
  split at h
  · cases h
    rfl
  · cases h

/-- An interval of zero is refused. On any other, the times at which runs would start follow from how long
they take, and those before the cancellation are the runs there are. -/
theorem ofInterval_scheduled (interval : Nat) (duration : Nat → Nat) :
    (interval = 0 → ofInterval interval = .error (.invalidInterval 0)) ∧
    (interval ≠ 0 → ∃ p, ofInterval interval = .ok p ∧
      ∃ due start, Delays interval duration due start ∧ ∀ cancelled,
        (∀ k, (p.runs duration cancelled)[k]? =
          if start k < cancelled then some ⟨start k, start k + duration k⟩ else none) ∧
        Scheduled interval duration cancelled (p.runs duration cancelled)) := by
  constructor
  · intro hzero
    subst hzero
    rfl
  · intro hpos
    obtain ⟨p, hp, rfl⟩ : ∃ p, ofInterval interval = .ok p ∧ p.interval = interval :=
      ⟨_, ofInterval_eq_ok (Nat.pos_of_ne_zero hpos), rfl⟩
    exact ⟨p, hp, _, _, p.delays duration, fun cancelled ↦
      ⟨p.getElem?_runs duration cancelled, p.scheduled duration cancelled⟩⟩

/-- A run that ends five milliseconds late moves nothing, one that ends a nanosecond later does. -/
example : ((⟨100000000, by decide⟩ : Periodic).runs (fun k ↦ if k = 0 then 105000000 else 1) 200000001).map
    Span.start = [0, 105000000, 200000000] := by decide

example : ((⟨100000000, by decide⟩ : Periodic).runs (fun k ↦ if k = 0 then 105000001 else 1) 205000001).map
    Span.start = [0, 105000001] := by decide

end CloudOffers.Periodic
