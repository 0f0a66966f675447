import CloudOffers.Refresh.Error
/-!
Work that is run again and again: at once, and then every interval until it is cancelled. Runs do not
overlap; a run that comes too late moves the runs after it. Times are in nanoseconds.
-/

namespace CloudOffers

/-- When the next run is due, and the interval to the one after it. -/
structure Ticker where
  interval : Nat
  due : Nat
deriving DecidableEq

namespace Ticker

/-- By how much a run may be late without moving the runs after it. -/
def tolerance : Nat := 5000000

/-- When the run that is due starts, if nothing can start earlier than `free`. -/
def start (t : Ticker) (free : Nat) : Nat := max t.due free

/-- The ticker once the run that was due has started. -/
def next (t : Ticker) (started : Nat) : Ticker where
  interval := t.interval
  due := (if t.due + tolerance < started then started else t.due) + t.interval

end Ticker

/-- Work on an interval, which is not zero. -/
structure Periodic where
  interval : Nat
  interval_pos : 0 < interval

namespace Periodic

def ofInterval (interval : Nat) : Except RefreshError Periodic :=
  if h : 0 < interval then .ok ⟨interval, h⟩ else .error (.invalidInterval interval)

/-- The first run is due at once. -/
def ticker (p : Periodic) : Ticker := ⟨p.interval, 0⟩

structure Span where
  start : Nat
  stop : Nat
deriving DecidableEq

/-- At most `n` runs that start before `bound`; the first of them is the `k`-th run. -/
def runsFrom (duration : Nat → Nat) (bound : Nat) : (n k : Nat) → Ticker → (free : Nat) → List Span
  | 0, _, _, _ => []
  | n + 1, k, t, free =>
    let start := t.start free
    if start < bound then
      ⟨start, start + duration k⟩ ::
        runsFrom duration bound n (k + 1) (t.next start) (start + duration k)
    else []

/-- The runs that start before `bound`, the `k`-th taking `duration k`. A run is due an interval after
the one before it at the earliest, so there are no more of them than intervals. -/
def runs (p : Periodic) (duration : Nat → Nat) (bound : Nat) : List Span :=
  runsFrom duration bound (bound / p.interval + 1) 0 p.ticker 0

/-- Whether no run goes on at `now` and none will start, for runs cancelled at some time. -/
def isOver (runs : List Span) (cancelled : Option Nat) (now : Nat) : Bool :=
  match cancelled with
  | some c => decide (c ≤ now) && runs.all (fun r ↦ decide (r.stop ≤ now))
  | none => false

end Periodic

end CloudOffers
