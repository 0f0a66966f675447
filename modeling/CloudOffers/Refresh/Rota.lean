import CloudOffers.Refresh.Guard
import CloudOffers.Refresh.Periodic
/-!
Which refresh cycles run. Every tick starts a cycle for each provider whose guard is free; a provider
that is busy is passed over and does not keep the others from starting.
-/

namespace CloudOffers

/-- A running cycle: who started it, for which provider by number, and its kind. -/
structure Flight where
  handle : Nat
  manager : Nat
  cycle : Cycle
deriving DecidableEq

/-- The providers in their order, the guards of their cycles, and the cycles that run. -/
structure Rota where
  providers : List String
  guards : List Guard
  flights : List Flight
deriving DecidableEq

inductive Decision where
  | start
  | busy
  | withoutPrices
deriving DecidableEq

namespace Rota

/-- The interval must not be zero, and there must be providers; they are taken by name. -/
def ofProviders {α : Type} (renewal : Nat) (providers : List (String × α)) :
    Except RefreshError (Rota × List (String × α)) :=
  if renewal = 0 then .error (.invalidInterval 0)
  else if providers.isEmpty then .error .noProviders
  else
    let sorted := providers.mergeSort (fun a b ↦ decide (a.1 ≤ b.1))
    .ok (⟨sorted.map (·.1), sorted.map (fun _ ↦ .free), []⟩, sorted)

/-- Price cycles are only for providers that offer current prices. -/
def decision (offers : Bool) (c : Cycle) (g : Guard) : Decision :=
  if c = .prices ∧ !offers then .withoutPrices
  else if g.isHeld c then .busy
  else .start

def decisionLog (provider : String) (c : Cycle) : Decision → List Log.Event
  | .start => []
  | .busy =>
    [Log.debug (match c with
      | .full => "previous refresh cycle still running, skipping"
      | .prices => "previous price refresh still running, skipping") [("provider", provider)]]
  | .withoutPrices =>
    [Log.debug "no short-lived prices, skipping price refresh" [("provider", provider)]]

/-- The decisions of a tick, by the number of the provider. -/
def decisions (r : Rota) (offers : Nat → Bool) (c : Cycle) : List (Nat × Decision) :=
  r.guards.zipIdx.map (fun (g, m) ↦ (m, decision (offers m) c g))

def starts (r : Rota) (offers : Nat → Bool) (c : Cycle) : List Nat :=
  (r.decisions offers c).filterMap (fun (m, d) ↦ if d = .start then some m else none)

def tick (r : Rota) (handle : Nat) (offers : Nat → Bool) (c : Cycle) : Rota where
  providers := r.providers
  guards := r.guards.zipIdx.map (fun (g, m) ↦
    if decision (offers m) c g = .start then g.set true c else g)
  flights := r.flights ++ (r.starts offers c).map (fun m ↦ ⟨handle, m, c⟩)

def tickLog (r : Rota) (offers : Nat → Bool) (c : Cycle) : List Log.Event :=
  (r.decisions offers c).flatMap (fun (m, d) ↦ decisionLog (r.providers.getD m "") c d)

def complete (r : Rota) (f : Flight) : Rota where
  providers := r.providers
  guards := r.guards.modify f.manager (fun g ↦ g.release f.cycle)
  flights := r.flights.erase f

def inFlight (r : Rota) (handle : Nat) : Nat := r.flights.countP (fun f ↦ f.handle = handle)

end Rota

end CloudOffers
