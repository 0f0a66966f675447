import CloudOffers.Refresh.Rota
/-!
The refreshes of all providers on a clock that moves when everything waits. Two loops start the
cycles; the cycles run in turn, each until it waits for an answer. What is ready runs in the order in
which it became ready, and of what wakes at one time the first to fall asleep wakes first.
-/

namespace CloudOffers

/-- What a timeline takes place in: how sources behave, how long a request takes, and the time of the
wall clock at each moment of the timeline. Times are in nanoseconds. -/
structure Conditions (σ : Type) where
  source : Source σ
  delay : Request → σ → Nat
  wall : Nat → Nat

namespace Timeline

/-- How a piece of a cycle ends: with the cycle, with regions to visit, or with one of them. -/
inductive Outcome where
  | ended (c : Cycle)
  | regions (started : Nat) (ids : List String)
  | regionEnded

inductive Task where
  | loop (c : Cycle) (t : Ticker)
  | piece (manager : Nat) (p : Plan Outcome)
  | answer (manager : Nat) (r : Request) (next : r.Reply → Plan Outcome)

/-- A price cycle that waits for its regions. -/
structure Join where
  manager : Nat
  started : Nat
  remaining : Nat

structure Call where
  time : Nat
  manager : Nat
  request : Request

end Timeline

open Timeline

structure Timeline (σ : Type) where
  now : Nat
  cancelled : Bool
  rota : Rota
  sources : List σ
  store : Store
  ready : List Task
  /-- What sleeps, and until when, in the order of falling asleep. -/
  asleep : List (Nat × Task)
  joins : List Join
  calls : List Call
  events : List Metrics.Event
  logs : List Log.Event

namespace Timeline

variable {σ : Type}

/-- The handle under which the timeline's own loops start cycles. -/
def handle : Nat := 0

/-- Both loops are about to tick; nothing has happened yet. -/
def start (rota : Rota) (full prices : Periodic) (sources : List σ) (store : Store) : Timeline σ where
  now := 0
  cancelled := false
  rota := rota
  sources := sources
  store := store
  ready := [.loop .full full.ticker, .loop .prices prices.ticker]
  asleep := []
  joins := []
  calls := []
  events := []
  logs := [Log.info "started scraping" [("providers", toString rota.providers.length),
    ("renewal_interval_secs", toString (full.interval / 1000000000))]]

variable (w : Conditions σ)

def spawn (s : Timeline σ) (t : Task) : Timeline σ := { s with ready := s.ready ++ [t] }

def sleep (s : Timeline σ) (wake : Nat) (t : Task) : Timeline σ :=
  { s with asleep := s.asleep ++ [(max wake (s.now + 1), t)] }

/-- The plan of a cycle up to where its regions part. -/
def beginning (provider : String) : Cycle → Plan Outcome
  | .full => do FullRefresh.plan provider; return .ended .full
  | .prices => do
    let (started, ids) ← PriceRefresh.start provider
    return .regions started ids

def regionPiece (provider region : String) : Plan Outcome := do
  PriceRefresh.publishRegion provider region
  return .regionEnded

def lastPiece (provider : String) (started : Nat) : Plan Outcome := do
  PriceRefresh.finish provider started
  return .ended .prices

def act (s : Timeline σ) : Action → Timeline σ
  | .put k v => { s with store := s.store.put (w.wall s.now) k v }
  | .report e => { s with events := s.events ++ [e] }
  | .log e => { s with logs := s.logs ++ [e] }

def fork (s : Timeline σ) (manager : Nat) (started : Nat) (ids : List String) : Timeline σ :=
  let provider := s.rota.providers.getD manager ""
  if ids.isEmpty then s.spawn (.piece manager (lastPiece provider started))
  else
    { s with
      ready := s.ready ++ ids.map (fun id ↦ .piece manager (regionPiece provider id))
      joins := s.joins ++ [⟨manager, started, ids.length⟩] }

def join (s : Timeline σ) (manager : Nat) : Timeline σ :=
  match s.joins.find? (fun j ↦ j.manager = manager) with
  | none => s
  | some j =>
    let others := s.joins.filter (fun j ↦ j.manager ≠ manager)
    if j.remaining ≤ 1 then
      { s with joins := others }.spawn
        (.piece manager (lastPiece (s.rota.providers.getD manager "") j.started))
    else { s with joins := { j with remaining := j.remaining - 1 } :: others }

def conclude (s : Timeline σ) (manager : Nat) : Outcome → Timeline σ
  | .ended c => { s with rota := s.rota.complete ⟨handle, manager, c⟩ }
  | .regions started ids => s.fork manager started ids
  | .regionEnded => s.join manager

/-- Runs a piece until it ends or waits for an answer. -/
def advancePiece (manager : Nat) : Plan Outcome → Timeline σ → Timeline σ
  | .done outcome, s => s.conclude manager outcome
  | .ask r next, s =>
    match s.sources[manager]? with
    | none => s
    | some source =>
      let s := { s with calls := s.calls ++ [Call.mk s.now manager r] }
      if w.delay r source = 0 then
        let (reply, source') := w.source.answer r source
        advancePiece manager (next reply)
          { s with
            sources := s.sources.set manager source'
            logs := s.logs ++ w.source.notes r source }
      else s.sleep (s.now + w.delay r source) (.answer manager r next)
  | .askImages next, s =>
    advancePiece manager (next (match s.sources[manager]? with
      | some source => w.source.offersImages source
      | none => false)) s
  | .clock next, s => advancePiece manager (next (w.wall s.now)) s
  | .act a next, s => advancePiece manager next (act w s a)

def offersPrices (s : Timeline σ) (manager : Nat) : Bool :=
  match s.sources[manager]? with
  | some source => w.source.offersCurrentPrices source
  | none => false

/-- A tick. Before prices are refreshed, expired entries are removed. -/
def tick (s : Timeline σ) (c : Cycle) : Timeline σ :=
  let wall := w.wall s.now
  let purged := match c with
    | .full => s
    | .prices =>
      let n := s.store.expired wall
      { s with
        store := s.store.purge wall
        logs := s.logs ++ if n = 0 then [] else
          [Log.debug "purged expired cache entries" [("purged", toString n)]] }
  let offers := purged.offersPrices w
  let pieces := (purged.rota.starts offers c).map (fun m ↦
    Task.piece m (beginning (purged.rota.providers.getD m "") c))
  { purged with
    rota := purged.rota.tick handle offers c
    ready := purged.ready ++ pieces
    logs := purged.logs ++ purged.rota.tickLog offers c }

def runTask (s : Timeline σ) : Task → Timeline σ
  | .loop c t =>
    if s.cancelled then s
    else
      let next := t.next s.now
      (s.tick w c).sleep next.due (.loop c next)
  | .piece manager p => advancePiece w manager p s
  | .answer manager r next =>
    match s.sources[manager]? with
    | none => s
    | some source =>
      let (reply, source') := w.source.answer r source
      advancePiece w manager (next reply)
        { s with
          sources := s.sources.set manager source'
          logs := s.logs ++ w.source.notes r source }

/-- Runs what is ready, but not what becomes ready meanwhile. -/
def runReady (s : Timeline σ) : Timeline σ := s.ready.foldl (runTask w) { s with ready := [] }

/-- Runs until nothing is ready. A loop starts cycles, a cycle its regions, and the last of them the
end of the cycle, so after four rounds everything waits. -/
def settle (s : Timeline σ) : Timeline σ := runReady w (runReady w (runReady w (runReady w s)))

def nextWake (s : Timeline σ) : Option Nat := (s.asleep.map (·.1)).min?

/-- Moves the clock; those who wake then are ready. -/
def wakeAt (s : Timeline σ) (time : Nat) : Timeline σ where
  now := time
  cancelled := s.cancelled
  rota := s.rota
  sources := s.sources
  store := s.store
  ready := s.ready ++ (s.asleep.filter (fun e ↦ e.1 ≤ time)).map (·.2)
  asleep := s.asleep.filter (fun e ↦ !decide (e.1 ≤ time))
  joins := s.joins
  calls := s.calls
  events := s.events
  logs := s.logs

/-- Runs to a time, or until something holds when everything waits. -/
def runUntil (stop : Timeline σ → Bool) (limit : Nat) (s : Timeline σ) : Timeline σ :=
  let settled := s.settle w
  if stop settled then settled
  else
    match settled.nextWake with
    | none => { settled with now := limit }
    | some time =>
      if _h : s.now < time ∧ time ≤ limit then runUntil stop limit (settled.wakeAt time)
      else { settled with now := limit }
termination_by limit - s.now
decreasing_by
  simp only [wakeAt]
  omega

def advance (s : Timeline σ) (span : Nat) : Timeline σ := s.runUntil w (fun _ ↦ false) (s.now + span)

def inFlight (s : Timeline σ) : Nat := s.rota.inFlight handle

def cancel (s : Timeline σ) : Timeline σ := { s with cancelled := true }

/-- Cancels, and waits for the running cycles up to a timeout. Whether all of them ended is told. -/
def shutdown (s : Timeline σ) (timeout : Nat) : Bool × Timeline σ :=
  let s := s.cancel.runUntil w (fun s ↦ s.inFlight = 0) (s.now + timeout)
  let drained := s.inFlight = 0
  (drained, { s with logs := s.logs ++
    [if drained then Log.info "scraping stopped" []
    else Log.warn "shutdown timed out with refresh cycles in flight" [("in_flight", toString s.inFlight)]] })

end Timeline

end CloudOffers
