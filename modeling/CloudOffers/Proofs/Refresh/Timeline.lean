import CloudOffers.Proofs.Refresh.Pieces
/-!
The timeline as a driver: what it does is one of the orders in which a driver may do things, and what
its shutdown tells is true of every order in which things can go on.
-/

namespace CloudOffers

open Driver (Takes Runs)

namespace Timeline

variable {σ : Type} {w : Conditions σ} {s s' : Timeline σ} {d d' : Driver σ}
  {waiting waiting' : List (Nat × Plan Outcome)}

theorem Tracks.of_same (h : s.Tracks waiting d) (hs : s'.Agrees d)
    (hpieces : (s'.pieces ++ waiting').Perm (s.pieces ++ waiting)) (hjoins : s'.joins = s.joins) :
    s'.Tracks waiting' d where
  agrees := hs
  sound := h.sound
  loops := h.loops
  kinds := h.kinds
  pieces := hpieces.trans h.pieces
  joins := hjoins ▸ h.joins

theorem Tracks.follows (h : s.Tracks waiting d) : Follows w s waiting d :=
  ⟨[], d, .refl d, rfl, rfl, h⟩

theorem Follows.trans (h : Follows w s waiting d)
    (h' : ∀ {d}, s.Tracks waiting d → Follows w s' waiting' d) : Follows w s' waiting' d := by
  obtain ⟨l, d', hruns, hnow, hhalt, htracks⟩ := h
  obtain ⟨l', d'', hruns', hnow', hhalt', htracks'⟩ := h' htracks
  exact ⟨_, d'', hruns.trans hruns', hnow'.trans hnow, hhalt'.trans hhalt, htracks'⟩

section Ticks

variable {c : Cycle}

theorem tick_eq (w : Conditions σ) (s : Timeline σ) (c : Cycle) : ∃ logs, s.tick w c = { s with
    rota := s.rota.tick handle (s.offersPrices w) c
    store := match c with
      | .full => s.store
      | .prices => s.store.purge (w.wall s.now)
    ready := s.ready ++ (s.rota.starts (s.offersPrices w) c).map
      (fun m ↦ .piece m (beginning (s.rota.providers.getD m "") c))
    logs := logs } := by
  cases c <;> exact ⟨_, rfl⟩

/-- The pieces that a tick adds are those of the cycles that it starts. -/
theorem pieces_tick (h : s.Tracks waiting d) (w : Conditions σ) (c : Cycle) :
    (d.tick w.source w.wall c).pieces = d.pieces ++ (d.rota.starts (d.offersPrices w.source) c).map
      (fun m ↦ (m, beginning (d.rota.providers.getD m "") c)) := by
  have hold : d.rota.flights.flatMap (d.tick w.source w.wall c).piecesOf = d.pieces := by
    refine List.flatMap_congr fun f hf ↦ ?_
    rw [Driver.piecesOf, Driver.piecesOf, h.sound.courses_tick hf]
  have hnew : ∀ m ∈ d.rota.starts (d.offersPrices w.source) c,
      (d.tick w.source w.wall c).piecesOf ⟨handle, m, c⟩ =
        [(m, beginning (d.rota.providers.getD m "") c)] := by
    intro m hm
    have hcourse : (d.tick w.source w.wall c).courses ⟨handle, m, c⟩ = .start _ c := if_pos ⟨rfl, hm⟩
    rw [Driver.piecesOf, hcourse, Course.pieces_start]
    rfl
  change (d.rota.flights ++ List.map _ _).flatMap _ = _
  rw [List.flatMap_append, hold, List.flatMap_map, List.map_eq_flatMap]
  exact congrArg _ (List.flatMap_congr hnew)

theorem Tracks.tick (h : s.Tracks waiting d)
    (hticked : Takes w.source w.wall d (.ticked c) (d.tick w.source w.wall c)) :
    (s.tick w c).Tracks waiting (d.tick w.source w.wall c) := by
  have hoffers : d.offersPrices w.source = s.offersPrices w := by
    funext m
    have hsame : d.sources[m]? = s.sources[m]? := congrArg (·[m]?) h.agrees.sources
    cases hsource : s.sources[m]? <;> simp only [Driver.offersPrices, offersPrices, hsame, hsource]
  have hstarted {f : Flight} (hf : f ∉ d.rota.flights)
      (hf' : f ∈ (d.tick w.source w.wall c).rota.flights) :
      (d.tick w.source w.wall c).courses f = .start (d.provider f) f.cycle :=
    (hticked.started h.sound hf hf').2.1
  obtain ⟨logs, hs⟩ := tick_eq w s c
  rw [hs]
  refine ⟨?_, h.sound.takes hticked, h.loops, fun f hf' ↦ ?_, ?_, fun m ↦ ?_⟩
  · refine ⟨h.agrees.now, h.agrees.cancelled, ?_, h.agrees.sources, ?_⟩
    · change d.rota.tick handle (d.offersPrices w.source) c = _
      rw [h.agrees.rota, hoffers]
    · cases c with
      | full => exact h.agrees.store
      | prices =>
        change d.store.purge (w.wall d.now) = s.store.purge (w.wall s.now)
        rw [h.agrees.store, h.agrees.now]
  · by_cases hf : f ∈ d.rota.flights
    · rw [h.sound.courses_tick hf]
      exact h.kinds f hf
    · rw [hstarted hf hf', Course.cycle_start]
  · rw [pieces_tick h, hoffers, h.agrees.rota]
    have hready := pieces_ready s id (fun m ↦ beginning (s.rota.providers.getD m "") c)
      (s.rota.starts (s.offersPrices w) c)
    refine (hready.append_right waiting).trans ?_
    rw [List.append_assoc]
    refine (List.perm_append_comm.append_left _).trans ?_
    rw [← List.append_assoc]
    exact h.pieces.append_right _
  · refine (h.joins m).trans ?_
    rw [Driver.join?, Driver.join?]
    by_cases hf : ⟨handle, m, .prices⟩ ∈ d.rota.flights
    · have hf' : ⟨handle, m, .prices⟩ ∈ (d.tick w.source w.wall c).rota.flights :=
        List.mem_append_left _ hf
      rw [if_pos hf, if_pos hf', h.sound.courses_tick hf]
    · rw [if_neg hf]
      split
      · next hf' =>
        rw [hstarted hf hf']
        rfl
      · rfl

theorem Tracks.loop (h : s.Tracks waiting d) (w : Conditions σ) (c : Cycle) (t : Ticker) :
    Follows w (runTask w s (.loop c t)) waiting d := by
  rw [runTask]
  split
  · exact h.follows
  · next hc =>
    have hc' : d.cancelled = false := h.agrees.cancelled.trans (Bool.eq_false_iff.2 hc)
    have hloop : c ∈ d.loops := by
      rw [h.loops hc']
      cases c <;> decide
    have hticked : Takes w.source w.wall d (.ticked c) _ := .ticked hloop hc'
    have htick := h.tick hticked
    refine ⟨_, _, .step hticked (.refl _), rfl, rfl, htick.of_same ?_ ?_ rfl⟩
    · exact htick.agrees.same rfl
    · rw [pieces_sleep]
      exact .of_eq (congrArg (· ++ waiting) (List.append_nil _))

end Ticks

theorem Tracks.piece {m : Nat} {p : Plan Outcome} {t : Task}
    (h : s.Tracks ((m, p) :: waiting) d) (w : Conditions σ) (ht : t.piece? = some (m, p)) :
    Follows w (runTask w s t) waiting d := by
  have hmem : (m, p) ∈ d.pieces := h.pieces.subset (List.mem_append_right _ List.mem_cons_self)
  obtain ⟨f, hf, hmem⟩ := List.mem_flatMap.1 hmem
  obtain ⟨_, hp, ⟨⟩⟩ := List.mem_map.1 hmem
  cases hcourse : d.courses f with
  | full q =>
    exact h.ending hf ht .full .full .full (fun _ ↦ rfl) (fun _ _ ↦ rfl) (fun _ ↦ rfl) .full hcourse
      (hcourse ▸ hp)
  | listing q => exact h.listing hf ht hcourse (hcourse ▸ hp)
  | visiting started regions => exact h.region hf ht hcourse (hcourse ▸ hp)
  | closing q =>
    exact h.ending hf ht .closing .prices .closing (fun _ ↦ rfl) (fun _ _ ↦ rfl) (fun _ ↦ rfl) .prices
      hcourse (hcourse ▸ hp)

theorem Tracks.runTasks (w : Conditions σ) (tasks : List Task)
    (h : s.Tracks (tasks.filterMap Task.piece?) d) :
    Follows w (tasks.foldl (runTask w) s) [] d := by
  induction tasks generalizing s d with
  | nil => exact h.follows
  | cons t tasks ih =>
    have hfirst : Follows w (runTask w s t) (tasks.filterMap Task.piece?) d := by
      cases t with
      | loop c ticker => exact h.loop w c ticker
      | piece m p => exact h.piece w rfl
      | answer m r next => exact h.piece w rfl
    exact hfirst.trans ih

theorem Tracks.runReady (h : s.Tracks [] d) (w : Conditions σ) : Follows w (runReady w s) [] d := by
  refine Tracks.runTasks w s.ready (h.of_same ?_ ?_ rfl)
  · exact h.agrees.same rfl
  · rw [List.append_nil, Timeline.pieces, Timeline.pieces, List.filterMap_append,
      List.filterMap_append]
    exact List.perm_append_comm

theorem Tracks.settle (h : s.Tracks [] d) (w : Conditions σ) : Follows w (settle w s) [] d :=
  (((h.runReady w).trans (·.runReady w)).trans (·.runReady w)).trans (·.runReady w)

/-- A driver can go on, while time passes, to where it tracks a timeline. -/
def Accompanies (w : Conditions σ) (s : Timeline σ) (d : Driver σ) : Prop :=
  ∃ l d', Runs w.source w.wall d l d' ∧ d'.halt = d.halt ∧ s.Tracks [] d'

theorem Accompanies.of_runs {l : Driver.Chronicle} (h : Accompanies w s d')
    (hruns : Runs w.source w.wall d l d') (hhalt : d'.halt = d.halt) : Accompanies w s d := by
  obtain ⟨l', e, hruns', hhalt', htracks⟩ := h
  exact ⟨_, e, hruns.trans hruns', hhalt'.trans hhalt, htracks⟩

section Clock

variable {time limit : Nat} {stop : Timeline σ → Bool}

theorem Tracks.passes (h : s.Tracks [] d) (w : Conditions σ) (hle : s.now ≤ time)
    (hin : ∀ deadline, d.halt = .draining deadline → time ≤ deadline) :
    Takes w.source w.wall d (.passed (time - s.now)) { d with now := time } ∧
      ({ s with now := time } : Timeline σ).Tracks [] { d with now := time } := by
  have htime : d.now + (time - s.now) = time := by rw [h.agrees.now, Nat.add_sub_cancel' hle]
  have hpassed : Takes w.source w.wall d (.passed (time - s.now)) _ :=
    .passed _ (htime.symm ▸ hin)
  rw [htime] at hpassed
  have ha := h.agrees
  exact ⟨hpassed, ⟨rfl, ha.cancelled, ha.rota, ha.sources, ha.store⟩, h.sound.takes hpassed, h.loops,
    h.kinds, h.pieces, h.joins⟩

/-- Everything that is ready runs before time passes. -/
theorem Tracks.settles (h : s.Tracks [] d) (w : Conditions σ) (hle : s.now ≤ time)
    (hin : ∀ deadline, d.halt = .draining deadline → time ≤ deadline) :
    Accompanies w { s.settle w with now := time } d := by
  obtain ⟨l, d', hruns, hnow, hhalt, hsettled⟩ := h.settle w
  have hle' : (s.settle w).now ≤ time := by
    rwa [← hsettled.agrees.now, hnow, h.agrees.now]
  obtain ⟨hpassed, htracks⟩ := hsettled.passes w hle' (hhalt ▸ hin)
  exact ⟨_, _, hruns.trans (.step hpassed (.refl _)), hhalt, htracks⟩

theorem Tracks.wakeAt (h : ({ s with now := time } : Timeline σ).Tracks [] d) :
    (s.wakeAt time).Tracks [] d := by
  refine h.of_same (h.agrees.same rfl) ?_ rfl
  have hasleep : (s.asleep.filter (fun e ↦ e.1 ≤ time) ++
      s.asleep.filter (fun e ↦ !decide (e.1 ≤ time))).Perm s.asleep := List.filter_append_perm ..
  simp only [List.append_nil, Timeline.pieces, Timeline.wakeAt, List.append_assoc, ← List.map_append]
  exact ((hasleep.map _).append_left _).filterMap _

theorem stopped_of_runUntil (w : Conditions σ) (stop : Timeline σ → Bool) (limit : Nat)
    (s : Timeline σ) :
    stop (s.runUntil w stop limit) = true ∨ (s.runUntil w stop limit).now = limit := by
  fun_induction runUntil w stop limit s with
  | case1 s settled hstop => exact .inl hstop
  | case2 => exact .inr rfl
  | case3 s settled _ time _ _ ih => exact ih
  | case4 => exact .inr rfl

theorem Tracks.runUntil (w : Conditions σ) (stop : Timeline σ → Bool) (h : s.Tracks [] d)
    (hle : s.now ≤ limit) (hin : ∀ deadline, d.halt = .draining deadline → limit ≤ deadline) :
    Accompanies w (s.runUntil w stop limit) d := by
  fun_induction Timeline.runUntil w stop limit s generalizing d with
  | case1 =>
    obtain ⟨l, d', hruns, -, hhalt, hsettled⟩ := h.settle w
    exact ⟨l, d', hruns, hhalt, hsettled⟩
  | case2 | case4 => exact h.settles w hle hin
  | case3 s settled _ time _ htime =>
    rename_i ih
    obtain ⟨l, d', hruns, hhalt, hsettled⟩ := h.settles w htime.1.le
      (fun deadline hdraining ↦ htime.2.trans (hin deadline hdraining))
    exact (ih hsettled.wakeAt htime.2 (hhalt ▸ hin)).of_runs hruns hhalt

end Clock

theorem Tracks.advance (h : s.Tracks [] d) (w : Conditions σ) (span : Nat)
    (hin : ∀ deadline, d.halt ≠ .draining deadline) : Accompanies w (s.advance w span) d :=
  h.runUntil w _ (Nat.le_add_right ..) fun deadline hdraining ↦ absurd hdraining (hin deadline)

theorem Tracks.cancel (h : s.Tracks [] d) (w : Conditions σ) :
    s.cancel.Tracks [] { d with cancelled := true } := by
  have hcancelled : Takes w.source w.wall d .cancelled _ := .cancelled
  have ha := h.agrees
  exact ⟨⟨ha.now, rfl, ha.rota, ha.sources, ha.store⟩, h.sound.takes hcancelled, nofun, h.kinds,
    h.pieces, h.joins⟩

theorem Tracks.changed (h : s.Tracks [] d) (w : Conditions σ) (m : Nat) (x : σ) :
    ({ s with sources := s.sources.set m x } : Timeline σ).Tracks []
      { d with sources := d.sources.set m x } := by
  have hchanged : Takes w.source w.wall d (.changed m) _ := .changed m x
  have ha := h.agrees
  exact ⟨⟨ha.now, ha.cancelled, ha.rota, congrArg (List.set · m x) ha.sources, ha.store⟩,
    h.sound.takes hchanged, h.loops, h.kinds, h.pieces, h.joins⟩

section Shutdown

variable {timeout : Nat}

/-- Both loops end before the shutdown waits for the cycles. -/
theorem Tracks.stops (h : s.Tracks [] d) (w : Conditions σ) (hhalt : d.halt = .unasked)
    (timeout : Nat) : ∃ before a b, Runs w.source w.wall d before a ∧ a.loops = [] ∧
      Takes w.source w.wall a .draining b ∧ b.halt = .draining (s.now + timeout) ∧
      s.cancel.Tracks [] b := by
  have hstopping : Takes w.source w.wall d (.stopping timeout) _ := .stopping timeout hhalt
  let stopping : Driver σ := { d with cancelled := true, halt := .joining timeout }
  obtain ⟨l, hended⟩ : ∃ l, Runs w.source w.wall stopping l { stopping with loops := [] } :=
    Driver.runs_loopsEnded _ rfl rfl
  have hbefore := Runs.step hstopping hended
  have hdraining : Takes w.source w.wall { stopping with loops := [] } .draining _ :=
    .draining rfl rfl
  have ha := h.agrees
  refine ⟨_, _, _, hbefore, rfl, hdraining, by rw [← ha.now], ?_⟩
  exact ⟨⟨ha.now, rfl, ha.rota, ha.sources, ha.store⟩,
    (hbefore.sound h.sound).takes hdraining, nofun, h.kinds, h.pieces, h.joins⟩

theorem Tracks.returns (h : s.Tracks [] d) (w : Conditions σ) {deadline : Nat}
    (hhalt : d.halt = .draining deadline) (hnow : s.inFlight = 0 ∨ s.now = deadline)
    (logs : List Log.Event) : ∃ d',
      Takes w.source w.wall d (.returned (decide (s.inFlight = 0))) d' ∧
        d'.halt = .returned (decide (s.inFlight = 0)) ∧
        ({ s with logs := logs } : Timeline σ).Tracks [] d' := by
  have ha := h.agrees
  have hreturned : Takes w.source w.wall d (.returned (decide (s.inFlight = 0)))
      { d with halt := .returned (decide (s.inFlight = 0)) } := by
    have hrota : d.rota.inFlight handle = s.inFlight := by rw [ha.rota]; rfl
    by_cases hnone : s.inFlight = 0
    · rw [decide_eq_true hnone]
      exact .drained hhalt (hrota.trans hnone)
    · rw [decide_eq_false hnone]
      refine .timedOut ?_ (hrota ▸ hnone)
      rw [hhalt, ha.now, hnow.resolve_left hnone]
  exact ⟨_, hreturned, rfl, ⟨ha.now, ha.cancelled, ha.rota, ha.sources, ha.store⟩,
    h.sound.takes hreturned, h.loops, h.kinds, h.pieces, h.joins⟩

theorem Tracks.shutdown (h : s.Tracks [] d) (w : Conditions σ) (hhalt : d.halt = .unasked)
    (timeout : Nat) : ∃ before a between c d', Runs w.source w.wall d before a ∧ a.loops = [] ∧
      Runs w.source w.wall a between c ∧ c.halt = .draining (s.now + timeout) ∧
      Takes w.source w.wall c (.returned (s.shutdown w timeout).1) d' ∧
      d'.halt = .returned (s.shutdown w timeout).1 ∧ (s.shutdown w timeout).2.Tracks [] d' := by
  obtain ⟨before, a, b, hbefore, hloops, hdraining, hb, hcancelled⟩ := h.stops w hhalt timeout
  have hin (deadline : Nat) (hd : b.halt = .draining deadline) : s.now + timeout ≤ deadline := by
    rw [hb] at hd
    cases hd
    exact Nat.le_refl _
  obtain ⟨l, c, hruns, hc, htracks⟩ :=
    hcancelled.runUntil w (fun s ↦ s.inFlight = 0) (Nat.le_add_right ..) hin
  have hstopped := stopped_of_runUntil w (fun s ↦ s.inFlight = 0) (s.now + timeout) s.cancel
  rw [decide_eq_true_iff] at hstopped
  obtain ⟨d', hreturned, hd', hend⟩ := htracks.returns w (hc.trans hb) hstopped _
  exact ⟨before, a, _, c, d', hbefore, hloops, .step hdraining hruns, hc.trans hb, hreturned, hd', hend⟩

end Shutdown

/-- A driver that was started can have come to where it tracks a timeline, and was not shut down. -/
def Reached (w : Conditions σ) (origin : Driver σ) (s : Timeline σ) : Prop :=
  ∃ l d, Runs w.source w.wall origin l d ∧ d.halt = .unasked ∧ s.Tracks [] d

section Reached

variable {origin : Driver σ} {renewal : Nat} {providers sorted : List (String × σ)} {r : Rota}
  {store : Store}

theorem reached_start (hr : Rota.ofProviders renewal providers = .ok (r, sorted))
    (w : Conditions σ) (full prices : Periodic) (store : Store) :
    Reached w (.start r (sorted.map (·.2)) store)
      (.start r full prices (sorted.map (·.2)) store) := by
  obtain ⟨-, -, -, hflights⟩ := Rota.ofProviders_guarded hr
  obtain ⟨-, hsound⟩ : Driver.Recorded w.source [] _ ∧ _ := Driver.start_sound hr store
  refine ⟨[], _, .refl _, rfl, ⟨rfl, rfl, rfl, rfl, rfl⟩, hsound, fun _ ↦ rfl,
    fun f _ ↦ Course.cycle_start .., ?_, fun m ↦ ?_⟩
  · have hnone : (Driver.start r (sorted.map (·.2)) store).pieces = [] := by
      change r.flights.flatMap _ = []
      rw [hflights]
      rfl
    rw [hnone]
    exact .refl _
  · have hnone : ⟨handle, m, .prices⟩ ∉ (Driver.start r (sorted.map (·.2)) store).rota.flights := by
      change _ ∉ r.flights
      rw [hflights]
      exact List.not_mem_nil
    rw [Driver.join?, if_neg hnone]
    rfl

theorem Reached.advance (h : Reached w origin s) (span : Nat) : Reached w origin (s.advance w span) := by
  obtain ⟨l, d, hruns, hhalt, htracks⟩ := h
  obtain ⟨l', d', hruns', hhalt', htracks'⟩ := htracks.advance w span fun _ ↦ by simp [hhalt]
  exact ⟨_, d', hruns.trans hruns', hhalt'.trans hhalt, htracks'⟩

theorem Reached.cancel (h : Reached w origin s) : Reached w origin s.cancel := by
  obtain ⟨l, d, hruns, hhalt, htracks⟩ := h
  exact ⟨_, _, hruns.trans (.step .cancelled (.refl _)), hhalt, htracks.cancel w⟩

theorem Reached.changed (h : Reached w origin s) (m : Nat) (x : σ) :
    Reached w origin { s with sources := s.sources.set m x } := by
  obtain ⟨l, d, hruns, hhalt, htracks⟩ := h
  exact ⟨_, _, hruns.trans (.step (.changed m x) (.refl _)), hhalt, htracks.changed w m x⟩

/-- A timeline that was begun and since then went on, was cancelled or had its sources changed, in any order. -/
inductive Operated (w : Conditions σ) (origin : Timeline σ) : Timeline σ → Prop
  | begun : Operated w origin origin
  | advanced {t : Timeline σ} (span : Nat) : Operated w origin t → Operated w origin (t.advance w span)
  | cancelled {t : Timeline σ} : Operated w origin t → Operated w origin t.cancel
  | changed {t : Timeline σ} (m : Nat) (x : σ) :
      Operated w origin t → Operated w origin { t with sources := t.sources.set m x }

theorem Operated.reached (hr : Rota.ofProviders renewal providers = .ok (r, sorted)) {full prices : Periodic}
    (h : Operated w (.start r full prices (sorted.map (·.2)) store) s) :
    Reached w (.start r (sorted.map (·.2)) store) s := by
  induction h with
  | begun => exact reached_start hr w full prices store
  | advanced span _ ih => exact ih.advance span
  | cancelled _ ih => exact ih.cancel
  | changed m x _ ih => exact ih.changed m x

/-- What the shutdown of a timeline does. It is one that a driver returns from, so what is told of any
driver is told of it. -/
structure ShutsDown (w : Conditions σ) (origin : Driver σ) (s : Timeline σ) (timeout : Nat) : Prop where
  told : ∃ before a between c d, Runs w.source w.wall origin before a ∧ a.loops = [] ∧
    Runs w.source w.wall a between c ∧ c.halt = .draining (s.now + timeout) ∧
    Takes w.source w.wall c (.returned (s.shutdown w timeout).1) d ∧
    Driver.Told w.source w.wall before a between c (s.shutdown w timeout).1 d ∧
    (s.shutdown w timeout).2.Agrees d
  drained_iff : (s.shutdown w timeout).1 = true ↔ (s.shutdown w timeout).2.rota.flights = []
  inTime : (s.shutdown w timeout).2.now ≤ s.now + timeout
  timedOut : (s.shutdown w timeout).1 = false → (s.shutdown w timeout).2.now = s.now + timeout
  idle : (s.shutdown w timeout).1 = true → ∀ span,
    ((s.shutdown w timeout).2.advance w span).rota.flights = [] ∧
      ((s.shutdown w timeout).2.advance w span).store = (s.shutdown w timeout).2.store
  held : ∀ f ∈ (s.shutdown w timeout).2.rota.flights,
    (s.shutdown w timeout).2.rota.holds f.manager f.cycle = true

theorem Reached.shutsDown (hr : Rota.ofProviders renewal providers = .ok (r, sorted))
    (h : Reached w (.start r (sorted.map (·.2)) store) s) (timeout : Nat) :
    ShutsDown w (.start r (sorted.map (·.2)) store) s timeout := by
  obtain ⟨l, d, hruns, hhalt, htracks⟩ := h
  obtain ⟨before, a, between, c, d', hbefore, hloops, hbetween, hdraining, hreturned, hd', hend⟩ :=
    htracks.shutdown w hhalt timeout
  have ha : Runs w.source w.wall _ _ a := hruns.trans hbefore
  have htold := (Driver.quiet_of_runs hr ha).told hloops _ _ _ _ hbetween hreturned
  have hstart : Driver.Recorded w.source [] _ ∧ _ := Driver.start_sound hr store
  have hc : c.Sound := hbetween.sound (ha.sound hstart.2)
  obtain ⟨hdrained, hrota, deadline, hdeadline, hnow⟩ := hreturned.of_returned hc
  obtain rfl : deadline = s.now + timeout := by
    rw [hdraining] at hdeadline
    cases hdeadline
    rfl
  have hclock : (s.shutdown w timeout).2.now = c.now := hend.agrees.now.symm.trans hreturned.now_of_returned
  exact
    { told := ⟨_, a, between, c, d', ha, hloops, hbetween, hdraining, hreturned, htold, hend.agrees⟩
      drained_iff := by rw [hdrained, ← hrota, hend.agrees.rota]
      inTime := hclock ▸ hc.inTime _ hdraining
      timedOut := fun hfalse ↦ hclock.trans (hnow hfalse)
      idle := fun htrue span ↦ by
        obtain ⟨l', e, hafter, -, htracks'⟩ := hend.advance w span fun _ ↦ by simp [hd']
        obtain ⟨hflights, hstore, -⟩ := (htold.idle htrue).2 l' e hafter
        rw [← htracks'.agrees.rota, ← htracks'.agrees.store, ← hend.agrees.store]
        exact ⟨hflights, hstore⟩
      held := fun f hf ↦ by
        rw [← hend.agrees.rota] at hf ⊢
        exact hend.sound.dispatched.guarded.holds_of_mem hf }

end Reached

end Timeline

namespace Driver

open Timeline (ShutsDown Operated)

variable {σ : Type}

/-- A source that takes a second for each answer. -/
def slowConditions : Conditions Unit where
  source := .mute
  delay _ _ := 1000000000
  wall := id

end Driver

end CloudOffers
