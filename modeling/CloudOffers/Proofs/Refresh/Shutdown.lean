import CloudOffers.Proofs.Refresh.Driver
/-!
What a shutdown tells. A driver that was cancelled begins nothing; a shutdown that returns `true` leaves
nothing behind, and one that returns `false` leaves cycles that keep their guards and go on to their
ends.
-/

namespace CloudOffers.Driver

variable {σ : Type} {src : Source σ} {wall : Nat → Nat} {a c d : Driver σ} {before between : Chronicle}
  {drained : Bool}

/-- Whether a loop or a cycle does something. -/
def Occurrence.works : Occurrence → Bool
  | .ticked _ | .moved .. | .completed _ => true
  | _ => false

/-- What a shutdown has told that returned between `c` and `d`. In the state `a`, after `before`, both
loops had ended. -/
structure Told (src : Source σ) (wall : Nat → Nat) (before : Chronicle) (a : Driver σ)
    (between : Chronicle) (c : Driver σ) (drained : Bool) (d : Driver σ) : Prop where
  deadline : ∃ timeout asked joined, (asked, .stopping timeout) ∈ before ++ between ∧
    (joined, .draining) ∈ before ++ between ∧ c.now ≤ joined + timeout ∧
    (drained = false → c.now = joined + timeout)
  drained_iff : drained = true ↔
    ∀ f ∈ a.rota.flights, ∃ time ≤ c.now, (time, .completed f) ∈ between
  idle : drained = true → d.rota.flights = [] ∧ ∀ after e, Runs src wall d after e →
    e.rota.flights = [] ∧ e.store = d.store ∧ ∀ x ∈ after, x.2.works = false
  /-- A cycle that is left was started by a tick, and it does all that belongs to it before it is
  completed, as it can be at any time. -/
  left : drained = false → d.rota.flights ≠ [] ∧ ∀ f ∈ d.rota.flights, ∃ l time since,
    before ++ between ++ [(c.now, .returned false)] = l ++ (time, .ticked f.cycle) :: since ∧
    (∀ time, (time, .completed f) ∉ since) ∧ ∀ after e, Runs src wall d after e →
      ((∀ time, (time, .completed f) ∉ after) → e.rota.holds f.manager f.cycle = true ∧
        ∃ later g, Runs src wall e later g ∧ (e.now, .completed f) ∈ later) ∧
      ∀ first time rest, after = first ++ (time, .completed f) :: rest →
        Course.Reaches src (d.provider f) f.cycle (Chronicle.own f (since ++ first)) (.ended f.cycle)
  store : ∀ after e, Runs src wall d after e → e.store = d.store.replay (Chronicle.steps after)

theorem Takes.of_returned (h : Takes src wall c (.returned drained) d) (hc : c.Sound) :
    (drained = true ↔ c.rota.flights = []) ∧ d.rota = c.rota ∧ ∃ deadline,
      c.halt = .draining deadline ∧ (drained = false → c.now = deadline) := by
  cases h with
  | drained hhalt hnone =>
    have hempty := hc.inFlight_eq_zero_iff.1 hnone
    exact ⟨⟨fun _ ↦ hempty, fun _ ↦ rfl⟩, rfl, _, hhalt, nofun⟩
  | timedOut hhalt hsome =>
    have hne := mt hc.inFlight_eq_zero_iff.2 hsome
    exact ⟨⟨nofun, fun hempty ↦ absurd hempty hne⟩, rfl, _, hhalt, fun _ ↦ rfl⟩

theorem Takes.now_of_returned (h : Takes src wall c (.returned drained) d) : d.now = c.now := by
  cases h <;> rfl

theorem Takes.idle {x : Occurrence} {d' : Driver σ} (h : Takes src wall d x d')
    (hc : d.cancelled = true) (hnone : d.rota.flights = []) :
    d'.rota.flights = [] ∧ d'.store = d.store ∧ x.works = false := by
  have hunticked := h.unticked hc
  cases h with
  | ticked => exact absurd rfl (hunticked _)
  | moved hf | completed hf =>
    rw [hnone] at hf
    cases hf
  | _ => exact ⟨hnone, rfl, rfl⟩

theorem Runs.idle {l : Chronicle} {e : Driver σ} (h : Runs src wall d l e) (hd : d.Sound)
    (hc : d.cancelled = true) (hnone : d.rota.flights = []) :
    e.rota.flights = [] ∧ e.store = d.store ∧ ∀ x ∈ l, x.2.works = false := by
  induction h with
  | refl d => exact ⟨hnone, rfl, nofun⟩
  | step hx _ ih =>
    obtain ⟨hnone', hstore, hworks⟩ := hx.idle hc hnone
    obtain ⟨hflights, hrest, hall⟩ := ih (hd.takes hx) (hx.winds hd hc).cancelled hnone'
    exact ⟨hflights, hrest.trans hstore, List.forall_mem_cons.2 ⟨hworks, hall⟩⟩

theorem told_of_returned (hl : Recorded src before a) (ha : a.Sound) (hloops : a.loops = [])
    (h : Runs src wall a between c) (hreturned : Takes src wall c (.returned drained) d) :
    Told src wall before a between c drained d := by
  have hwinds := h.winds ha (ha.ended hloops)
  obtain ⟨hc, hcSound⟩ := hl.runs ha h
  have hd : d.Sound := hcSound.takes hreturned
  have hcancelled : d.cancelled = true := (hreturned.winds hcSound hwinds.cancelled).cancelled
  have hdRecorded := hc.takes hcSound hreturned
  obtain ⟨hdrained, hrota, deadline, hhalt, hnow⟩ := hreturned.of_returned hcSound
  refine ⟨?_, ?_, fun htrue ↦ ?_, fun hfalse ↦ ?_, fun after e hafter ↦ (hafter.winds hd hcancelled).store⟩
  case refine_1 =>
    obtain ⟨timeout, asked, joined, hasked, hjoined, rfl⟩ := hc.joined deadline hhalt
    exact ⟨timeout, asked, joined, hasked, hjoined, hcSound.inTime _ hhalt, hnow⟩
  case refine_2 =>
    rw [hdrained]
    constructor
    · intro hempty f hf
      have hgone : f ∉ c.rota.flights := by simp [hempty]
      obtain ⟨time, hmem⟩ : ∃ time, (time, .completed f) ∈ between := by
        simpa [hwinds.mem_iff, hf] using hgone
      exact ⟨time, hc.past _ (List.mem_append_right _ hmem), hmem⟩
    · intro hall
      refine List.eq_nil_iff_forall_not_mem.2 fun f hf ↦ ?_
      obtain ⟨hfa, hnot⟩ := (hwinds.mem_iff f).1 hf
      obtain ⟨time, -, hmem⟩ := hall f hfa
      exact hnot time hmem
  case refine_3 =>
    have hnone : d.rota.flights = [] := hrota ▸ hdrained.1 htrue
    exact ⟨hnone, fun after e hafter ↦ hafter.idle hd hcancelled hnone⟩
  case refine_4 =>
    subst hfalse
    have hsome : d.rota.flights ≠ [] := by
      intro hnone
      rw [hrota] at hnone
      cases hdrained.2 hnone
    refine ⟨hsome, fun f hf ↦ ?_⟩
    obtain ⟨l, time, since, hsplit, hsince, hreaches⟩ := hdRecorded.underway f hf
    refine ⟨l, time, since, hsplit, hsince, fun after e hafter ↦ ⟨fun hnot ↦ ?_, ?_⟩⟩
    · have he : e.Sound := hafter.sound hd
      have hfe : f ∈ e.rota.flights := ((hafter.winds hd hcancelled).mem_iff f).2 ⟨hf, hnot⟩
      exact ⟨he.dispatched.guarded.holds_of_mem hfe, he.can_complete src wall hfe⟩
    · rintro first time rest rfl
      have hended := hafter.reaches_ended hd hcancelled hreaches
      rwa [Chronicle.own, Chronicle.own, ← List.flatMap_append] at hended

/-- A shutdown that waits for cycles returns as soon as they have ended, and at its deadline otherwise. In
no state is it stuck before it has returned. -/
structure Returns (src : Source σ) (wall : Nat → Nat) (c : Driver σ) (deadline : Nat) : Prop where
  drains : (∃ d, Takes src wall c (.returned true) d) ↔ c.rota.flights = []
  timesOut : (∃ d, Takes src wall c (.returned false) d) ↔ c.rota.flights ≠ [] ∧ c.now = deadline
  inTime : ∃ l e drained d, Runs src wall c l e ∧ e.now ≤ deadline ∧ Takes src wall e (.returned drained) d

theorem Sound.returns {deadline : Nat} (hc : c.Sound) (hhalt : c.halt = .draining deadline) (src : Source σ)
    (wall : Nat → Nat) : Returns src wall c deadline where
  drains := by
    constructor
    · rintro ⟨d, hreturned⟩
      exact (hreturned.of_returned hc).1.1 rfl
    · intro hnone
      exact ⟨_, .drained hhalt (hc.inFlight_eq_zero_iff.2 hnone)⟩
  timesOut := by
    constructor
    · rintro ⟨d, hreturned⟩
      obtain ⟨hdrained, -, deadline', hdraining, hnow⟩ := hreturned.of_returned hc
      obtain rfl : deadline' = deadline := by
        rw [hhalt] at hdraining
        cases hdraining
        rfl
      refine ⟨fun hnone ↦ ?_, hnow rfl⟩
      cases hdrained.2 hnone
    · rintro ⟨hsome, rfl⟩
      exact ⟨_, .timedOut hhalt (mt hc.inFlight_eq_zero_iff.1 hsome)⟩
  inTime := by
    -- time passes up to the deadline, whatever the cycles do
    let e : Driver σ := { c with now := deadline }
    have hnow : c.now + (deadline - c.now) = deadline := Nat.add_sub_cancel' (hc.inTime deadline hhalt)
    have hpassed : Takes src wall c (.passed (deadline - c.now)) { c with now := c.now + (deadline - c.now) } := by
      refine .passed _ fun deadline' hdraining ↦ ?_
      rw [hhalt] at hdraining
      cases hdraining
      exact Nat.le_of_eq hnow
    rw [hnow] at hpassed
    by_cases hnone : c.rota.flights = []
    · have he : e.rota.inFlight Timeline.handle = 0 := (hc.takes hpassed).inFlight_eq_zero_iff.2 hnone
      exact ⟨_, e, true, _, .step hpassed (.refl e), Nat.le_refl _, .drained hhalt he⟩
    · have he : e.rota.inFlight Timeline.handle ≠ 0 := mt (hc.takes hpassed).inFlight_eq_zero_iff.1 hnone
      exact ⟨_, e, false, _, .step hpassed (.refl e), Nat.le_refl _, .timedOut hhalt he⟩

/-- Cancelled loops can end at once. -/
theorem runs_loopsEnded (loops : List Cycle) {d : Driver σ} (hloops : d.loops = loops)
    (hc : d.cancelled = true) : ∃ l, Runs src wall d l { d with loops := [] } := by
  induction loops generalizing d with
  | nil =>
    rw [← hloops]
    exact ⟨[], .refl d⟩
  | cons c loops ih =>
    have hended : Takes src wall d (.loopEnded c) _ := .loopEnded (hloops ▸ List.mem_cons_self) hc
    rw [hloops, List.erase_cons_head] at hended
    obtain ⟨l, hruns⟩ := ih (d := { d with loops }) rfl hc
    exact ⟨_, .step hended hruns⟩

/-- What is to be known of a driver that was started once, after any run. -/
structure Quiet (src : Source σ) (wall : Nat → Nat) (before : Chronicle) (a : Driver σ) : Prop where
  cancelled : a.cancelled = true ↔ ∃ x ∈ before, x.2.cancels = true
  unticked : a.cancelled = true → ∀ l e, Runs src wall a l e → (∀ x ∈ l, ∀ c, x.2 ≠ .ticked c) ∧
    e.rota.flights.Sublist a.rota.flights
  loopsEnd : a.cancelled = true → ∃ l e, Runs src wall a l e ∧ e.loops = [] ∧ e.now = a.now ∧ e.halt = a.halt
  waits : a.loops = [] → ∀ timeout, a.halt = .joining timeout →
    ∃ b, Takes src wall a .draining b ∧ b.halt = .draining (a.now + timeout)
  returns : ∀ deadline, a.halt = .draining deadline → Returns src wall a deadline
  told : a.loops = [] → ∀ between c drained d, Runs src wall a between c →
    Takes src wall c (.returned drained) d → Told src wall before a between c drained d

theorem quiet_of_runs {renewal : Nat} {providers sorted : List (String × σ)} {r : Rota}
    {store : Store} (hr : Rota.ofProviders renewal providers = .ok (r, sorted))
    (h : Runs src wall (start r (sorted.map (·.2)) store) before a) : Quiet src wall before a := by
  obtain ⟨hrecorded, hsound⟩ := start_sound hr store
  obtain ⟨hl, ha⟩ := hrecorded.runs hsound h
  exact
    { cancelled := hl.cancelled
      unticked := fun hc l e hruns ↦ ⟨(hruns.winds ha hc).unticked, (hruns.winds ha hc).sublist⟩
      loopsEnd := fun hc ↦
        have ⟨l, hended⟩ : ∃ l, Runs src wall a l { a with loops := [] } := runs_loopsEnded a.loops rfl hc
        ⟨l, _, hended, rfl, rfl, rfl⟩
      waits := fun hloops timeout hjoining ↦ ⟨_, .draining hjoining hloops, rfl⟩
      returns := fun deadline hhalt ↦ ha.returns hhalt src wall
      told := fun hloops between c drained d hbetween hreturned ↦ told_of_returned hl ha hloops hbetween hreturned }

end CloudOffers.Driver
