import CloudOffers.Proofs.Refresh.Interleaving
import CloudOffers.Proofs.Refresh.Rota
import CloudOffers.Refresh.Timeline
/-!
A driver that is started once: its loops, the cycles that they start, cancellation and shutdown, in
every order in which they can happen. The clock may stand still or move at any time, except that a
shutdown does not outlast its deadline. What a timeline does is one of these orders.
-/

namespace CloudOffers

open Plan (Step)

/-- A source together with the time of the wall clock. -/
def Source.timed {σ : Type} (src : Source σ) : Source (σ × Nat) :=
  src.within Prod.fst (fun t s ↦ (s, t.2))

namespace Course

variable {σ : Type} {src : Source σ} {provider : String} {s s' : σ} {c d d' : Course}
  {steps more : List Step} {now : Nat} {kind : Cycle}

theorem Moves.timed (h : c.Moves src (fun _ ↦ now) provider s steps d s') :
    c.Moves src.timed Prod.snd provider (s, now) steps d (s', now) := by
  have hstep {α : Type} {p p' : Plan α} {s s' : σ} {steps : List Step}
      (h : p.step? src (fun _ ↦ now) s = some (steps, p', s')) :
      p.step? src.timed Prod.snd (s, now) = some (steps, p', (s', now)) := by
    cases p with
    | done a => cases h
    | _ => cases h; rfl
  cases h with
  | full h => exact .full (hstep h)
  | listing h => exact .listing (hstep h)
  | fork started ids => exact .fork started ids _
  | region h => exact .region (hstep h)
  | join h => exact .join h
  | closing h => exact .closing (hstep h)

variable (src provider kind) in
/-- A cycle from its start, whatever happens to the source and to the clock meanwhile. -/
def Reaches (steps : List Step) (d : Course) : Prop :=
  ∃ s t, Runs src.timed Prod.snd (fun _ _ ↦ True) provider (start provider kind) s steps d t

theorem reaches_start [Nonempty σ] : Reaches src provider kind [] (start provider kind) := by
  obtain ⟨s⟩ := ‹Nonempty σ›
  exact ⟨(s, 0), (s, 0), .refl _ _⟩

theorem Reaches.moves (h : Reaches src provider kind steps d)
    (hm : d.Moves src (fun _ ↦ now) provider s more d' s') :
    Reaches src provider kind (steps ++ more) d' := by
  obtain ⟨start, t, hruns⟩ := h
  exact ⟨start, (s', now), hruns.trans (.meanwhile trivial (.single hm.timed))⟩

theorem Reaches.cycle (h : Reaches src provider kind steps d) : d.cycle = kind := by
  obtain ⟨_, _, hruns⟩ := h
  rw [hruns.cycle, cycle_start]

theorem IsOver.eq_ended (h : d.IsOver) : d = ended d.cycle := by cases h <;> rfl

theorem isOver_ended (kind : Cycle) : (ended kind).IsOver := by
  cases kind with
  | full => exact .full
  | prices => exact .prices

end Course

/-- How far the shutdown of a driver has come: it waits for the loops, and then for the cycles. -/
inductive Halt where
  | unasked
  | joining (timeout : Nat)
  | draining (deadline : Nat)
  | returned (drained : Bool)

structure Driver (σ : Type) where
  now : Nat
  cancelled : Bool
  /-- The loops that have not ended. -/
  loops : List Cycle
  halt : Halt
  rota : Rota
  sources : List σ
  courses : Flight → Course
  store : Store

namespace Driver

inductive Occurrence where
  | passed (span : Nat)
  | changed (manager : Nat)
  | ticked (c : Cycle)
  | moved (f : Flight) (steps : List Step)
  | completed (f : Flight)
  | cancelled
  | loopEnded (c : Cycle)
  | stopping (timeout : Nat)
  | draining
  | returned (drained : Bool)

/-- What happens, and when. -/
abbrev Chronicle := List (Nat × Occurrence)

namespace Occurrence

def cancels : Occurrence → Bool
  | .cancelled | .stopping _ => true
  | _ => false

def steps : Occurrence → List Step
  | .moved _ steps => steps
  | _ => []

def stepsOf (f : Flight) : Occurrence → List Step
  | .moved g steps => if g = f then steps else []
  | _ => []

end Occurrence

namespace Chronicle

def steps (l : Chronicle) : List Step := l.flatMap (·.2.steps)

/-- What one of the cycles does. -/
def own (f : Flight) (l : Chronicle) : List Step := l.flatMap (·.2.stepsOf f)

end Chronicle

variable {σ : Type}

def start (rota : Rota) (sources : List σ) (store : Store) : Driver σ where
  now := 0
  cancelled := false
  loops := [.full, .prices]
  halt := .unasked
  rota := rota
  sources := sources
  courses f := .start "" f.cycle
  store := store

def provider (d : Driver σ) (f : Flight) : String := d.rota.providers.getD f.manager ""

variable (src : Source σ) (wall : Nat → Nat)

def offersPrices (d : Driver σ) (manager : Nat) : Bool :=
  match d.sources[manager]? with
  | some s => src.offersCurrentPrices s
  | none => false

def tick (d : Driver σ) (c : Cycle) : Driver σ where
  now := d.now
  cancelled := d.cancelled
  loops := d.loops
  halt := d.halt
  rota := d.rota.tick Timeline.handle (d.offersPrices src) c
  sources := d.sources
  courses f := if f.cycle = c ∧ f.manager ∈ d.rota.starts (d.offersPrices src) c
    then .start (d.provider f) c else d.courses f
  store := match c with
    | .full => d.store
    | .prices => d.store.purge (wall d.now)

/-- Loops look for cancellation before they tick. The shutdown waits until both have ended, and then
for the cycles that run, but not beyond its deadline. -/
inductive Takes (d : Driver σ) : Occurrence → Driver σ → Prop
  | passed (span : Nat) : (∀ deadline, d.halt = .draining deadline → d.now + span ≤ deadline) →
      Takes d (.passed span) { d with now := d.now + span }
  | changed (m : Nat) (s : σ) : Takes d (.changed m) { d with sources := d.sources.set m s }
  | ticked {c : Cycle} : c ∈ d.loops → d.cancelled = false → Takes d (.ticked c) (d.tick src wall c)
  | moved {f : Flight} {s s' : σ} {c : Course} {steps : List Step} :
      f ∈ d.rota.flights → d.sources[f.manager]? = some s →
      (d.courses f).Moves src (fun _ ↦ wall d.now) (d.provider f) s steps c s' →
        Takes d (.moved f steps) { d with
          sources := d.sources.set f.manager s'
          courses := Function.update d.courses f c
          store := d.store.replay steps }
  | completed {f : Flight} : f ∈ d.rota.flights → (d.courses f).IsOver →
      Takes d (.completed f) { d with rota := d.rota.complete f }
  | cancelled : Takes d .cancelled { d with cancelled := true }
  | loopEnded {c : Cycle} : c ∈ d.loops → d.cancelled = true →
      Takes d (.loopEnded c) { d with loops := d.loops.erase c }
  | stopping (timeout : Nat) : d.halt = .unasked →
      Takes d (.stopping timeout) { d with cancelled := true, halt := .joining timeout }
  | draining {timeout : Nat} : d.halt = .joining timeout → d.loops = [] →
      Takes d .draining { d with halt := .draining (d.now + timeout) }
  | drained {deadline : Nat} : d.halt = .draining deadline → d.rota.inFlight Timeline.handle = 0 →
      Takes d (.returned true) { d with halt := .returned true }
  | timedOut : d.halt = .draining d.now → d.rota.inFlight Timeline.handle ≠ 0 →
      Takes d (.returned false) { d with halt := .returned false }

inductive Runs : Driver σ → Chronicle → Driver σ → Prop
  | refl (d : Driver σ) : Runs d [] d
  | step {d d' e : Driver σ} {x : Occurrence} {l : Chronicle} :
      Takes src wall d x d' → Runs d' l e → Runs d ((d.now, x) :: l) e

variable {src wall} {d d' e : Driver σ} {x : Occurrence} {l l' : Chronicle} {n : Nat} {f : Flight}

theorem Runs.trans (h : Runs src wall d l d') (h' : Runs src wall d' l' e) :
    Runs src wall d (l ++ l') e := by
  induction h with
  | refl d => exact h'
  | step hx _ ih => exact .step hx (ih h')

theorem Takes.now_le (h : Takes src wall d x d') : d.now ≤ d'.now := by
  cases h with
  | passed span => exact Nat.le_add_right ..
  | _ => exact Nat.le_refl _

theorem Takes.length_sources (h : Takes src wall d x d') : d'.sources.length = d.sources.length := by
  cases h with
  | changed | moved => exact List.length_set
  | _ => rfl

theorem Takes.provider (h : Takes src wall d x d') (f : Flight) : d'.provider f = d.provider f := by
  cases h <;> rfl

/-- What a driver does to its rota, a dispatcher does that was started once. -/
theorem Takes.turns (h : Takes src wall d x d') :
    ∃ turns, Dispatcher.Runs ⟨d.rota, 1⟩ turns ⟨d'.rota, 1⟩ := by
  cases h with
  | ticked => exact ⟨_, .cons (.ticked (d.offersPrices src) _ Nat.zero_lt_one) (.nil _)⟩
  | completed hf => exact ⟨_, .cons (.completed hf) (.nil _)⟩
  | _ => exact ⟨[], .nil _⟩

theorem Takes.cancelled_iff (h : Takes src wall d x d') :
    d'.cancelled = true ↔ d.cancelled = true ∨ x.cancels = true := by
  cases h with
  | cancelled | stopping => exact ⟨fun _ ↦ .inr rfl, fun _ ↦ rfl⟩
  | _ => exact ⟨.inl, fun h ↦ h.resolve_right nofun⟩

/-- What holds in every state that a driver comes to. -/
structure Sound (d : Driver σ) : Prop where
  dispatched : Dispatcher.Sound d.sources.length ⟨d.rota, 1⟩
  ended : d.loops = [] → d.cancelled = true
  stopped : d.halt ≠ .unasked → d.cancelled = true
  inTime : ∀ deadline, d.halt = .draining deadline → d.now ≤ deadline

theorem Sound.takes (hd : d.Sound) (h : Takes src wall d x d') : d'.Sound where
  dispatched := by
    obtain ⟨turns, hturns⟩ := h.turns
    rw [h.length_sources]
    exact hd.dispatched.runs hturns
  ended hloops := by
    cases h with
    | cancelled | stopping => rfl
    | loopEnded _ hcancelled => exact hcancelled
    | _ => exact hd.ended hloops
  stopped hhalt := by
    cases h with
    | cancelled | stopping => rfl
    | draining hjoining | drained hjoining | timedOut hjoining =>
      exact hd.stopped fun hunasked ↦ nomatch hjoining.symm.trans hunasked
    | _ => exact hd.stopped hhalt
  inTime deadline hhalt := by
    cases h with
    | passed span hspan => exact hspan deadline hhalt
    | draining hjoining =>
      cases hhalt
      exact Nat.le_add_right ..
    | stopping | drained | timedOut => cases hhalt
    | _ => exact hd.inTime deadline hhalt

theorem Sound.handle_eq (hd : d.Sound) (hf : f ∈ d.rota.flights) : f.handle = Timeline.handle :=
  Nat.lt_one_iff.1 (hd.dispatched.handled f hf)

theorem Sound.manager_lt (hd : d.Sound) (hf : f ∈ d.rota.flights) :
    f.manager < d.sources.length :=
  hd.dispatched.managers ▸ Rota.lt_of_holds (hd.dispatched.guarded.holds_of_mem hf)

theorem Sound.inFlight_eq_zero_iff (hd : d.Sound) :
    d.rota.inFlight Timeline.handle = 0 ↔ d.rota.flights = [] := by
  rw [Rota.inFlight, List.countP_eq_zero, List.eq_nil_iff_forall_not_mem]
  exact forall₂_congr fun f hf ↦ by simp [hd.handle_eq hf]

theorem Sound.completed_not_mem (hd : d.Sound) (hf : f ∈ d.rota.flights) :
    f ∉ (d.rota.complete f).flights := by
  intro hmem
  have hheld := (hd.dispatched.guarded.complete hf).holds_of_mem hmem
  rw [Rota.holds_complete] at hheld
  simp at hheld

/-- A tick passes over the cycles that run. -/
theorem Sound.courses_tick (hd : d.Sound) (hf : f ∈ d.rota.flights) (src : Source σ)
    (wall : Nat → Nat) (c : Cycle) : (d.tick src wall c).courses f = d.courses f := by
  refine if_neg ?_
  rintro ⟨rfl, hstarts⟩
  have hfree := (Rota.mem_starts_iff.1 hstarts).2.1
  rw [hd.dispatched.guarded.holds_of_mem hf] at hfree
  cases hfree

/-- A cycle that runs all the while is at the same place as before, or has moved. -/
theorem Takes.course (h : Takes src wall d x d') (hd : d.Sound) (hf : f ∈ d.rota.flights)
    (hf' : f ∈ d'.rota.flights) : x ≠ .completed f ∧
      (d'.courses f = d.courses f ∧ x.stepsOf f = [] ∨ ∃ s s', (d.courses f).Moves src
        (fun _ ↦ wall d.now) (d.provider f) s (x.stepsOf f) (d'.courses f) s') := by
  cases h with
  | ticked => exact ⟨nofun, .inl ⟨hd.courses_tick hf .., rfl⟩⟩
  | @moved g s s' c steps hg hs hm =>
    refine ⟨nofun, ?_⟩
    by_cases hgf : g = f
    · subst hgf
      refine .inr ⟨s, s', ?_⟩
      simpa [Occurrence.stepsOf] using hm
    · exact .inl ⟨Function.update_of_ne (Ne.symm hgf) .., if_neg hgf⟩
  | @completed g hg =>
    refine ⟨?_, .inl ⟨rfl, rfl⟩⟩
    rintro ⟨⟩
    exact hd.completed_not_mem hf hf'
  | _ => exact ⟨nofun, .inl ⟨rfl, rfl⟩⟩

/-- Cycles start with ticks. -/
theorem Takes.started (h : Takes src wall d x d') (hd : d.Sound) (hf : f ∉ d.rota.flights)
    (hf' : f ∈ d'.rota.flights) : x = .ticked f.cycle ∧ d'.courses f = .start (d.provider f) f.cycle ∧
      Nonempty σ := by
  cases h with
  | @ticked c =>
    obtain ⟨m, hm, rfl⟩ := List.mem_map.1 ((List.mem_append.1 hf').resolve_left hf)
    have hlt : m < d.sources.length := hd.dispatched.managers ▸ (Rota.mem_starts_iff.1 hm).1
    exact ⟨rfl, if_pos ⟨rfl, hm⟩, ⟨d.sources[m]⟩⟩
  | completed => exact absurd (List.mem_of_mem_erase hf') hf
  | _ => exact absurd hf' hf

theorem Takes.reaches {steps : List Step} (h : Takes src wall d x d') (hd : d.Sound)
    (hf : f ∈ d.rota.flights) (hf' : f ∈ d'.rota.flights)
    (hreaches : Course.Reaches src (d.provider f) f.cycle steps (d.courses f)) :
    Course.Reaches src (d'.provider f) f.cycle (steps ++ x.stepsOf f) (d'.courses f) := by
  rw [h.provider]
  rcases (h.course hd hf hf').2 with ⟨hsame, hnone⟩ | ⟨s, s', hm⟩
  · rw [hsame, hnone, List.append_nil]
    exact hreaches
  · exact hreaches.moves hm

/-- A cycle that runs was started by a tick, and has got where it is by what it did since. -/
def Underway (src : Source σ) (l : Chronicle) (d : Driver σ) (f : Flight) : Prop :=
  ∃ before time since, l = before ++ (time, .ticked f.cycle) :: since ∧
    (∀ time, (time, .completed f) ∉ since) ∧
    Course.Reaches src (d.provider f) f.cycle (Chronicle.own f since) (d.courses f)

theorem Underway.takes (hu : Underway src l d f) (h : Takes src wall d x d') (hd : d.Sound)
    (hf : f ∈ d.rota.flights) (hf' : f ∈ d'.rota.flights) :
    Underway src (l ++ [(d.now, x)]) d' f := by
  obtain ⟨before, time, since, rfl, hsince, hreaches⟩ := hu
  refine ⟨before, time, since ++ [(d.now, x)], by simp, fun time hmem ↦ ?_, ?_⟩
  · rcases List.mem_append.1 hmem with hmem | hmem
    · exact hsince time hmem
    · cases List.mem_singleton.1 hmem
      exact (h.course hd hf hf').1 rfl
  · have hown : Chronicle.own f (since ++ [(d.now, x)]) = Chronicle.own f since ++ x.stepsOf f := by
      simp [Chronicle.own]
    rw [hown]
    exact h.reaches hd hf hf' hreaches

/-- What can be told of a driver from what happened until now. -/
structure Recorded (src : Source σ) (l : Chronicle) (d : Driver σ) : Prop where
  past : ∀ x ∈ l, x.1 ≤ d.now
  cancelled : d.cancelled = true ↔ ∃ x ∈ l, x.2.cancels = true
  asked : ∀ timeout, d.halt = .joining timeout → ∃ time, (time, .stopping timeout) ∈ l
  joined : ∀ deadline, d.halt = .draining deadline → ∃ timeout asked time,
    (asked, .stopping timeout) ∈ l ∧ (time, .draining) ∈ l ∧ deadline = time + timeout
  underway : ∀ f ∈ d.rota.flights, Underway src l d f

theorem Recorded.takes (hl : Recorded src l d) (hd : d.Sound) (h : Takes src wall d x d') :
    Recorded src (l ++ [(d.now, x)]) d' where
  past y hy := by
    rcases List.mem_append.1 hy with hy | hy
    · exact Nat.le_trans (hl.past y hy) h.now_le
    · rw [List.mem_singleton.1 hy]
      exact h.now_le
  cancelled := by
    rw [h.cancelled_iff, hl.cancelled]
    simp [or_and_right, exists_or]
  asked timeout hhalt := by
    have hbefore (hbefore : d.halt = .joining timeout) :
        ∃ time, (time, .stopping timeout) ∈ l ++ [(d.now, x)] := by
      obtain ⟨time, hmem⟩ := hl.asked timeout hbefore
      exact ⟨time, List.mem_append_left _ hmem⟩
    cases h with
    | stopping _ hunasked =>
      cases hhalt
      exact ⟨d.now, List.mem_append_right _ List.mem_cons_self⟩
    | draining | drained | timedOut => cases hhalt
    | _ => exact hbefore hhalt
  joined deadline hhalt := by
    have hbefore (hbefore : d.halt = .draining deadline) : ∃ timeout asked time,
        (asked, .stopping timeout) ∈ l ++ [(d.now, x)] ∧ (time, .draining) ∈ l ++ [(d.now, x)] ∧
          deadline = time + timeout := by
      obtain ⟨timeout, asked, time, hasked, htime, heq⟩ := hl.joined deadline hbefore
      exact ⟨timeout, asked, time, List.mem_append_left _ hasked, List.mem_append_left _ htime, heq⟩
    cases h with
    | @draining timeout hjoining =>
      cases hhalt
      obtain ⟨asked, hasked⟩ := hl.asked timeout hjoining
      exact ⟨timeout, asked, d.now, List.mem_append_left _ hasked,
        List.mem_append_right _ List.mem_cons_self, rfl⟩
    | stopping | drained | timedOut => cases hhalt
    | _ => exact hbefore hhalt
  underway f hf' := by
    by_cases hf : f ∈ d.rota.flights
    · exact (hl.underway f hf).takes h hd hf hf'
    · obtain ⟨rfl, hcourse, hnonempty⟩ := h.started hd hf hf'
      refine ⟨l, d.now, [], rfl, nofun, ?_⟩
      rw [hcourse, h.provider]
      exact Course.reaches_start

theorem Recorded.runs (hl : Recorded src l d) (hd : d.Sound) (h : Runs src wall d l' e) :
    Recorded src (l ++ l') e ∧ e.Sound := by
  induction h generalizing l with
  | refl d =>
    rw [List.append_nil]
    exact ⟨hl, hd⟩
  | step hx _ ih =>
    have hrest := ih (hl.takes hd hx) (hd.takes hx)
    rwa [List.append_assoc] at hrest

theorem start_sound {renewal : Nat} {providers sorted : List (String × σ)} {r : Rota}
    (hr : Rota.ofProviders renewal providers = .ok (r, sorted)) (store : Store) :
    Recorded src [] (start r (sorted.map (·.2)) store) ∧ (start r (sorted.map (·.2)) store).Sound := by
  obtain ⟨hguarded, hlength, hsorted, hflights⟩ := Rota.ofProviders_guarded hr
  have hnone (f : Flight) : f ∉ (start r (sorted.map (·.2)) store).rota.flights := by
    intro hf
    change f ∈ r.flights at hf
    rw [hflights] at hf
    cases hf
  refine ⟨⟨nofun, ⟨nofun, nofun⟩, nofun, nofun, fun f hf ↦ absurd hf (hnone f)⟩, ?_, nofun, ?_, nofun⟩
  · refine ⟨hguarded, ?_, fun f hf ↦ absurd hf (hnone f)⟩
    change r.guards.length = (sorted.map (·.2)).length
    rw [hlength, List.length_map, hsorted]
  · exact fun h ↦ absurd rfl h

/-- Nothing begins: what runs comes to its end, and nothing but its writes changes the store. -/
structure Winds (d : Driver σ) (l : Chronicle) (e : Driver σ) : Prop where
  cancelled : e.cancelled = true
  unticked : ∀ x ∈ l, ∀ c, x.2 ≠ .ticked c
  store : e.store = d.store.replay (Chronicle.steps l)
  sublist : e.rota.flights.Sublist d.rota.flights
  mem_iff : ∀ f, f ∈ e.rota.flights ↔ f ∈ d.rota.flights ∧ ∀ time, (time, .completed f) ∉ l

theorem Winds.trans (h : Winds d l d') (h' : Winds d' l' e) : Winds d (l ++ l') e where
  cancelled := h'.cancelled
  unticked := List.forall_mem_append.2 ⟨h.unticked, h'.unticked⟩
  store := by
    rw [h'.store, h.store, Store.replay, Store.replay, Store.replay, Chronicle.steps, Chronicle.steps,
      Chronicle.steps, List.flatMap_append, List.foldl_append]
  sublist := h'.sublist.trans h.sublist
  mem_iff f := by simp [h'.mem_iff, h.mem_iff, not_or, and_assoc, forall_and]

theorem Takes.unticked (h : Takes src wall d x d') (hc : d.cancelled = true) (c : Cycle) : x ≠ .ticked c := by
  rintro rfl
  cases h with
  | ticked _ hfalse =>
    rw [hc] at hfalse
    cases hfalse

theorem Takes.winds (h : Takes src wall d x d') (hd : d.Sound) (hc : d.cancelled = true) :
    Winds d [(d.now, x)] d' where
  cancelled := h.cancelled_iff.2 (.inl hc)
  unticked := List.forall_mem_singleton.2 (h.unticked hc)
  store := by
    have hsteps : Chronicle.steps [(d.now, x)] = x.steps := List.append_nil _
    have hunticked := h.unticked hc
    rw [hsteps]
    cases h with
    | ticked => exact absurd rfl (hunticked _)
    | _ => rfl
  sublist := by
    have hunticked := h.unticked hc
    cases h with
    | ticked => exact absurd rfl (hunticked _)
    | completed => exact List.erase_sublist
    | _ => exact .refl _
  mem_iff f := by
    have hlabel : (∀ time, (time, Occurrence.completed f) ∉ [(d.now, x)]) ↔ x ≠ .completed f := by
      simp [eq_comm]
    have hunticked := h.unticked hc
    rw [hlabel]
    cases h with
    | ticked => exact absurd rfl (hunticked _)
    | @completed g hg =>
      constructor
      · intro hf
        refine ⟨List.mem_of_mem_erase hf, ?_⟩
        rintro ⟨⟩
        exact hd.completed_not_mem hg hf
      · rintro ⟨hf, hne⟩
        exact (List.mem_erase_of_ne (fun heq ↦ hne (congrArg _ heq.symm))).2 hf
    | _ => exact ⟨fun hf ↦ ⟨hf, nofun⟩, And.left⟩

theorem Runs.winds (h : Runs src wall d l e) (hd : d.Sound) (hc : d.cancelled = true) :
    Winds d l e := by
  induction h with
  | refl d => exact ⟨hc, nofun, rfl, .refl _, fun f ↦ ⟨fun hf ↦ ⟨hf, fun _ ↦ nofun⟩, And.left⟩⟩
  | step hx _ ih =>
    have hfirst := hx.winds hd hc
    exact hfirst.trans (ih (hd.takes hx) hfirst.cancelled)

theorem Runs.sound (h : Runs src wall d l e) (hd : d.Sound) : e.Sound := by
  induction h with
  | refl d => exact hd
  | step hx _ ih => exact ih (hd.takes hx)

theorem Runs.of_append (h : Runs src wall d (l ++ l') e) :
    ∃ g, Runs src wall d l g ∧ Runs src wall g l' e := by
  induction l generalizing d with
  | nil => exact ⟨d, .refl d, h⟩
  | cons x l ih =>
    cases h with
    | step hx hrest =>
      obtain ⟨g, hl, hl'⟩ := ih hrest
      exact ⟨g, .step hx hl, hl'⟩

theorem Runs.provider (h : Runs src wall d l e) (f : Flight) : e.provider f = d.provider f := by
  induction h with
  | refl d => rfl
  | step hx _ ih => exact ih.trans (hx.provider f)

/-- Of a cycle that still runs, a cancelled driver knows what it has done. -/
theorem Runs.reaches {steps : List Step} (h : Runs src wall d l e) (hd : d.Sound)
    (hc : d.cancelled = true) (hf : f ∈ e.rota.flights)
    (hreaches : Course.Reaches src (d.provider f) f.cycle steps (d.courses f)) :
    Course.Reaches src (d.provider f) f.cycle (steps ++ Chronicle.own f l) (e.courses f) := by
  induction h generalizing steps with
  | refl d =>
    rw [Chronicle.own, List.flatMap_nil, List.append_nil]
    exact hreaches
  | @step d d' e x l hx hrest ih =>
    have hfirst := hx.winds hd hc
    have hf' : f ∈ d'.rota.flights :=
      (hrest.winds (hd.takes hx) hfirst.cancelled).sublist.subset hf
    have hnext := ih (hd.takes hx) hfirst.cancelled hf
      (hx.reaches hd (hfirst.sublist.subset hf') hf' hreaches)
    rw [hx.provider, List.append_assoc] at hnext
    exact hnext

/-- When a cycle is completed, it has done all that belongs to it. -/
theorem Runs.reaches_ended {steps : List Step} {time : Nat} {rest : Chronicle}
    (h : Runs src wall d (l ++ (time, .completed f) :: rest) e) (hd : d.Sound)
    (hc : d.cancelled = true)
    (hreaches : Course.Reaches src (d.provider f) f.cycle steps (d.courses f)) :
    Course.Reaches src (d.provider f) f.cycle (steps ++ Chronicle.own f l) (.ended f.cycle) := by
  obtain ⟨g, hl, hrest⟩ := h.of_append
  cases hrest with
  | step hx _ =>
    cases hx with
    | completed hf hover =>
      have hg := hl.reaches hd hc hf hreaches
      have hcycle := hg.cycle
      rwa [hover.eq_ended, hcycle] at hg

section Progress

theorem runs_of_course {s t : σ} {c : Course} {steps : List Step} (d : Driver σ)
    (hf : f ∈ d.rota.flights) (hs : d.sources[f.manager]? = some s)
    (h : Course.Runs src (fun _ ↦ wall d.now) (fun _ _ ↦ False) (d.provider f) (d.courses f) s steps
      c t) :
    ∃ l e, Runs src wall d l e ∧ e.now = d.now ∧ f ∈ e.rota.flights ∧ e.courses f = c := by
  generalize hcourse : d.courses f = c₀ at h
  generalize htime : (fun _ ↦ wall d.now) = time at h
  generalize hprovider : d.provider f = provider at h
  induction h generalizing d with
  | refl c s => exact ⟨[], d, .refl d, rfl, hf, hcourse⟩
  | meanwhile hb => exact hb.elim
  | @move c c' c'' s s' t first rest hm _ ih =>
    subst hcourse htime hprovider
    let d' : Driver σ := { d with
      sources := d.sources.set f.manager s'
      courses := Function.update d.courses f c'
      store := d.store.replay first }
    have hlt : f.manager < d.sources.length := (List.getElem?_eq_some_iff.1 hs).1
    have hs' : d'.sources[f.manager]? = some s' := List.getElem?_set_self hlt
    obtain ⟨l, e, hruns, hnow, hf', hc⟩ := ih d' hf hs' (Function.update_self ..) rfl rfl
    exact ⟨_, e, .step (.moved hf hs hm) hruns, hnow, hf', hc⟩

/-- A cycle that runs can always complete, even at once. -/
theorem Sound.can_complete (hd : d.Sound) (src : Source σ) (wall : Nat → Nat)
    (hf : f ∈ d.rota.flights) :
    ∃ l e, Runs src wall d l e ∧ (d.now, .completed f) ∈ l := by
  have hlt : f.manager < d.sources.length := hd.manager_lt hf
  have hs : d.sources[f.manager]? = some d.sources[f.manager] := List.getElem?_eq_getElem hlt
  have hrest := Course.runs_rest src (fun _ ↦ wall d.now) (fun _ _ ↦ False) (d.provider f)
    (d.courses f) d.sources[f.manager]
  obtain ⟨l, e, hruns, hnow, hf', hc⟩ := runs_of_course d hf hs hrest
  have hover : (e.courses f).IsOver := hc ▸ Course.isOver_ended _
  refine ⟨_, _, hruns.trans (.step (.completed hf' hover) (.refl _)), ?_⟩
  rw [← hnow]
  exact List.mem_append_right _ List.mem_cons_self

end Progress

end Driver

end CloudOffers
