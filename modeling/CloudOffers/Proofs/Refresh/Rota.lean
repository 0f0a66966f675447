import CloudOffers.Refresh.Rota
import Mathlib.Algebra.BigOperators.Fin
/-!
Every cycle that runs holds the guard of its kind, and every guard that is held is held by one cycle
that runs. This is so however often the loops are started and in whichever order cycles end.
-/

namespace CloudOffers

namespace Guard

theorem isHeld_free (c : Cycle) : free.isHeld c = false := by cases c <;> rfl

theorem isHeld_set (g : Guard) (held : Bool) (c c' : Cycle) :
    (g.set held c).isHeld c' = if c' = c then held else g.isHeld c' := by
  cases c <;> cases c' <;> rfl

end Guard

namespace Rota

variable (r : Rota) {offers : Nat → Bool} {handle m : Nat} {c c' : Cycle} {f : Flight}

def holds (m : Nat) (c : Cycle) : Bool := r.guards[m]?.any (·.isHeld c)

/-- How many cycles of a kind run for a manager. -/
def running (m : Nat) (c : Cycle) : Nat := r.flights.countP (fun f ↦ f.manager = m ∧ f.cycle = c)

def heldGuards (c : Cycle) : Nat := r.guards.countP (·.isHeld c)

variable {r}

theorem decision_eq_start_iff {offers : Bool} {g : Guard} :
    decision offers c g = .start ↔ g.isHeld c = false ∧ (c = .prices → offers = true) := by
  unfold decision
  cases offers <;> cases c <;> cases h : g.isHeld _ <;> simp

theorem mem_starts_iff : m ∈ r.starts offers c ↔
    m < r.guards.length ∧ r.holds m c = false ∧ (c = .prices → offers m = true) := by
  simp only [starts, decisions, List.mem_filterMap, List.mem_map, Prod.exists,
    List.mem_zipIdx_iff_getElem?]
  constructor
  · rintro ⟨_, _, ⟨g, k, hg, heq⟩, hstart⟩
    cases heq
    split at hstart
    · next hdecision =>
      cases hstart
      obtain ⟨hfree, hoffers⟩ := decision_eq_start_iff.1 hdecision
      refine ⟨(List.getElem?_eq_some_iff.1 hg).1, ?_, hoffers⟩
      rw [holds, hg]
      exact hfree
    · cases hstart
  · rintro ⟨hlt, hfree, hoffers⟩
    have hg : r.guards[m]? = some r.guards[m] := List.getElem?_eq_getElem hlt
    rw [holds, hg] at hfree
    exact ⟨m, .start, ⟨_, m, hg, by rw [decision_eq_start_iff.2 ⟨hfree, hoffers⟩]⟩, if_pos rfl⟩

theorem starts_nodup (r : Rota) (offers : Nat → Bool) (c : Cycle) : (r.starts offers c).Nodup := by
  have hnumbers : r.guards.zipIdx.Pairwise (fun a b ↦ a.2 ≠ b.2) := by
    apply List.pairwise_map.1
    change (r.guards.zipIdx.map Prod.snd).Nodup
    rw [List.zipIdx_map_snd]
    exact List.nodup_range'
  rw [starts, decisions, List.filterMap_map]
  refine List.pairwise_filterMap.2 (hnumbers.imp fun {a b} hne m hm k hk ↦ ?_)
  dsimp only [Function.comp] at hm hk
  split at hm
  · split at hk
    · cases hm
      cases hk
      exact hne
    · cases hk
  · cases hm

theorem getElem?_guards_tick (m : Nat) : (r.tick handle offers c).guards[m]? =
    r.guards[m]?.map (fun g ↦ if decision (offers m) c g = .start then g.set true c else g) := by
  change (r.guards.zipIdx.map _)[m]? = _
  rw [List.getElem?_map, List.getElem?_zipIdx, Option.map_map, Nat.zero_add]
  rfl

theorem length_guards_tick : (r.tick handle offers c).guards.length = r.guards.length := by
  simp [tick]

theorem holds_tick : (r.tick handle offers c).holds m c' =
    (r.holds m c' || decide (c' = c ∧ m ∈ r.starts offers c)) := by
  simp only [mem_starts_iff, holds, getElem?_guards_tick]
  cases hg : r.guards[m]? with
  | none =>
    have hge : ¬m < r.guards.length := Nat.not_lt.2 (List.getElem?_eq_none_iff.1 hg)
    simp [hge]
  | some g =>
    have hlt : m < r.guards.length := (List.getElem?_eq_some_iff.1 hg).1
    change (if decision (offers m) c g = .start then g.set true c else g).isHeld c' =
      (g.isHeld c' || decide (c' = c ∧ m < r.guards.length ∧ g.isHeld c = false ∧ _))
    simp only [hlt, true_and, decision_eq_start_iff]
    split
    · next hstart =>
      rw [Guard.isHeld_set]
      by_cases hc : c' = c
      · rw [if_pos hc, decide_eq_true ⟨hc, hstart⟩, Bool.or_true]
      · simp [hc]
    · next hstart => simp [hstart]

theorem running_tick : (r.tick handle offers c).running m c' =
    r.running m c' + if c' = c ∧ m ∈ r.starts offers c then 1 else 0 := by
  change List.countP _ (r.flights ++ (r.starts offers c).map _) = _
  rw [List.countP_append, List.countP_map]
  congr 1
  by_cases hc : c' = c
  · subst hc
    have hcount : (r.starts offers c').countP (fun k ↦ k = m ∧ c' = c') = (r.starts offers c').count m :=
      List.countP_congr fun k _ ↦ by simp
    simp only [true_and]
    exact hcount.trans (starts_nodup r offers c').count
  · rw [if_neg (fun h ↦ hc h.1)]
    refine List.countP_eq_zero.2 fun k hk ↦ ?_
    simp [Ne.symm hc]

theorem length_guards_complete : (r.complete f).guards.length = r.guards.length :=
  List.length_modify ..

theorem holds_complete : (r.complete f).holds m c =
    (r.holds m c && !decide (f.manager = m ∧ f.cycle = c)) := by
  change Option.any _ (r.guards.modify f.manager _)[m]? = _
  rw [List.getElem?_modify, holds]
  cases r.guards[m]? with
  | none => rfl
  | some g =>
    change (if f.manager = m then g.release f.cycle else g).isHeld c = (g.isHeld c && _)
    split
    · next hm =>
      rw [Guard.release, Guard.isHeld_set]
      by_cases hc : c = f.cycle
      · simp [hm, hc]
      · simp [hm, hc, Ne.symm hc]
    · next hm => simp [hm]

theorem running_complete (h : f ∈ r.flights) : r.running m c =
    (r.complete f).running m c + if f.manager = m ∧ f.cycle = c then 1 else 0 := by
  have hperm : r.flights.Perm (f :: (r.complete f).flights) := List.perm_cons_erase h
  rw [running, hperm.countP_eq, List.countP_cons]
  simp [running]

/-- For each guard that is held one cycle runs, and for one that is free none. -/
def Guarded (r : Rota) : Prop := ∀ m c, r.running m c = (r.holds m c).toNat

theorem Guarded.tick (h : r.Guarded) (handle : Nat) (offers : Nat → Bool) (c : Cycle) :
    (r.tick handle offers c).Guarded := by
  intro m c'
  rw [running_tick, holds_tick, h]
  by_cases hstarts : c' = c ∧ m ∈ r.starts offers c
  · obtain ⟨rfl, hm⟩ := hstarts
    have hfree := (mem_starts_iff.1 hm).2.1
    simp [hfree, hm]
  · simp [hstarts]

theorem Guarded.complete (h : r.Guarded) (hf : f ∈ r.flights) : (r.complete f).Guarded := by
  intro m c
  have hrunning : (r.holds m c).toNat = _ := (h m c).symm.trans (running_complete hf)
  rw [holds_complete]
  by_cases hslot : f.manager = m ∧ f.cycle = c
  · have hle := Bool.toNat_le (r.holds m c)
    simp only [if_pos hslot] at hrunning
    simp only [hslot, and_self, decide_true, Bool.not_true, Bool.and_false, Bool.toNat_false]
    omega
  · simpa [hslot] using hrunning.symm

theorem sum_countP {α : Type} {l : List α} {key : α → Nat} {n : Nat} (h : ∀ a ∈ l, key a < n) :
    ∑ i ∈ Finset.range n, l.countP (fun a ↦ key a = i) = l.length := by
  induction l with
  | nil => simp
  | cons a l ih =>
    obtain ⟨ha, hl⟩ := List.forall_mem_cons.1 h
    simp only [List.countP_cons, Finset.sum_add_distrib, ih hl, decide_eq_true_eq,
      Finset.sum_ite_eq, Finset.mem_range, if_pos ha, List.length_cons]

theorem sum_any {α : Type} (l : List α) (p : α → Bool) :
    ∑ i ∈ Finset.range l.length, (l[i]?.any p).toNat = l.countP p := by
  induction l with
  | nil => rfl
  | cons a l ih =>
    rw [List.length_cons, Finset.sum_range_succ', List.countP_cons]
    simp only [List.getElem?_cons_succ, ih, List.getElem?_cons_zero, Option.any_some]
    cases p a <;> rfl

theorem Guarded.holds_of_mem (h : r.Guarded) (hf : f ∈ r.flights) :
    r.holds f.manager f.cycle = true := by
  have hpos : 0 < r.running f.manager f.cycle := List.countP_pos_iff.2 ⟨f, hf, by simp⟩
  rw [h] at hpos
  cases hholds : r.holds f.manager f.cycle with
  | true => rfl
  | false => simp [hholds] at hpos

theorem lt_of_holds (h : r.holds m c = true) : m < r.guards.length := by
  obtain ⟨g, hg, -⟩ := (Option.any_eq_true ..).1 h
  exact (List.getElem?_eq_some_iff.1 hg).1

theorem Guarded.countP_flights (h : r.Guarded) (c : Cycle) :
    r.flights.countP (·.cycle = c) = r.heldGuards c := by
  have hlt : ∀ f ∈ r.flights.filter (·.cycle = c), f.manager < r.guards.length := by
    intro f hf
    exact lt_of_holds (h.holds_of_mem (List.mem_filter.1 hf).1)
  rw [List.countP_eq_length_filter, ← sum_countP hlt, heldGuards, ← sum_any]
  refine Finset.sum_congr rfl fun m _ ↦ ?_
  have hrunning := h m c
  rw [List.countP_filter]
  simpa only [running, holds, Bool.decide_and] using hrunning

theorem Guarded.length_flights (h : r.Guarded) :
    r.flights.length = r.heldGuards .full + r.heldGuards .prices := by
  rw [← h.countP_flights, ← h.countP_flights, List.length_eq_countP_add_countP (·.cycle = .full)]
  congr 1
  refine List.countP_congr fun f _ ↦ ?_
  cases f.cycle <;> simp

theorem mem_flights_tick (h : m ∈ r.starts offers c) :
    ⟨handle, m, c⟩ ∈ (r.tick handle offers c).flights :=
  List.mem_append_right _ (List.mem_map_of_mem h)

theorem guarded_of_free {providers : List String} {guards : List Guard} (h : ∀ g ∈ guards, g = .free) :
    Guarded ⟨providers, guards, []⟩ := by
  intro m c
  change 0 = (guards[m]?.any (·.isHeld c)).toNat
  cases hg : guards[m]? with
  | none => rfl
  | some g =>
    rw [h g (List.mem_of_getElem? hg), Option.any_some, Guard.isHeld_free]
    rfl

theorem ofProviders_guarded {α : Type} {renewal : Nat} {providers sorted : List (String × α)}
    (h : ofProviders renewal providers = .ok (r, sorted)) :
    r.Guarded ∧ r.guards.length = providers.length ∧ sorted.length = providers.length ∧
      r.flights = [] := by
  unfold ofProviders at h
  split at h
  · cases h
  · split at h
    · cases h
    · cases h
      refine ⟨guarded_of_free fun g hg ↦ ?_, ?_, List.length_mergeSort _, rfl⟩
      · obtain ⟨_, -, rfl⟩ := List.mem_map.1 hg
        rfl
      · rw [List.length_map, List.length_mergeSort]

end Rota

/-- A rota, and how often its loops were started: every start has a handle of its own. -/
structure Dispatcher where
  rota : Rota
  handles : Nat

namespace Dispatcher

inductive Turn where
  | started
  | ticked (handle : Nat) (offers : Nat → Bool) (c : Cycle)
  | completed (f : Flight)

/-- The loops are started once more, one of them ticks, or a cycle that runs ends. -/
inductive Takes : Dispatcher → Turn → Dispatcher → Prop
  | started (r : Rota) (handles : Nat) : Takes ⟨r, handles⟩ .started ⟨r, handles + 1⟩
  | ticked {r : Rota} {handles handle : Nat} (offers : Nat → Bool) (c : Cycle) :
      handle < handles →
        Takes ⟨r, handles⟩ (.ticked handle offers c) ⟨r.tick handle offers c, handles⟩
  | completed {r : Rota} {handles : Nat} {f : Flight} :
      f ∈ r.flights → Takes ⟨r, handles⟩ (.completed f) ⟨r.complete f, handles⟩

inductive Runs : Dispatcher → List Turn → Dispatcher → Prop
  | nil (d : Dispatcher) : Runs d [] d
  | cons {d d' d'' : Dispatcher} {x : Turn} {turns : List Turn} :
      Takes d x d' → Runs d' turns d'' → Runs d (x :: turns) d''

variable {d d' : Dispatcher} {x : Turn} {turns : List Turn} {n m : Nat} {c : Cycle}

structure Sound (n : Nat) (d : Dispatcher) : Prop where
  guarded : d.rota.Guarded
  managers : d.rota.guards.length = n
  handled : ∀ f ∈ d.rota.flights, f.handle < d.handles

theorem Sound.takes (hd : d.Sound n) (h : Takes d x d') : d'.Sound n := by
  cases h with
  | started r handles =>
    exact ⟨hd.guarded, hd.managers, fun f hf ↦ Nat.lt_succ_of_lt (hd.handled f hf)⟩
  | ticked offers c hhandle =>
    refine ⟨hd.guarded.tick _ offers c, Rota.length_guards_tick.trans hd.managers, fun f hf ↦ ?_⟩
    rcases List.mem_append.1 hf with hf | hf
    · exact hd.handled f hf
    · obtain ⟨m, -, rfl⟩ := List.mem_map.1 hf
      exact hhandle
  | completed hf =>
    exact ⟨hd.guarded.complete hf, Rota.length_guards_complete.trans hd.managers,
      fun f' hf' ↦ hd.handled f' (List.mem_of_mem_erase hf')⟩

theorem Sound.runs (hd : d.Sound n) (h : Runs d turns d') : d'.Sound n := by
  induction h with
  | nil => exact hd
  | cons h _ ih => exact ih (hd.takes h)

/-- A guard that is free stays free until a loop of its kind ticks. -/
theorem Runs.holds_eq_false (h : Runs d turns d') (hfree : d.rota.holds m c = false)
    (hturns : ∀ handle offers, .ticked handle offers c ∉ turns) : d'.rota.holds m c = false := by
  induction h with
  | nil => exact hfree
  | cons hx _ ih =>
    refine ih ?_ fun handle offers hmem ↦ hturns handle offers (List.mem_cons_of_mem _ hmem)
    cases hx with
    | started => exact hfree
    | @ticked r handles handle offers c' hhandle =>
      rw [Rota.holds_tick, hfree, Bool.false_or]
      refine decide_eq_false fun hc ↦ hturns handle offers ?_
      rw [hc.1]
      exact List.mem_cons_self
    | completed hf => rw [Rota.holds_complete, hfree, Bool.false_and]

/-- For `n` managers, cycles run one at a time of each kind and manager, and their guards tell which. -/
structure Exclusive (n : Nat) (d : Dispatcher) : Prop where
  managers : d.rota.guards.length = n
  held : ∀ m c, d.rota.holds m c = true ↔ d.rota.running m c = 1
  single : ∀ m c, d.rota.running m c ≤ 1
  total : ∑ handle ∈ Finset.range d.handles, d.rota.inFlight handle =
    d.rota.heldGuards .full + d.rota.heldGuards .prices
  pair : ∀ m, d.rota.running m .full + d.rota.running m .prices ≤ 2
  /-- A tick starts a cycle for every manager that has none of its kind, whatever the others do. -/
  started : ∀ handle < d.handles, ∀ offers c, ∃ managers : List Nat,
    (d.rota.tick handle offers c).flights =
      d.rota.flights ++ managers.map (fun m ↦ ⟨handle, m, c⟩) ∧
    managers.Nodup ∧ ∀ m, m ∈ managers ↔
      m < n ∧ d.rota.running m c = 0 ∧ (c = .prices → offers m = true)
  /-- Cycles of both kinds may run at once. -/
  together : ∀ handle < d.handles, ∀ offers, ∀ m < n, offers m = true →
    let r := (d.rota.tick handle offers .full).tick handle offers .prices
    r.running m .full = 1 ∧ r.running m .prices = 1
  /-- A manager whose cycle ended is started again by the next tick of that kind. -/
  again : ∀ f ∈ d.rota.flights, ∀ turns e, Runs ⟨d.rota.complete f, d.handles⟩ turns e →
    (∀ handle offers, .ticked handle offers f.cycle ∉ turns) → ∀ handle offers,
    (f.cycle = .prices → offers f.manager = true) → e.rota.running f.manager f.cycle = 0 ∧
      ⟨handle, f.manager, f.cycle⟩ ∈ (e.rota.tick handle offers f.cycle).flights

theorem Sound.running_eq_zero_iff (hd : d.Sound n) :
    d.rota.running m c = 0 ↔ d.rota.holds m c = false := by
  rw [hd.guarded, Bool.toNat_eq_zero]

theorem Sound.running_tick (hd : d.Sound n) {offers : Nat → Bool} (hm : m < n)
    (hoffers : c = .prices → offers m = true) (handle : Nat) :
    (d.rota.tick handle offers c).running m c = 1 := by
  rw [hd.guarded.tick handle offers c, Rota.holds_tick]
  cases hholds : d.rota.holds m c with
  | true => rfl
  | false =>
    have hstarts : m ∈ d.rota.starts offers c :=
      Rota.mem_starts_iff.2 ⟨hd.managers ▸ hm, hholds, hoffers⟩
    rw [decide_eq_true ⟨rfl, hstarts⟩]
    rfl

theorem Sound.exclusive (hd : d.Sound n) : d.Exclusive n where
  managers := hd.managers
  held m c := by rw [hd.guarded, Bool.toNat_eq_one]
  single m c := hd.guarded m c ▸ Bool.toNat_le _
  total := (Rota.sum_countP hd.handled).trans hd.guarded.length_flights
  pair m := by
    have hfull := Bool.toNat_le (d.rota.holds m .full)
    have hprices := Bool.toNat_le (d.rota.holds m .prices)
    rw [hd.guarded, hd.guarded]
    omega
  started handle _ offers c := by
    refine ⟨d.rota.starts offers c, rfl, Rota.starts_nodup .., fun m ↦ ?_⟩
    rw [Rota.mem_starts_iff, hd.managers, hd.running_eq_zero_iff]
  together handle hhandle offers m hm hoffers := by
    have hfull : Sound n ⟨d.rota.tick handle offers .full, d.handles⟩ :=
      hd.takes (.ticked offers .full hhandle)
    refine ⟨?_, hfull.running_tick hm (fun _ ↦ hoffers) handle⟩
    rw [Rota.running_tick, hd.running_tick hm (fun h ↦ by cases h), if_neg (fun h ↦ by cases h.1)]
  again f hf turns e hruns hturns handle offers hoffers := by
    have hcompleted : Sound n ⟨d.rota.complete f, d.handles⟩ := hd.takes (.completed hf)
    have hfree : (d.rota.complete f).holds f.manager f.cycle = false := by
      rw [Rota.holds_complete]
      simp
    have hlt : f.manager < n := hd.managers ▸ Rota.lt_of_holds (hd.guarded.holds_of_mem hf)
    have he : e.Sound n := hcompleted.runs hruns
    have hstill : e.rota.holds f.manager f.cycle = false := hruns.holds_eq_false hfree hturns
    refine ⟨he.running_eq_zero_iff.2 hstill, Rota.mem_flights_tick ?_⟩
    exact Rota.mem_starts_iff.2 ⟨he.managers ▸ hlt, hstill, hoffers⟩

/-- Whatever the loops of a rota do, however often they were started, cycles of one kind and manager
never overlap, and no guard is lost. -/
theorem exclusive_of_runs {α : Type} {renewal : Nat} {providers sorted : List (String × α)} {r : Rota}
    (hr : Rota.ofProviders renewal providers = .ok (r, sorted)) (h : Runs ⟨r, 0⟩ turns d) :
    d.Exclusive providers.length := by
  obtain ⟨hguarded, hlength, -, hflights⟩ := Rota.ofProviders_guarded hr
  have hstart : Sound providers.length ⟨r, 0⟩ := by
    refine ⟨hguarded, hlength, fun f hf ↦ ?_⟩
    rw [hflights] at hf
    cases hf
  exact (hstart.runs h).exclusive

/-- Two providers whose loops are started twice, with a cycle that ends meanwhile. -/
theorem exclusive_of_runs_started_twice :
    let r : Rota := ⟨["a", "b"], [.free, .free], []⟩
    let turns : List Turn := [.started, .ticked 0 (fun _ ↦ true) .full, .started,
      .completed ⟨0, 1, .full⟩, .ticked 1 (fun _ ↦ true) .full, .ticked 1 (fun m ↦ m = 0) .prices]
    Rota.ofProviders 1 [("a", ()), ("b", ())] = .ok (r, [("a", ()), ("b", ())]) ∧
      ∃ d, Runs ⟨r, 0⟩ turns d ∧
        d.rota.flights = [⟨0, 0, .full⟩, ⟨1, 1, .full⟩, ⟨1, 0, .prices⟩] ∧ d.Exclusive 2 := by
  intro r turns
  have hsorted : [("a", ()), ("b", ())].mergeSort (fun a b ↦ decide (a.1 ≤ b.1)) =
      [("a", ()), ("b", ())] := List.mergeSort_of_pairwise (by decide)
  have hr : Rota.ofProviders 1 [("a", ()), ("b", ())] = .ok (r, [("a", ()), ("b", ())]) := by
    change Except.ok (Rota.mk (List.map _ _) (List.map _ _) [], _) = _
    rw [hsorted]
    rfl
  have hruns : Runs ⟨r, 0⟩ turns ⟨_, 2⟩ :=
    .cons (.started _ _) (.cons (.ticked _ _ (by decide)) (.cons (.started _ _)
      (.cons (.completed (by decide)) (.cons (.ticked _ _ (by decide))
        (.cons (.ticked _ _ (by decide)) (.nil _))))))
  exact ⟨hr, _, hruns, by decide, exclusive_of_runs hr hruns⟩

end Dispatcher

end CloudOffers
