import CloudOffers.Proofs.Refresh.PriceCycle
import CloudOffers.Proofs.Store.History
/-!
Many cycles on their way at once, of one or more providers, over one store that is operated on
directly as well. What some of them do is also a run without the others.
-/

namespace CloudOffers

open Plan (Step inquiries writes withoutLogs)

theorem FullRefresh.cycle_ensures (provider : String) :
    (Course.start provider .full).Ensures provider (fun steps ↦ ∃ text, Completed provider text steps) :=
  plan_ensures provider

/-- Cycles and the managers they belong to. Each manager has a source of its own. -/
structure Ensemble (μ ι : Type) (σ : μ → Type) where
  provider : μ → String
  source : (m : μ) → Source (σ m)
  manager : ι → μ
  cycle : ι → Cycle

namespace Ensemble

structure Stage (μ ι : Type) (σ : μ → Type) where
  states : (m : μ) → σ m
  courses : ι → Course

/-- What happens at one instant: a cycle moves, a source changes by itself, or the store is operated
on. -/
inductive Occurrence (μ ι : Type) where
  | moved (i : ι) (steps : List Step)
  | changed (m : μ)
  | operated (o : Operation)

abbrev Chronicle (μ ι : Type) := List (Nat × Occurrence μ ι)

variable {μ ι : Type} {σ : μ → Type}

namespace Occurrence

def history (time : Nat) : Occurrence μ ι → History
  | .moved _ steps => (writes steps).map (fun w ↦ (w.time, .put w.key w.payload))
  | .changed _ => []
  | .operated o => [(time, o)]

def steps [DecidableEq ι] (i : ι) : Occurrence μ ι → List Step
  | .moved j steps => if j = i then steps else []
  | _ => []

/-- Whether something is done by one of some managers or cycles, or is one of some operations. -/
def isAmong (managers : μ → Bool) (cycles : ι → Bool) (operations : Operation → Bool) :
    Occurrence μ ι → Bool
  | .moved i _ => cycles i
  | .changed m => managers m
  | .operated o => operations o

end Occurrence

namespace Chronicle

/-- What happens to the store. -/
def history (l : Chronicle μ ι) : History := l.flatMap (fun x ↦ x.2.history x.1)

/-- What one of the cycles does. -/
def own [DecidableEq ι] (i : ι) (l : Chronicle μ ι) : List Step := l.flatMap (fun x ↦ x.2.steps i)

theorem mem_own_iff [DecidableEq ι] {l : Chronicle μ ι} {i : ι} {y : Step} :
    y ∈ l.own i ↔ ∃ time steps, (time, .moved i steps) ∈ l ∧ y ∈ steps := by
  rw [own, List.mem_flatMap]
  constructor
  · rintro ⟨⟨time, x⟩, hx, hy⟩
    cases x with
    | moved j steps =>
      change y ∈ if j = i then steps else [] at hy
      by_cases hji : j = i
      · subst hji
        rw [if_pos rfl] at hy
        exact ⟨time, steps, hx, hy⟩
      · rw [if_neg hji] at hy
        cases hy
    | changed m => cases hy
    | operated o => cases hy
  · rintro ⟨time, steps, hmem, hy⟩
    refine ⟨_, hmem, ?_⟩
    change y ∈ if i = i then steps else []
    rwa [if_pos rfl]

theorem mem_writes_own_iff [DecidableEq ι] {l : Chronicle μ ι} {i : ι} {w : Write} :
    w ∈ writes (l.own i) ↔ ∃ time steps, (time, .moved i steps) ∈ l ∧ w ∈ writes steps := by
  simp only [writes, List.mem_filterMap, mem_own_iff]
  constructor
  · rintro ⟨y, ⟨time, steps, hmem, hy⟩, hw⟩
    exact ⟨time, steps, hmem, y, hy, hw⟩
  · rintro ⟨time, steps, hmem, y, hy, hw⟩
    exact ⟨y, ⟨time, steps, hmem, hy⟩, hw⟩

theorem writes_history_moved (time : Nat) (i : ι) (steps : List Step) :
    History.writes ((.moved i steps : Occurrence μ ι).history time) = writes steps := by
  rw [Occurrence.history]
  induction writes steps with
  | nil => rfl
  | cons w l ih => exact congrArg (List.cons w) ih

theorem writes_history_cons (time : Nat) (x : Occurrence μ ι) (l : Chronicle μ ι) :
    History.writes (Chronicle.history ((time, x) :: l)) =
      History.writes (x.history time) ++ History.writes l.history :=
  History.writes_append _ _

theorem mem_writes_history {l : Chronicle μ ι} {time : Nat} {i : ι} {steps : List Step} {w : Write}
    (h : (time, .moved i steps) ∈ l) (hw : w ∈ writes steps) : w ∈ History.writes l.history :=
  History.mem_writes.2 (List.mem_flatMap.2 ⟨_, h, List.mem_map.2 ⟨w, hw, rfl⟩⟩)

theorem purge_not_mem_history {l : Chronicle μ ι} (hl : ∀ time o, (time, .operated o) ∉ l)
    (time : Nat) : (time, .purge) ∉ l.history := by
  intro h
  obtain ⟨⟨time', x⟩, hx, hmem⟩ := List.mem_flatMap.1 h
  cases x with
  | moved i steps =>
    obtain ⟨w, -, heq⟩ := List.mem_map.1 hmem
    cases heq
  | changed m => cases hmem
  | operated o => exact hl time' o hx

theorem kept?_after_history {l : Chronicle μ ι} (hl : ∀ time o, (time, .operated o) ∉ l)
    (store : Store) (k : Key) :
    (store.after l.history).kept? k =
      (Write.latest k (History.writes l.history)).or (store.kept? k) := by
  rw [Store.after_eq_writeAll store (purge_not_mem_history hl), Store.kept?_writeAll]

/-- Where the last write under a key took place. -/
theorem exists_of_latest {l : Chronicle μ ι} (hl : ∀ time o, (time, .operated o) ∉ l) {k : Key}
    {e : Entry k.Payload} (h : Write.latest k (History.writes l.history) = some e) :
    ∃ before time i steps later, l = before ++ (time, .moved i steps) :: later ∧
      ⟨e.writtenAt, k, e.value⟩ ∈ writes steps ∧
      ∀ time j steps, (time, .moved j steps) ∈ later → ∀ w ∈ writes steps, w.key ≠ k := by
  induction l with
  | nil => cases h
  | cons x l ih =>
    obtain ⟨time, x⟩ := x
    rw [writes_history_cons, Write.latest_append] at h
    cases hlast : Write.latest k (History.writes (history l)) with
    | some e' =>
      rw [hlast] at h
      cases h
      have hrest (time : Nat) (o : Operation) : (time, .operated o) ∉ l :=
        fun hmem ↦ hl time o (List.mem_cons_of_mem _ hmem)
      obtain ⟨before, time', i, steps, later, rfl, hw, hlater⟩ := ih hrest hlast
      exact ⟨(time, x) :: before, time', i, steps, later, rfl, hw, hlater⟩
    | none =>
      rw [hlast, Option.none_or] at h
      cases x with
      | moved i steps =>
        rw [writes_history_moved] at h
        refine ⟨[], time, i, steps, l, rfl, Write.mem_of_latest h, fun _ _ _ hmem w hw ↦ ?_⟩
        exact Write.latest_eq_none_iff.1 hlast w (mem_writes_history hmem hw)
      | changed m => cases h
      | operated o => exact absurd List.mem_cons_self (hl time o)

/-- What is left out and does not write under a key makes no difference to it. -/
theorem latest_filter {l : Chronicle μ ι} {k : Key} (isKept : Nat × Occurrence μ ι → Bool)
    (h : ∀ x ∈ l, isKept x = false → ∀ w ∈ History.writes (x.2.history x.1), w.key ≠ k) :
    Write.latest k (History.writes (history (l.filter isKept))) =
      Write.latest k (History.writes l.history) := by
  induction l with
  | nil => rfl
  | cons x l ih =>
    obtain ⟨hx, hrest⟩ := List.forall_mem_cons.1 h
    rw [writes_history_cons, Write.latest_append, ← ih hrest, List.filter_cons]
    cases hkept : isKept x with
    | true => rw [if_pos rfl, writes_history_cons, Write.latest_append]
    | false =>
      rw [if_neg Bool.false_ne_true, Write.latest_eq_none_iff.2 (hx hkept), Option.or_none]

end Chronicle

namespace Stage

def setState [DecidableEq μ] (a : Stage μ ι σ) (m : μ) (x : σ m) : Stage μ ι σ :=
  { a with states := Function.update a.states m x }

def setCourse [DecidableEq ι] (a : Stage μ ι σ) (i : ι) (c : Course) : Stage μ ι σ :=
  { a with courses := Function.update a.courses i c }

variable (managers : μ → Bool) (cycles : ι → Bool)

structure AgreesOn (a b : Stage μ ι σ) : Prop where
  states : ∀ m, managers m = true → a.states m = b.states m
  courses : ∀ i, cycles i = true → a.courses i = b.courses i

namespace AgreesOn

variable {managers cycles} {a b : Stage μ ι σ}

theorem refl (a : Stage μ ι σ) : a.AgreesOn managers cycles a := ⟨fun _ _ ↦ rfl, fun _ _ ↦ rfl⟩

theorem setState [DecidableEq μ] (h : a.AgreesOn managers cycles b) (m : μ) (x : σ m) :
    (a.setState m x).AgreesOn managers cycles (b.setState m x) where
  states n hn := by
    by_cases hnm : n = m
    · subst hnm
      exact (Function.update_self ..).trans (Function.update_self ..).symm
    · exact (Function.update_of_ne hnm ..).trans
        ((h.states n hn).trans (Function.update_of_ne hnm ..).symm)
  courses := h.courses

theorem setState_left [DecidableEq μ] (h : a.AgreesOn managers cycles b) {m : μ} (x : σ m)
    (hm : managers m = true → Subsingleton (σ m)) : (a.setState m x).AgreesOn managers cycles b where
  states n hn := by
    by_cases hnm : n = m
    · subst hnm
      exact (hm hn).elim _ _
    · exact (Function.update_of_ne hnm ..).trans (h.states n hn)
  courses := h.courses

theorem setCourse [DecidableEq ι] (h : a.AgreesOn managers cycles b) (i : ι) (c : Course) :
    (a.setCourse i c).AgreesOn managers cycles (b.setCourse i c) where
  states := h.states
  courses j hj := by
    by_cases hji : j = i
    · subst hji
      exact (Function.update_self ..).trans (Function.update_self j c b.courses).symm
    · exact (Function.update_of_ne hji ..).trans
        ((h.courses j hj).trans (Function.update_of_ne hji ..).symm)

theorem setCourse_left [DecidableEq ι] (h : a.AgreesOn managers cycles b) {i : ι} (c : Course)
    (hi : cycles i = false) : (a.setCourse i c).AgreesOn managers cycles b where
  states := h.states
  courses j hj := by
    have hji : j ≠ i := by
      rintro rfl
      exact Bool.noConfusion (hj.symm.trans hi)
    exact (Function.update_of_ne hji ..).trans (h.courses j hj)

end AgreesOn

end Stage

variable [DecidableEq μ] [DecidableEq ι] (E : Ensemble μ ι σ)

def start (states : (m : μ) → σ m) : Stage μ ι σ where
  states := states
  courses i := Course.start (E.provider (E.manager i)) (E.cycle i)

inductive Takes (a : Stage μ ι σ) (time : Nat) : Occurrence μ ι → Stage μ ι σ → Prop
  | moved {i : ι} {steps : List Step} {c : Course} {x : σ (E.manager i)} :
      (a.courses i).Moves (E.source (E.manager i)) (fun _ ↦ time) (E.provider (E.manager i))
          (a.states (E.manager i)) steps c x →
        Takes a time (.moved i steps) ((a.setState (E.manager i) x).setCourse i c)
  | changed (m : μ) (x : σ m) : Takes a time (.changed m) (a.setState m x)
  | operated (o : Operation) : Takes a time (.operated o) a

inductive Runs : Stage μ ι σ → Chronicle μ ι → Stage μ ι σ → Prop
  | refl (a : Stage μ ι σ) : Runs a [] a
  | step {a b c : Stage μ ι σ} {time : Nat} {x : Occurrence μ ι} {l : Chronicle μ ι} :
      E.Takes a time x b → Runs b l c → Runs a ((time, x) :: l) c

variable {E} {a a' b c : Stage μ ι σ} {l l' : Chronicle μ ι} {time : Nat} {x : Occurrence μ ι}

theorem Runs.trans (h : E.Runs a l b) (h' : E.Runs b l' c) : E.Runs a (l ++ l') c := by
  induction h with
  | refl a => exact h'
  | step hx _ ih => exact .step hx (ih h')

section Part

variable {managers : μ → Bool} {cycles : ι → Bool} {operations : Operation → Bool}

variable (E managers cycles) in
/-- Managers and cycles that the others leave alone: another cycle of such a manager finds nothing
in its source to change. -/
structure IsClosed : Prop where
  managed : ∀ i, cycles i = true → managers (E.manager i) = true
  apart : ∀ i, cycles i = false → managers (E.manager i) = true → Subsingleton (σ (E.manager i))

theorem Takes.kept (hE : E.IsClosed managers cycles) (h : E.Takes a time x b)
    (ha : a.AgreesOn managers cycles a') (hx : x.isAmong managers cycles operations = true) :
    ∃ b', E.Takes a' time x b' ∧ b.AgreesOn managers cycles b' := by
  cases h with
  | @moved i steps c y hm =>
    rw [ha.courses i hx, ha.states _ (hE.managed i hx)] at hm
    exact ⟨_, .moved hm, (ha.setState _ y).setCourse i c⟩
  | changed n y => exact ⟨_, .changed n y, ha.setState n y⟩
  | operated o => exact ⟨a', .operated o, ha⟩

theorem Takes.dropped (hE : E.IsClosed managers cycles) (h : E.Takes a time x b)
    (ha : a.AgreesOn managers cycles a') (hx : x.isAmong managers cycles operations = false) :
    b.AgreesOn managers cycles a' := by
  cases h with
  | @moved i steps c y hm =>
    exact (ha.setState_left y (hE.apart i hx)).setCourse_left c hx
  | changed n y =>
    refine ha.setState_left y fun hn ↦ ?_
    exact Bool.noConfusion (hn.symm.trans hx)
  | operated o => exact ha

/-- Whatever else is left out of a run, the rest of it happens as it did, each at its time. -/
theorem Runs.filter (hE : E.IsClosed managers cycles) (h : E.Runs a l b)
    (ha : a.AgreesOn managers cycles a') :
    ∃ b', E.Runs a' (l.filter (fun y ↦ y.2.isAmong managers cycles operations)) b' ∧
      b.AgreesOn managers cycles b' := by
  induction h generalizing a' with
  | refl a => exact ⟨a', .refl a', ha⟩
  | @step a b c time x l hx _ ih =>
    cases hkept : x.isAmong managers cycles operations with
    | true =>
      obtain ⟨b', hx', hb⟩ := hx.kept hE ha hkept
      obtain ⟨c', hrest, hc⟩ := ih hb
      rw [List.filter_cons, if_pos hkept]
      exact ⟨c', .step hx' hrest, hc⟩
    | false =>
      obtain ⟨c', hrest, hc⟩ := ih (hx.dropped hE ha hkept)
      rw [List.filter_cons, if_neg (by simp [hkept])]
      exact ⟨c', hrest, hc⟩

end Part

section Own

variable {i : ι} {Q : List Step → Prop}

theorem Takes.ensures (h : E.Takes a time x b)
    (hQ : (a.courses i).Ensures (E.provider (E.manager i)) Q) :
    (b.courses i).Ensures (E.provider (E.manager i))
      (fun rest ↦ Q (withoutLogs (x.steps i) ++ rest)) := by
  cases h with
  | @moved j steps c y hm =>
    rw [Occurrence.steps]
    by_cases hji : j = i
    · subst hji
      have hself : ((a.setState (E.manager j) y).setCourse j c).courses j = c :=
        Function.update_self ..
      rw [if_pos rfl, hself]
      exact hQ.moves hm
    · have hother : ((a.setState (E.manager j) y).setCourse j c).courses i = a.courses i :=
        Function.update_of_ne (Ne.symm hji) ..
      rw [if_neg hji, hother]
      exact hQ
  | changed m y => exact hQ
  | operated o => exact hQ

/-- What a cycle ensures by itself, it ensures among others. -/
theorem Runs.ensures (h : E.Runs a l b) (hQ : (a.courses i).Ensures (E.provider (E.manager i)) Q) :
    (b.courses i).Ensures (E.provider (E.manager i))
      (fun rest ↦ Q (withoutLogs (l.own i) ++ rest)) := by
  induction h generalizing Q with
  | refl a => exact hQ
  | @step a b c time x l hx _ ih =>
    have hrest := ih (hx.ensures hQ)
    simp only [← List.append_assoc, ← Plan.withoutLogs_append] at hrest
    exact hrest

theorem Runs.ensures_ended {k : Cycle} (h : E.Runs a l b)
    (hQ : (a.courses i).Ensures (E.provider (E.manager i)) Q) (hover : b.courses i = Course.ended k) :
    Q (withoutLogs (l.own i)) := by
  have hlast := h.ensures hQ
  rw [hover] at hlast
  have hall := Course.ensures_ended hlast
  rwa [List.append_nil] at hall

/-- A stretch of a cycle by itself is also one among others, at one instant. -/
theorem runs_of_course {d : Course} {t : σ (E.manager i)} {steps : List Step} (a : Stage μ ι σ)
    (h : Course.Runs (E.source (E.manager i)) (fun _ ↦ time) (fun _ _ ↦ False)
      (E.provider (E.manager i)) (a.courses i) (a.states (E.manager i)) steps d t) :
    ∃ l : Chronicle μ ι, E.Runs a l ((a.setState (E.manager i) t).setCourse i d) ∧
      l.own i = steps ∧ ∀ x ∈ l, ∃ first, x = (time, .moved i first) := by
  generalize hc : a.courses i = c at h
  generalize hs : a.states (E.manager i) = s at h
  induction h generalizing a with
  | refl c s =>
    refine ⟨[], ?_, rfl, nofun⟩
    have hsame : (a.setState (E.manager i) s).setCourse i c = a := by
      rw [← hc, ← hs, Stage.setState, Stage.setCourse, Function.update_eq_self,
        Function.update_eq_self]
    rw [hsame]
    exact .refl a
  | meanwhile hb => exact hb.elim
  | @move c c' d s s' t first rest hm _ ih =>
    subst hc hs
    let next := (a.setState (E.manager i) s').setCourse i c'
    obtain ⟨l, hruns, hown, hall⟩ := ih next (Function.update_self ..) (Function.update_self ..)
    have hlast : (next.setState (E.manager i) t).setCourse i d =
        (a.setState (E.manager i) t).setCourse i d := by
      simp only [next, Stage.setState, Stage.setCourse, Function.update_idem]
    rw [hlast] at hruns
    refine ⟨(time, .moved i first) :: l, .step (.moved hm) hruns, ?_, ?_⟩
    · rw [← hown]
      change (if i = i then first else []) ++ l.own i = first ++ l.own i
      rw [if_pos rfl]
    · exact List.forall_mem_cons.2 ⟨⟨first, rfl⟩, hall⟩

end Own

theorem Runs.moves (h : E.Runs a l b) {i : ι} {steps : List Step} (hmem : (time, .moved i steps) ∈ l) :
    ∃ c s d t, Course.Moves (E.source (E.manager i)) (fun _ ↦ time) (E.provider (E.manager i))
      c s steps d t := by
  induction h with
  | refl a => cases hmem
  | step hx _ ih =>
    rcases List.mem_cons.1 hmem with heq | hmem
    · cases heq
      cases hx with
      | moved hm => exact ⟨_, _, _, _, hm⟩
    · exact ih hmem

/-- A write happens at the time of the move it is part of. -/
theorem Runs.times (h : E.Runs a l b) {i : ι} {steps : List Step} (hmem : (time, .moved i steps) ∈ l)
    {w : Write} (hw : w ∈ writes steps) : w.time = time := by
  obtain ⟨c, s, d, t, hm⟩ := h.moves hmem
  exact (hm.times fun _ _ ↦ rfl).2 w hw

end Ensemble

end CloudOffers
