import CloudOffers.Proofs.Refresh.Execution
import CloudOffers.Refresh.Guard
import Mathlib.Logic.Relation
/-!
The surroundings of a refresh: the source as it changes by itself, the clock, and the other cycles of
the provider, which its guard lets in. As long as one full cycle goes on there is no other, and the
price cycles beside it never ask for a snapshot.
-/

namespace CloudOffers

open Plan (Step)

def Plan.Avoids {α : Type} (r : Request) : Plan α → Prop
  | .done _ => True
  | .ask r' next => r' ≠ r ∧ ∀ reply, (next reply).Avoids r
  | .askImages next => ∀ offered, (next offered).Avoids r
  | .clock next => ∀ now, (next now).Avoids r
  | .act _ next => next.Avoids r

namespace Plan.Avoids

variable {α β : Type} {r : Request}

theorem bind {p : Plan α} {f : α → Plan β} (hp : p.Avoids r) (hf : ∀ a, (f a).Avoids r) :
    (p >>= f).Avoids r := by
  induction p with
  | done a => exact hf a
  | ask r' next ih => exact ⟨hp.1, fun reply ↦ ih reply (hp.2 reply)⟩
  | askImages next ih => exact fun offered ↦ ih offered (hp offered)
  | clock next ih => exact fun now ↦ ih now (hp now)
  | act x next ih => exact ih hp

theorem forM {f : α → Plan Unit} (hf : ∀ a, (f a).Avoids r) (l : List α) : (l.forM f).Avoids r := by
  induction l with
  | nil => trivial
  | cons a l ih =>
    change (f a >>= fun _ ↦ l.forM f).Avoids r
    exact bind (hf a) fun _ ↦ ih

/-- A move of a plan that avoids a request asks another one, if any, and the plan avoids it still. -/
theorem step {σ : Type} {src : Source σ} {time : σ → Nat} {p p' : Plan α} {s s' : σ}
    {steps : List Step} (hp : p.Avoids r) (h : p.step? src time s = some (steps, p', s')) :
    p'.Avoids r ∧ (s' = s ∨ ∃ r' ≠ r, s' = (src.answer r' s).2) := by
  cases p with
  | done a => cases h
  | ask r' next => cases h; exact ⟨hp.2 _, .inr ⟨r', hp.1, rfl⟩⟩
  | askImages next => cases h; exact ⟨hp _, .inl rfl⟩
  | clock next => cases h; exact ⟨hp _, .inl rfl⟩
  | act x next => cases h; exact ⟨hp, .inl rfl⟩

end Plan.Avoids

namespace PriceRefresh

theorem start_avoids (provider : String) : (start provider).Avoids .snapshot := by
  refine fun started ↦ ⟨nofun, fun reply ↦ ?_⟩
  cases reply with
  | ok regions => trivial
  | error e => trivial

theorem publishRegion_avoids (provider region : String) :
    (publishRegion provider region).Avoids .snapshot := by
  have hput (x : String × Price) : (Plan.put (.price provider region x.1) x.2).Avoids .snapshot :=
    trivial
  refine fun started ↦ ⟨nofun, fun reply ↦ ?_⟩
  cases reply with
  | ok prices =>
    have hprices := Plan.Avoids.forM hput prices.entries
    exact hprices.bind fun _ ended ↦ trivial
  | error e => trivial

theorem finish_avoids (provider : String) (started : Nat) :
    (finish provider started).Avoids .snapshot := fun _ ↦ trivial

end PriceRefresh

theorem Guard.claim?_eq_some_iff {g g' : Guard} {c : Cycle} :
    g.claim? c = some g' ↔ g.isHeld c = false ∧ g' = g.set true c := by
  cases h : g.isHeld c <;> simp [claim?, h, eq_comm]

/-- A cycle on its way. The regions of a price cycle are on their way side by side. -/
inductive Course where
  | full (rest : Plan Unit)
  | listing (rest : Plan (Nat × List String))
  | visiting (started : Nat) (regions : List (Plan Unit))
  | closing (rest : Plan Unit)

namespace Course

def start (provider : String) : Cycle → Course
  | .full => .full (FullRefresh.plan provider)
  | .prices => .listing (PriceRefresh.start provider)

def cycle : Course → Cycle
  | .full _ => .full
  | _ => .prices

@[simp] theorem cycle_start (provider : String) (c : Cycle) : (start provider c).cycle = c := by
  cases c <;> rfl

@[simp] theorem cycle_full (rest : Plan Unit) : (full rest).cycle = .full := rfl

@[simp] theorem cycle_closing (rest : Plan Unit) : (closing rest).cycle = .prices := rfl

inductive IsOver : Course → Prop
  | full : IsOver (.full (.done ()))
  | prices : IsOver (.closing (.done ()))

variable {σ : Type} (src : Source σ) (time : σ → Nat) (provider : String)

inductive Moves : Course → σ → List Step → Course → σ → Prop
  | full {p p' : Plan Unit} {s s' : σ} {steps : List Step} :
      p.step? src time s = some (steps, p', s') → Moves (.full p) s steps (.full p') s'
  | listing {p p' : Plan (Nat × List String)} {s s' : σ} {steps : List Step} :
      p.step? src time s = some (steps, p', s') → Moves (.listing p) s steps (.listing p') s'
  | fork (started : Nat) (ids : List String) (s : σ) :
      Moves (.listing (.done (started, ids))) s []
        (.visiting started (ids.map (PriceRefresh.publishRegion provider))) s
  | region {started : Nat} {before after : List (Plan Unit)} {p p' : Plan Unit} {s s' : σ}
      {steps : List Step} :
      p.step? src time s = some (steps, p', s') →
        Moves (.visiting started (before ++ p :: after)) s steps
          (.visiting started (before ++ p' :: after)) s'
  | join {started : Nat} {regions : List (Plan Unit)} {s : σ} :
      (∀ p ∈ regions, p = .done ()) →
        Moves (.visiting started regions) s [] (.closing (PriceRefresh.finish provider started)) s
  | closing {p p' : Plan Unit} {s s' : σ} {steps : List Step} :
      p.step? src time s = some (steps, p', s') → Moves (.closing p) s steps (.closing p') s'

variable {src time provider} {c c' : Course} {s s' : σ} {steps : List Step}

/-- A price cycle that never asks for a snapshot, now and later. -/
inductive IsLight : Course → Prop
  | listing {rest : Plan (Nat × List String)} : rest.Avoids .snapshot → IsLight (.listing rest)
  | visiting {started : Nat} {regions : List (Plan Unit)} :
      (∀ p ∈ regions, p.Avoids .snapshot) → IsLight (.visiting started regions)
  | closing {rest : Plan Unit} : rest.Avoids .snapshot → IsLight (.closing rest)

theorem isLight_start (provider : String) : (start provider .prices).IsLight :=
  .listing (PriceRefresh.start_avoids provider)

theorem IsLight.cycle (h : c.IsLight) : c.cycle = .prices := by cases h <;> rfl

theorem Moves.cycle (h : Moves src time provider c s steps c' s') : c'.cycle = c.cycle := by
  cases h <;> rfl

theorem IsLight.moves (hc : c.IsLight) (h : Moves src time provider c s steps c' s') :
    c'.IsLight ∧ (s' = s ∨ ∃ r ≠ Request.snapshot, s' = (src.answer r s).2) := by
  cases h with
  | full h => cases hc
  | listing h =>
    cases hc with
    | listing hp => exact (hp.step h).imp .listing id
  | fork started ids =>
    refine ⟨.visiting fun p hp ↦ ?_, .inl rfl⟩
    obtain ⟨id, -, rfl⟩ := List.mem_map.1 hp
    exact PriceRefresh.publishRegion_avoids provider id
  | @region started before after p p' _ _ _ h =>
    cases hc with
    | visiting hregions =>
      obtain ⟨hp', hs'⟩ := (hregions p (by simp)).step h
      refine ⟨.visiting fun q hq ↦ ?_, hs'⟩
      rcases List.mem_append.1 hq with hq | hq
      · exact hregions q (List.mem_append_left _ hq)
      · rcases List.mem_cons.1 hq with rfl | hq
        · exact hp'
        · exact hregions q (List.mem_append_right _ (List.mem_cons_of_mem _ hq))
  | join h => exact ⟨.closing (PriceRefresh.finish_avoids provider _), .inl rfl⟩
  | closing h =>
    cases hc with
    | closing hp => exact (hp.step h).imp .closing id

end Course

/-- What is around a refresh: the state of the source, the time, and the cycles that are claimed and
on their way. -/
structure Scene (σ : Type) where
  state : σ
  now : Nat
  guard : Guard
  courses : List Course

namespace Scene

variable {σ : Type} (src : Source σ)

def source : Source (Scene σ) := src.within Scene.state (fun s x ↦ { s with state := x })

variable (outside : σ → σ → Prop) (provider : String)

/-- What may happen beside a refresh: something from outside to the source, time, and whatever the
other cycles of the provider do. -/
inductive Changes : Scene σ → Scene σ → Prop
  | outside {s : Scene σ} {x : σ} : outside s.state x → Changes s { s with state := x }
  | pass (s : Scene σ) (n : Nat) : Changes s { s with now := s.now + n }
  | start {s : Scene σ} {c : Cycle} {g : Guard} : s.guard.claim? c = some g →
      Changes s { s with guard := g, courses := Course.start provider c :: s.courses }
  | move {s : Scene σ} {before after : List Course} {c c' : Course} {steps : List Step} {x : σ} :
      s.courses = before ++ c :: after →
      c.Moves src (fun _ ↦ s.now) provider s.state steps c' x →
        Changes s { s with state := x, courses := before ++ c' :: after }
  | finish {s : Scene σ} {before after : List Course} {c : Course} :
      s.courses = before ++ c :: after → c.IsOver →
        Changes s { s with guard := s.guard.release c.cycle, courses := before ++ after }

variable {src outside provider} {s t : Scene σ}

/-- A full cycle goes on, and the others on their way are price cycles. -/
structure Busy (s : Scene σ) : Prop where
  full : s.guard.full = true
  light : ∀ c ∈ s.courses, c.IsLight

/-- Beside a full cycle the source changes from outside or is asked for something, but for no
snapshot. -/
theorem Busy.changes (hs : s.Busy) (h : Changes src outside provider s t) :
    t.Busy ∧ (t.state = s.state ∨ outside s.state t.state ∨
      ∃ r ≠ Request.snapshot, t.state = (src.answer r s.state).2) := by
  cases h with
  | outside hx => exact ⟨⟨hs.full, hs.light⟩, .inr (.inl hx)⟩
  | pass n => exact ⟨⟨hs.full, hs.light⟩, .inl rfl⟩
  | @start c g hclaim =>
    cases c with
    | full => simp [Guard.claim?, Guard.isHeld, hs.full] at hclaim
    | prices =>
      obtain ⟨-, rfl⟩ := Guard.claim?_eq_some_iff.1 hclaim
      exact ⟨⟨hs.full, List.forall_mem_cons.2 ⟨Course.isLight_start provider, hs.light⟩⟩, .inl rfl⟩
  | move hcourses hmove =>
    have hlight := hs.light
    rw [hcourses, List.forall_mem_append, List.forall_mem_cons] at hlight
    obtain ⟨hbefore, hc, hafter⟩ := hlight
    obtain ⟨hc', hx⟩ := hc.moves hmove
    refine ⟨⟨hs.full, ?_⟩, hx.imp id .inr⟩
    exact List.forall_mem_append.2 ⟨hbefore, List.forall_mem_cons.2 ⟨hc', hafter⟩⟩
  | finish hcourses hover =>
    have hlight := hs.light
    rw [hcourses, List.forall_mem_append, List.forall_mem_cons] at hlight
    obtain ⟨hbefore, hc, hafter⟩ := hlight
    refine ⟨⟨?_, List.forall_mem_append.2 ⟨hbefore, hafter⟩⟩, .inl rfl⟩
    rw [hc.cycle]
    exact hs.full

/-- Price cycles are light, and a full cycle goes on only while its guard is held, one at a time. -/
structure Sound (s : Scene σ) : Prop where
  light : ∀ c ∈ s.courses, c.cycle = .prices → c.IsLight
  single : s.courses.countP (·.cycle = .full) ≤ if s.guard.full then 1 else 0

theorem Sound.changes (hs : s.Sound) (h : Changes src outside provider s t) : t.Sound := by
  cases h with
  | outside hx => exact ⟨hs.light, hs.single⟩
  | pass n => exact ⟨hs.light, hs.single⟩
  | @start c g hclaim =>
    obtain ⟨hfree, rfl⟩ := Guard.claim?_eq_some_iff.1 hclaim
    have hsingle := hs.single
    cases c with
    | full =>
      refine ⟨List.forall_mem_cons.2 ⟨nofun, hs.light⟩, ?_⟩
      simp only [Guard.isHeld] at hfree
      simpa [hfree, Guard.set] using hsingle
    | prices =>
      refine ⟨List.forall_mem_cons.2 ⟨fun _ ↦ Course.isLight_start provider, hs.light⟩, ?_⟩
      rw [List.countP_cons_of_neg (by simp)]
      exact hsingle
  | @move before after c c' steps x hcourses hmove =>
    obtain ⟨hlight, hsingle⟩ := hs
    rw [hcourses] at hlight hsingle
    rw [List.forall_mem_append, List.forall_mem_cons] at hlight
    obtain ⟨hbefore, hc, hafter⟩ := hlight
    refine ⟨List.forall_mem_append.2 ⟨hbefore, List.forall_mem_cons.2 ⟨fun hcycle ↦ ?_, hafter⟩⟩, ?_⟩
    · rw [hmove.cycle] at hcycle
      exact ((hc hcycle).moves hmove).1
    · simpa [List.countP_cons, hmove.cycle] using hsingle
  | @finish before after c hcourses hover =>
    obtain ⟨hlight, hsingle⟩ := hs
    rw [hcourses] at hlight hsingle
    rw [List.forall_mem_append, List.forall_mem_cons] at hlight
    refine ⟨List.forall_mem_append.2 ⟨hlight.1, hlight.2.2⟩, ?_⟩
    rw [List.countP_append, List.countP_cons] at hsingle
    rw [List.countP_append]
    -- only a full cycle that is over frees the guard, and it was the single one
    cases hover with
    | full =>
      simp only [Course.cycle_full, Guard.release, Guard.set, decide_true, if_true] at hsingle ⊢
      split at hsingle <;> omega
    | prices =>
      rw [if_neg (by simp), Nat.add_zero] at hsingle
      exact hsingle

theorem Sound.busy {g : Guard} (hs : s.Sound) (h : s.guard.claim? .full = some g) :
    Busy { s with guard := g } := by
  obtain ⟨hfree, rfl⟩ := Guard.claim?_eq_some_iff.1 h
  have hsingle := hs.single
  simp only [Guard.isHeld] at hfree
  rw [hfree] at hsingle
  refine ⟨rfl, fun c hc ↦ hs.light c hc ?_⟩
  have hnone := List.countP_eq_zero.1 (Nat.le_zero.1 hsingle) c hc
  cases hcycle : c.cycle with
  | full => simp [hcycle] at hnone
  | prices => rfl

end Scene

end CloudOffers
