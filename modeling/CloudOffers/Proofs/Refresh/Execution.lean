import CloudOffers.Proofs.Refresh.Conduct
import Mathlib.Logic.Relation
/-!
Plans on their way: a plan makes one move at a time, and other things happen in between. Running a
plan in one go is the case where nothing does.
-/

namespace CloudOffers

/-- A source that is part of something larger. -/
def Source.within {σ τ : Type} (src : Source σ) (part : τ → σ) (replace : τ → σ → τ) : Source τ where
  answer r t := ((src.answer r (part t)).1, replace t (src.answer r (part t)).2)
  notes r t := src.notes r (part t)
  offersImages t := src.offersImages (part t)
  offersCurrentPrices t := src.offersCurrentPrices (part t)

/-- A step that a source in some state may have answered. -/
def Source.Answers {σ : Type} (src : Source σ) (s : σ) : Plan.Step → Prop
  | .asked r reply => reply = (src.answer r s).1
  | _ => True

/-- Inquiries that a source answers one after the other, while other things happen to it. -/
inductive Source.Dialogue {σ : Type} (src : Source σ) (beside : σ → σ → Prop) :
    σ → List Plan.Step → σ → Prop
  | nil (s : σ) : Dialogue src beside s [] s
  | meanwhile {s s' t : σ} {asked : List Plan.Step} :
      beside s s' → Dialogue src beside s' asked t → Dialogue src beside s asked t
  | asked {s t : σ} {rest : List Plan.Step} (r : Request) :
      Dialogue src beside (src.answer r s).2 rest t →
        Dialogue src beside s (.asked r (src.answer r s).1 :: rest) t
  | askedImages {s t : σ} {rest : List Plan.Step} :
      Dialogue src beside s rest t →
        Dialogue src beside s (.askedImages (src.offersImages s) :: rest) t

namespace Source.Dialogue

variable {σ : Type} {src : Source σ} {beside : σ → σ → Prop} {s t : σ} {asked rest : List Plan.Step}

open Relation (ReflTransGen)

theorem of_asked {r : Request} {reply : r.Reply}
    (h : src.Dialogue beside s (.asked r reply :: rest) t) :
    ∃ u, ReflTransGen beside s u ∧ reply = (src.answer r u).1 ∧
      src.Dialogue beside (src.answer r u).2 rest t := by
  generalize hx : Plan.Step.asked r reply :: rest = x at h
  induction h with
  | nil s => cases hx
  | meanwhile hb _ ih =>
    obtain ⟨u, hu, hreply, hrest⟩ := ih hx
    exact ⟨u, .head hb hu, hreply, hrest⟩
  | asked r' h => cases hx; exact ⟨_, .refl, rfl, h⟩
  | askedImages h => cases hx

theorem trans {u : σ} (h : src.Dialogue beside s asked t) (h' : src.Dialogue beside t rest u) :
    src.Dialogue beside s (asked ++ rest) u := by
  induction h with
  | nil s => exact h'
  | meanwhile hb _ ih => exact .meanwhile hb (ih h')
  | asked r _ ih => exact .asked r (ih h')
  | askedImages _ ih => exact .askedImages (ih h')

/-- What holds of the states on the way, and of the answers therefore. -/
theorem invariant {P : σ → Prop} {R : Plan.Step → Prop} {allowed : Request → Prop}
    (h : src.Dialogue beside s asked t) (hs : P s) (hbeside : ∀ s s', P s → beside s s' → P s')
    (hasked : ∀ r s, allowed r → P s → R (.asked r (src.answer r s).1) ∧ P (src.answer r s).2)
    (himages : ∀ s, P s → R (.askedImages (src.offersImages s)))
    (hallowed : ∀ r reply, .asked r reply ∈ asked → allowed r) : (∀ x ∈ asked, R x) ∧ P t := by
  induction h with
  | nil s => exact ⟨nofun, hs⟩
  | meanwhile hb _ ih => exact ih (hbeside _ _ hs hb) hallowed
  | asked r h ih =>
    obtain ⟨hr, hs'⟩ := hasked r _ (hallowed r _ List.mem_cons_self) hs
    obtain ⟨hx, ht⟩ := ih hs' fun r reply hmem ↦ hallowed r reply (List.mem_cons_of_mem _ hmem)
    exact ⟨List.forall_mem_cons.2 ⟨hr, hx⟩, ht⟩
  | askedImages h ih =>
    obtain ⟨hx, ht⟩ := ih hs fun r reply hmem ↦ hallowed r reply (List.mem_cons_of_mem _ hmem)
    exact ⟨List.forall_mem_cons.2 ⟨himages _ hs, hx⟩, ht⟩

theorem keeps {P : σ → Prop} (h : src.Dialogue beside s asked t) (hs : P s)
    (hbeside : ∀ s s', P s → beside s s' → P s') (hanswer : ∀ r s, P s → P (src.answer r s).2) :
    P t := by
  induction h with
  | nil s => exact hs
  | meanwhile hb _ ih => exact ih (hbeside _ _ hs hb)
  | asked r _ ih => exact ih (hanswer r _ hs)
  | askedImages _ ih => exact ih hs

end Source.Dialogue

namespace Plan

variable {α β σ : Type} (src : Source σ) (time : σ → Nat) (beside : σ → σ → Prop)

/-- The next move of a plan: what happens, how the plan goes on, and the state after it. -/
def step? : Plan α → σ → Option (List Step × Plan α × σ)
  | .done _, _ => none
  | .ask r next, s =>
    some (.asked r (src.answer r s).1 ::
        (src.notes r s).map (fun e ↦ .acted (time (src.answer r s).2) (.log e)),
      next (src.answer r s).1, (src.answer r s).2)
  | .askImages next, s => some ([.askedImages (src.offersImages s)], next (src.offersImages s), s)
  | .clock next, s => some ([], next (time s), s)
  | .act x next, s => some ([.acted (time s) x], next, s)

/-- A stretch of a plan, with what happens in it, while other things happen beside it. -/
inductive Advances : Plan α → σ → List Step → Plan α → σ → Prop
  | refl (p : Plan α) (s : σ) : Advances p s [] p s
  | meanwhile {p q : Plan α} {s s' t : σ} {steps : List Step} :
      beside s s' → Advances p s' steps q t → Advances p s steps q t
  | step {p p' q : Plan α} {s s' t : σ} {first rest : List Step} :
      p.step? src time s = some (first, p', s') → Advances p' s' rest q t →
        Advances p s (first ++ rest) q t

variable {src time beside} {p q : Plan α} {s t u : σ} {steps steps' : List Step}

theorem Advances.trans {r : Plan α} (h : Advances src time beside p s steps q t)
    (h' : Advances src time beside q t steps' r u) :
    Advances src time beside p s (steps ++ steps') r u := by
  induction h with
  | refl p s => exact h'
  | meanwhile hb _ ih => exact .meanwhile hb (ih h')
  | step hs _ ih =>
    rw [List.append_assoc]
    exact .step hs (ih h')

theorem run_bind (p : Plan α) (f : α → Plan β) (s : σ) :
    (p >>= f).run src time s =
      ((f (p.run src time s).result).run src time (p.run src time s).state).after
        (p.run src time s).steps := by
  induction p generalizing s with
  | done a => rfl
  | ask r next ih =>
    change Run.after _ ((next _ >>= f).run src time _) = _
    rw [ih]
    exact congrArg (fun steps ↦ Run.mk _ steps _) (List.append_assoc ..).symm
  | askImages next ih =>
    change Run.after _ ((next _ >>= f).run src time _) = _
    rw [ih]
    rfl
  | clock next ih => exact ih (time s) s
  | act x next ih =>
    change Run.after _ ((next >>= f).run src time _) = _
    rw [ih]
    rfl

theorem advances_run (p : Plan α) (s : σ) :
    Advances src time beside p s (p.run src time s).steps (.done (p.run src time s).result)
      (p.run src time s).state := by
  induction p generalizing s with
  | done a => exact .refl _ s
  | ask r next ih => exact .step rfl (ih (src.answer r s).1 (src.answer r s).2)
  | askImages next ih => exact .step rfl (ih (src.offersImages s) s)
  | clock next ih =>
    have hstep : Advances src time beside (.clock next) s ([] ++ _) _ _ := .step rfl (ih (time s) s)
    exact hstep
  | act x next ih => exact .step rfl (ih s)

theorem advances_run_unit (p : Plan Unit) (s : σ) :
    Advances src time beside p s (p.run src time s).steps (.done ()) (p.run src time s).state :=
  advances_run p s

theorem step?_bind {f : α → Plan β} {x : Plan β} (hp : ¬∃ a, p = .done a)
    (h : (p >>= f).step? src time s = some (steps, x, t)) :
    ∃ p', p.step? src time s = some (steps, p', t) ∧ p' >>= f = x := by
  cases p with
  | done a => exact absurd ⟨a, rfl⟩ hp
  | ask r next => cases h; exact ⟨_, rfl, rfl⟩
  | askImages next => cases h; exact ⟨_, rfl, rfl⟩
  | clock next => cases h; exact ⟨_, rfl, rfl⟩
  | act x next => cases h; exact ⟨_, rfl, rfl⟩

/-- One plan after another: somewhere on the way the first is done. -/
theorem Advances.of_bind {f : α → Plan β} {b : β} (p : Plan α)
    (h : Advances src time beside (p >>= f) s steps (.done b) t) :
    ∃ first a u rest, Advances src time beside p s first (.done a) u ∧
      Advances src time beside (f a) u rest (.done b) t ∧ steps = first ++ rest := by
  generalize hx : p >>= f = x at h
  generalize hy : Plan.done b = y at h
  induction h generalizing p with
  | refl x s =>
    subst hx
    cases p with
    | done a => exact ⟨[], a, s, [], .refl _ s, .refl _ s, rfl⟩
    | _ => cases hy
  | meanwhile hb h ih =>
    obtain ⟨first, a, u, rest, hp, hf, rfl⟩ := ih p hx hy
    exact ⟨first, a, u, rest, .meanwhile hb hp, hf, rfl⟩
  | @step x x' q s s' t now later hs h ih =>
    subst hx hy
    -- a move after the first plan is done belongs to the second
    by_cases hdone : ∃ a, p = .done a
    · obtain ⟨a, rfl⟩ := hdone
      exact ⟨[], a, s, now ++ later, .refl _ s, .step hs h, rfl⟩
    · obtain ⟨p', hmove, hx⟩ := step?_bind hdone hs
      obtain ⟨first, a, u, rest, hp, hf, rfl⟩ := ih p' hx rfl
      exact ⟨now ++ first, a, u, rest, .step hmove hp, hf, (List.append_assoc ..).symm⟩

theorem withoutLogs_notes (now : Nat) (l : List Log.Event) :
    withoutLogs (l.map (fun e ↦ .acted now (.log e))) = [] := by
  induction l with
  | nil => rfl
  | cons e l ih => exact ih

/-- After a move, a plan ensures of the rest what it ensured of the whole. -/
theorem Ensures.step {p p' : Plan α} {Q : List Step → α → Prop} {first : List Step} (hp : p.Ensures Q)
    (h : p.step? src time s = some (first, p', t)) :
    p'.Ensures (fun rest a ↦ Q (withoutLogs first ++ rest) a) := by
  cases p with
  | done a => cases h
  | ask r next =>
    cases h
    have hnotes := withoutLogs_notes (time (src.answer r s).2) (src.notes r s)
    change (next _).Ensures (fun rest a ↦ Q (.asked r _ :: (withoutLogs (List.map _ _) ++ rest)) a)
    rw [hnotes]
    exact hp _
  | askImages next => cases h; exact hp _
  | clock next => cases h; exact hp _
  | act x next => cases h; exact hp _

/-- What a plan ensures holds of it whatever happens beside it. -/
theorem Ensures.of_advances {a : α} {Q : List Step → α → Prop} (hQ : p.Ensures Q)
    (h : Advances src time beside p s steps (.done a) t) : Q (withoutLogs steps) a := by
  generalize hy : Plan.done a = y at h
  induction h generalizing Q with
  | refl p s => subst hy; exact hQ
  | meanwhile _ _ ih => exact ih hQ hy
  | step hs _ ih =>
    rw [withoutLogs_append]
    exact ih (hQ.step hs) hy

theorem Ensures.of_run (src : Source σ) (time : σ → Nat) {Q : List Step → α → Prop}
    (hQ : p.Ensures Q) (s : σ) :
    Q (withoutLogs (p.run src time s).steps) (p.run src time s).result := by
  have h : Advances src time (fun _ _ ↦ False) p s _ _ _ := advances_run p s
  exact hQ.of_advances h

theorem inquiries_notes (now : Nat) (l : List Log.Event) :
    inquiries (l.map (fun e ↦ .acted now (.log e))) = [] := by
  rw [← inquiries_withoutLogs, withoutLogs_notes]
  rfl

theorem writes_notes (now : Nat) (l : List Log.Event) :
    writes (l.map (fun e ↦ .acted now (.log e))) = [] := by
  rw [← writes_withoutLogs, withoutLogs_notes]
  rfl

theorem Advances.dialogue (h : Advances src time beside p s steps q t) :
    src.Dialogue beside s (inquiries steps) t := by
  induction h with
  | refl p s => exact .nil s
  | meanwhile hb _ ih => exact .meanwhile hb ih
  | @step p p' q s s' t first rest hs h ih =>
    rw [inquiries_append]
    cases p with
    | done a => cases hs
    | ask r next =>
      cases hs
      have hfirst := inquiries_notes (time (src.answer r s).2) (src.notes r s)
      change src.Dialogue beside s
        (.asked r _ :: (inquiries (List.map _ (src.notes r s)) ++ inquiries rest)) t
      rw [hfirst]
      exact .asked r ih
    | askImages next => cases hs; exact .askedImages ih
    | clock next => cases hs; exact ih
    | act x next => cases hs; exact ih

theorem Advances.of_clock {next : Nat → Plan α} {a : α}
    (h : Advances src time beside (.clock next) s steps (.done a) t) :
    ∃ u, Relation.ReflTransGen beside s u ∧
      Advances src time beside (next (time u)) u steps (.done a) t := by
  generalize hx : Plan.clock next = x at h
  generalize hy : Plan.done a = y at h
  induction h with
  | refl x s =>
    subst hx
    cases hy
  | meanwhile hb _ ih =>
    obtain ⟨u, hu, hnext⟩ := ih hx hy
    exact ⟨u, .head hb hu, hnext⟩
  | step hs h ih =>
    subst hx hy
    cases hs
    exact ⟨_, .refl, h⟩

theorem Advances.of_act {x : Action} {next : Plan α} {a : α}
    (h : Advances src time beside (.act x next) s steps (.done a) t) :
    ∃ u rest, Relation.ReflTransGen beside s u ∧ steps = .acted (time u) x :: rest ∧
      Advances src time beside next u rest (.done a) t := by
  generalize hx : Plan.act x next = x' at h
  generalize hy : Plan.done a = y at h
  induction h with
  | refl x s =>
    subst hx
    cases hy
  | meanwhile hb _ ih =>
    obtain ⟨u, rest, hu, hsteps, hnext⟩ := ih hx hy
    exact ⟨u, rest, .head hb hu, hsteps, hnext⟩
  | step hs h ih =>
    subst hx hy
    cases hs
    exact ⟨_, _, .refl, rfl, h⟩

section Clock

variable (hbeside : ∀ s t, beside s t → time s ≤ time t)
include hbeside

theorem time_le_of_star (h : Relation.ReflTransGen beside s t) : time s ≤ time t := by
  induction h with
  | refl => exact Nat.le_refl _
  | tail _ h ih => exact Nat.le_trans ih (hbeside _ _ h)

omit hbeside in
theorem step?_times (hanswer : ∀ r s, time (src.answer r s).2 = time s) {p p' : Plan α}
    {first : List Step} (h : p.step? src time s = some (first, p', t)) :
    time t = time s ∧ ∀ w ∈ writes first, w.time = time s := by
  cases p with
  | done a => cases h
  | ask r next =>
    cases h
    refine ⟨hanswer r s, fun w hw ↦ ?_⟩
    have hnone := writes_notes (time (src.answer r s).2) (src.notes r s)
    change w ∈ writes (List.map _ (src.notes r s)) at hw
    rw [hnone] at hw
    cases hw
  | askImages next => cases h; exact ⟨rfl, nofun⟩
  | clock next => cases h; exact ⟨rfl, nofun⟩
  | act x next =>
    cases h
    refine ⟨rfl, fun w hw ↦ ?_⟩
    cases x with
    | put k v => rw [List.mem_singleton.1 hw]
    | report e => cases hw
    | log e => cases hw

/-- If the clock never goes back, what is written on the way is written between its ends. -/
theorem Advances.times (hanswer : ∀ r s, time (src.answer r s).2 = time s)
    (h : Advances src time beside p s steps q t) :
    time s ≤ time t ∧ ∀ w ∈ writes steps, time s ≤ w.time ∧ w.time ≤ time t := by
  induction h with
  | refl p s => exact ⟨Nat.le_refl _, nofun⟩
  | meanwhile hb _ ih =>
    have hle := hbeside _ _ hb
    exact ⟨Nat.le_trans hle ih.1, fun w hw ↦ ⟨Nat.le_trans hle (ih.2 w hw).1, (ih.2 w hw).2⟩⟩
  | @step p p' q s s' t first rest hs h ih =>
    obtain ⟨htime, hfirst⟩ := step?_times hanswer hs
    rw [htime] at ih
    refine ⟨ih.1, fun w hw ↦ ?_⟩
    rw [writes_append] at hw
    rcases List.mem_append.1 hw with hw | hw
    · rw [hfirst w hw]
      exact ⟨Nat.le_refl _, ih.1⟩
    · exact ih.2 w hw

end Clock

end Plan

end CloudOffers
