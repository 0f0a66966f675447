import CloudOffers.Proofs.Refresh.Scene
/-!
Cycles as they go on, the regions of a price cycle side by side. What the regions ensure one after the
other, up to the order in which it happens, they ensure in every interleaving.
-/

namespace CloudOffers

open Plan (Step inquiries writes withoutLogs)

/-- A source that has no answers. -/
def Source.mute : Source Unit where
  answer _ s := (.error (.unavailable ""), s)
  notes _ _ := []
  offersImages _ := false
  offersCurrentPrices _ := false

namespace Course

variable {σ : Type} (src : Source σ) (time : σ → Nat) (beside : σ → σ → Prop) (provider : String)

/-- A stretch of a cycle, with what happens in it, while other things happen beside it. -/
inductive Runs : Course → σ → List Step → Course → σ → Prop
  | refl (c : Course) (s : σ) : Runs c s [] c s
  | meanwhile {c d : Course} {s s' t : σ} {steps : List Step} :
      beside s s' → Runs c s' steps d t → Runs c s steps d t
  | move {c c' d : Course} {s s' t : σ} {first rest : List Step} :
      c.Moves src time provider s first c' s' → Runs c' s' rest d t → Runs c s (first ++ rest) d t

/-- What is left of a cycle when its regions are taken one after the other. -/
def rest : Course → Plan Unit
  | .full p => p
  | .listing p => do
    let (started, ids) ← p
    ids.forM (PriceRefresh.publishRegion provider)
    PriceRefresh.finish provider started
  | .visiting started regions => do
    regions.forM id
    PriceRefresh.finish provider started
  | .closing p => p

def ended : Cycle → Course
  | .full => .full (.done ())
  | .prices => .closing (.done ())

theorem rest_start (c : Cycle) : (start provider c).rest provider = c.plan provider := by
  cases c <;> rfl

variable {src time beside provider} {c d : Course} {s t u : σ} {steps steps' : List Step}

theorem Runs.trans {d' : Course} (h : Runs src time beside provider c s steps d t)
    (h' : Runs src time beside provider d t steps' d' u) :
    Runs src time beside provider c s (steps ++ steps') d' u := by
  induction h with
  | refl c s => exact h'
  | meanwhile hb _ ih => exact .meanwhile hb (ih h')
  | move hm _ ih =>
    rw [List.append_assoc]
    exact .move hm (ih h')

theorem Runs.single {s' : σ} (h : c.Moves src time provider s steps d s') :
    Runs src time beside provider c s steps d s' := by
  have hrun : Runs src time beside provider c s (steps ++ []) d s' := .move h (.refl d s')
  rwa [List.append_nil] at hrun

theorem Runs.cycle (h : Runs src time beside provider c s steps d t) : d.cycle = c.cycle := by
  induction h with
  | refl c s => rfl
  | meanwhile _ _ ih => exact ih
  | move hm _ ih => exact ih.trans hm.cycle

/-- A plan that is part of a cycle takes the cycle along. -/
theorem Runs.of_advances {α : Type} (part : Plan α → Course) {p q : Plan α}
    (hpart : ∀ {p p' : Plan α} {s s' : σ} {first : List Step},
      p.step? src time s = some (first, p', s') →
        (part p).Moves src time provider s first (part p') s')
    (h : Plan.Advances src time beside p s steps q t) :
    Runs src time beside provider (part p) s steps (part q) t := by
  induction h with
  | refl p s => exact .refl _ s
  | meanwhile hb _ ih => exact .meanwhile hb ih
  | step hs _ ih => exact .move (hpart hs) ih

theorem Runs.of_run {α : Type} (part : Plan α → Course)
    (hpart : ∀ {p p' : Plan α} {s s' : σ} {first : List Step},
      p.step? src time s = some (first, p', s') →
        (part p).Moves src time provider s first (part p') s') (p : Plan α) (s : σ) :
    Runs src time beside provider (part p) s (p.run src time s).steps
      (part (.done (p.run src time s).result)) (p.run src time s).state :=
  .of_advances part hpart (Plan.advances_run p s)

section Progress

variable (src time beside provider)

theorem runs_regions (started : Nat) {spent : List (Plan Unit)} (hover : ∀ p ∈ spent, p = .done ())
    (regions : List (Plan Unit)) (s : σ) :
    ∃ spent', (∀ p ∈ spent', p = .done ()) ∧
      Runs src time beside provider (.visiting started (spent ++ regions)) s
        ((regions.forM id).run src time s).steps (.visiting started spent')
        ((regions.forM id).run src time s).state := by
  induction regions generalizing spent s with
  | nil =>
    rw [List.append_nil]
    exact ⟨spent, hover, .refl _ s⟩
  | cons p regions ih =>
    have hfirst : Runs src time beside provider (.visiting started (spent ++ p :: regions)) s
        (p.run src time s).steps (.visiting started (spent ++ .done () :: regions))
        (p.run src time s).state :=
      .of_run (fun p ↦ .visiting started (spent ++ p :: regions)) .region p s
    have hover' : ∀ q ∈ spent ++ [.done ()], q = .done () :=
      List.forall_mem_append.2 ⟨hover, by simp⟩
    obtain ⟨spent', hdone, hrest⟩ := ih hover' (p.run src time s).state
    rw [List.append_assoc] at hrest
    have hrun : ((p :: regions).forM id).run src time s =
        ((regions.forM id).run src time (p.run src time s).state).after (p.run src time s).steps :=
      Plan.run_bind p (fun _ ↦ regions.forM id) s
    rw [hrun]
    exact ⟨spent', hdone, hfirst.trans hrest⟩

theorem runs_closing (p : Plan Unit) (s : σ) :
    Runs src time beside provider (.closing p) s (p.run src time s).steps (.closing (.done ()))
      (p.run src time s).state :=
  .of_advances .closing .closing (Plan.advances_run_unit p s)

theorem runs_visiting (started : Nat) (regions : List (Plan Unit)) (s : σ) :
    Runs src time beside provider (.visiting started regions) s
      (((visiting started regions).rest provider).run src time s).steps (.closing (.done ()))
      (((visiting started regions).rest provider).run src time s).state := by
  have hnone : ∀ p ∈ ([] : List (Plan Unit)), p = .done () := nofun
  obtain ⟨spent, hover, hregions⟩ := runs_regions src time beside provider started hnone regions s
  have hjoin : Runs src time beside provider (.visiting started spent) _ [] _ _ :=
    .single (.join (s := ((regions.forM id).run src time s).state) hover)
  have hrun : ((visiting started regions).rest provider).run src time s = _ :=
    Plan.run_bind (regions.forM id) (fun _ ↦ PriceRefresh.finish provider started) s
  rw [hrun]
  exact hregions.trans (hjoin.trans (runs_closing src time beside provider _ _))

/-- A cycle can always go on to its end: nothing keeps the regions that are left from being taken one
after the other. -/
theorem runs_rest (c : Course) (s : σ) :
    Runs src time beside provider c s ((c.rest provider).run src time s).steps (ended c.cycle)
      ((c.rest provider).run src time s).state := by
  cases c with
  | full p => exact .of_advances .full .full (Plan.advances_run_unit p s)
  | closing p => exact runs_closing src time beside provider p s
  | visiting started regions => exact runs_visiting src time beside provider started regions s
  | listing p =>
    have hfirst : Runs src time beside provider (.listing p) s _ _ _ := .of_run .listing .listing p s
    have hrun : ((listing p).rest provider).run src time s = _ := Plan.run_bind p _ s
    rw [hrun]
    generalize p.run src time s = r at hfirst
    obtain ⟨⟨started, ids⟩, first, u⟩ := r
    have hfork : Runs src time beside provider (.listing (.done (started, ids))) u [] _ _ :=
      .single (.fork started ids u)
    have hrest := runs_visiting src time beside provider started
      (ids.map (PriceRefresh.publishRegion provider)) u
    have hmap : (ids.map (PriceRefresh.publishRegion provider)).forM id =
        ids.forM (PriceRefresh.publishRegion provider) := List.forM_map ..
    simp only [rest, hmap] at hrest
    exact hfirst.trans (hfork.trans hrest)

theorem runs_plan (c : Cycle) (s : σ) :
    Runs src time beside provider (start provider c) s ((c.plan provider).run src time s).steps
      (ended c) ((c.plan provider).run src time s).state := by
  have h := runs_rest src time beside provider (start provider c) s
  rwa [rest_start, cycle_start] at h

end Progress

theorem Moves.dialogue {s' : σ} (h : c.Moves src time provider s steps d s') :
    src.Dialogue beside s (inquiries steps) s' := by
  have hstep {α : Type} {p p' : Plan α} {s s' : σ} {steps : List Step}
      (h : p.step? src time s = some (steps, p', s')) :
      src.Dialogue beside s (inquiries steps) s' := by
    have hsingle : Plan.Advances src time beside p s (steps ++ []) p' s' := .step h (.refl p' s')
    rw [List.append_nil] at hsingle
    exact hsingle.dialogue
  cases h with
  | full h | listing h | region h | closing h => exact hstep h
  | fork | join => exact .nil s

theorem Runs.dialogue (h : Runs src time beside provider c s steps d t) :
    src.Dialogue beside s (inquiries steps) t := by
  induction h with
  | refl c s => exact .nil s
  | meanwhile hb _ ih => exact .meanwhile hb ih
  | move hm _ ih =>
    rw [Plan.inquiries_append]
    exact hm.dialogue.trans ih

theorem Moves.times {s' : σ} (hanswer : ∀ r s, time (src.answer r s).2 = time s)
    (h : c.Moves src time provider s steps d s') :
    time s' = time s ∧ ∀ w ∈ writes steps, w.time = time s := by
  cases h with
  | full h | listing h | region h | closing h => exact Plan.step?_times hanswer h
  | fork | join => exact ⟨rfl, nofun⟩

theorem Runs.times (hbeside : ∀ s t, beside s t → time s ≤ time t)
    (hanswer : ∀ r s, time (src.answer r s).2 = time s)
    (h : Runs src time beside provider c s steps d t) :
    time s ≤ time t ∧ ∀ w ∈ writes steps, time s ≤ w.time ∧ w.time ≤ time t := by
  induction h with
  | refl c s => exact ⟨Nat.le_refl _, nofun⟩
  | meanwhile hb _ ih =>
    have hle := hbeside _ _ hb
    exact ⟨Nat.le_trans hle ih.1, fun w hw ↦ ⟨Nat.le_trans hle (ih.2 w hw).1, (ih.2 w hw).2⟩⟩
  | @move c c' d s s' t first rest hm h ih =>
    obtain ⟨htime, hfirst⟩ := hm.times hanswer
    rw [htime] at ih
    refine ⟨ih.1, fun w hw ↦ ?_⟩
    rw [Plan.writes_append] at hw
    rcases List.mem_append.1 hw with hw | hw
    · rw [hfirst w hw]
      exact ⟨Nat.le_refl _, ih.1⟩
    · exact ih.2 w hw

variable (provider)

/-- What regions ensure one after the other in whatever order it happens, and after it the end. -/
def Visits (started : Nat) (regions : List (Plan Unit)) (Q : List Step → Prop) : Prop :=
  (regions.forM id).Ensures (fun steps _ ↦ ∀ steps', steps'.Perm steps →
    (PriceRefresh.finish provider started).Ensures (fun last _ ↦ Q (steps' ++ last)))

/-- Whatever a cycle is answered, what it does besides logging is as told. -/
def Ensures : Course → (List Step → Prop) → Prop
  | .full p, Q | .closing p, Q => p.Ensures (fun steps _ ↦ Q steps)
  | .listing p, Q => p.Ensures (fun first x ↦
      Visits provider x.1 (x.2.map (PriceRefresh.publishRegion provider)) (fun rest ↦ Q (first ++ rest)))
  | .visiting started regions, Q => Visits provider started regions Q

variable {provider} {Q Q' : List Step → Prop}

theorem Visits.mono {started : Nat} {regions : List (Plan Unit)}
    (h : Visits provider started regions Q) (hQ : ∀ steps, Q steps → Q' steps) :
    Visits provider started regions Q' := by
  apply Plan.Ensures.mono h
  intro steps _ hsteps steps' hperm
  apply (hsteps steps' hperm).mono
  intro last _ hlast
  exact hQ _ hlast

theorem Ensures.mono (h : c.Ensures provider Q) (hQ : ∀ steps, Q steps → Q' steps) :
    c.Ensures provider Q' := by
  cases c with
  | full p | closing p => exact Plan.Ensures.mono h fun steps _ ↦ hQ steps
  | listing p => exact Plan.Ensures.mono h fun first x hx ↦ hx.mono fun rest ↦ hQ (first ++ rest)
  | visiting started regions => exact Visits.mono h hQ

theorem ensures_ended {k : Cycle} (h : (ended k).Ensures provider Q) : Q [] := by
  cases k with
  | full => exact h
  | prices => exact h

theorem visits_nil {started : Nat} {regions : List (Plan Unit)}
    (h : Visits provider started regions Q) (hover : ∀ p ∈ regions, p = .done ()) :
    (PriceRefresh.finish provider started).Ensures (fun last _ ↦ Q last) := by
  induction regions with
  | nil => exact h [] .nil
  | cons p regions ih =>
    obtain ⟨hp, hregions⟩ := List.forall_mem_cons.1 hover
    subst hp
    exact ih h hregions

/-- The move of one of the regions may as well have come first of all. -/
theorem forM_ensures_step {p p' : Plan Unit} {first : List Step} {s' : σ}
    (h : p.step? src time s = some (first, p', s')) (before after : List (Plan Unit))
    {R : List Step → Prop} (hR : ∀ steps steps', steps'.Perm steps → R steps → R steps')
    (hp : ((before ++ p :: after).forM id).Ensures (fun steps _ ↦ R steps)) :
    ((before ++ p' :: after).forM id).Ensures (fun steps _ ↦ R (withoutLogs first ++ steps)) := by
  induction before generalizing R with
  | nil =>
    change (p >>= fun _ ↦ after.forM id).Ensures _ at hp
    change (p' >>= fun _ ↦ after.forM id).Ensures _
    apply Plan.Ensures.bind
    apply (hp.of_bind.step h).mono
    intro rest _ hafter
    apply hafter.mono
    intro last _ hlast
    rwa [List.append_assoc] at hlast
  | cons q before ih =>
    change (q >>= fun _ ↦ (before ++ p :: after).forM id).Ensures _ at hp
    change (q >>= fun _ ↦ (before ++ p' :: after).forM id).Ensures _
    apply Plan.Ensures.bind
    apply hp.of_bind.mono
    intro part _ hpart
    have hpart' : ∀ steps steps', steps'.Perm steps → R (part ++ steps) → R (part ++ steps') :=
      fun _ _ hperm ↦ hR _ _ (hperm.append_left part)
    apply (ih hpart' hpart).mono
    intro steps _ hsteps
    have hperm : (withoutLogs first ++ (part ++ steps)).Perm (part ++ (withoutLogs first ++ steps)) := by
      rw [← List.append_assoc, ← List.append_assoc]
      exact List.perm_append_comm.append_right steps
    exact hR _ _ hperm hsteps

theorem Visits.step {started : Nat} {before after : List (Plan Unit)} {p p' : Plan Unit}
    {first : List Step} {s' : σ} (h : p.step? src time s = some (first, p', s'))
    (hp : Visits provider started (before ++ p :: after) Q) :
    Visits provider started (before ++ p' :: after) (fun rest ↦ Q (withoutLogs first ++ rest)) := by
  have hclosed (steps steps' : List Step) (hperm : steps'.Perm steps)
      (hall : ∀ all, all.Perm steps →
        (PriceRefresh.finish provider started).Ensures (fun last _ ↦ Q (all ++ last))) :
      ∀ all, all.Perm steps' →
        (PriceRefresh.finish provider started).Ensures (fun last _ ↦ Q (all ++ last)) :=
    fun all hall' ↦ hall all (hall'.trans hperm)
  apply (forM_ensures_step h before after hclosed hp).mono
  intro steps _ hsteps steps' hperm
  apply (hsteps _ (hperm.append_left _)).mono
  intro last _ hlast
  rwa [List.append_assoc] at hlast

theorem Ensures.moves {s' : σ} (hQ : c.Ensures provider Q)
    (h : c.Moves src time provider s steps d s') :
    d.Ensures provider (fun rest ↦ Q (withoutLogs steps ++ rest)) := by
  cases h with
  | full h | closing h => exact Plan.Ensures.step hQ h
  | listing h =>
    apply (Plan.Ensures.step hQ h).mono
    intro first x hvisits
    simpa only [List.append_assoc] using hvisits
  | fork started ids s => exact hQ
  | region h => exact Visits.step h hQ
  | join hover => exact visits_nil hQ hover

theorem Ensures.runs (hQ : c.Ensures provider Q) (h : Runs src time beside provider c s steps d t) :
    d.Ensures provider (fun rest ↦ Q (withoutLogs steps ++ rest)) := by
  induction h generalizing Q with
  | refl c s => exact hQ
  | meanwhile _ _ ih => exact ih hQ
  | @move c c' d s s' t first rest hm _ ih =>
    have hrest := ih (hQ.moves hm)
    simp only [← List.append_assoc, ← Plan.withoutLogs_append] at hrest
    exact hrest

/-- What a cycle ensures holds of it in every interleaving. -/
theorem Ensures.of_ended {k : Cycle} (hQ : c.Ensures provider Q)
    (h : Runs src time beside provider c s steps (ended k) t) : Q (withoutLogs steps) := by
  have hlast := ensures_ended (hQ.runs h)
  rwa [List.append_nil] at hlast

theorem Ensures.exists (hQ : c.Ensures provider Q) : ∃ steps, Q steps := by
  have hrun := runs_rest .mute (fun _ ↦ 0) (fun _ _ ↦ False) provider c ()
  exact ⟨_, hQ.of_ended hrun⟩

end Course

end CloudOffers
