import CloudOffers.Refresh.Timeline
import Mathlib.Data.List.Infix
/-!
How a timeline begins. Calls are only ever added to it, so what its first ticks bring about is part of
every run.
-/

namespace CloudOffers.Timeline

variable {σ : Type} {s t u : Timeline σ}

/-- A timeline that has gone on at one moment, for the same number of sources. -/
structure Extends (s t : Timeline σ) : Prop where
  calls : s.calls <+: t.calls
  now : t.now = s.now
  sources : t.sources.length = s.sources.length

namespace Extends

theorem refl (s : Timeline σ) : Extends s s := ⟨List.prefix_rfl, rfl, rfl⟩

theorem trans (h : Extends s t) (h' : Extends t u) : Extends s u :=
  ⟨h.calls.trans h'.calls, h'.now.trans h.now, h'.sources.trans h.sources⟩

/-- Nothing else matters. -/
theorem of_same (h : Extends s t) (hcalls : u.calls = t.calls) (hnow : u.now = t.now)
    (hsources : u.sources = t.sources) : Extends s u :=
  ⟨hcalls ▸ h.calls, hnow.trans h.now, hsources ▸ h.sources⟩

theorem fork (s : Timeline σ) (m started : Nat) (ids : List String) :
    Extends s (s.fork m started ids) := by
  rw [Timeline.fork]
  split <;> exact (refl s).of_same rfl rfl rfl

theorem join (s : Timeline σ) (m : Nat) : Extends s (s.join m) := by
  rw [Timeline.join]
  split
  · exact refl s
  · dsimp only
    split <;> exact (refl s).of_same rfl rfl rfl

theorem conclude (s : Timeline σ) (m : Nat) (outcome : Outcome) : Extends s (s.conclude m outcome) := by
  cases outcome with
  | ended c => exact (refl s).of_same rfl rfl rfl
  | regions started ids => exact fork s m started ids
  | regionEnded => exact join s m

theorem replied (s : Timeline σ) (m : Nat) (x : σ) (logs : List Log.Event) :
    Extends s { s with sources := s.sources.set m x, logs := logs } :=
  ⟨List.prefix_rfl, rfl, List.length_set ..⟩

theorem called (s : Timeline σ) (c : Call) : Extends s { s with calls := s.calls ++ [c] } :=
  ⟨List.prefix_append .., rfl, rfl⟩

theorem advancePiece (w : Conditions σ) (m : Nat) (p : Plan Outcome) (s : Timeline σ) :
    Extends s (advancePiece w m p s) := by
  induction p generalizing s with
  | done outcome => exact conclude s m outcome
  | ask r next ih =>
    rw [Timeline.advancePiece]
    split
    · exact refl s
    · dsimp only
      split
      · exact ((called s _).trans (replied _ m _ _)).trans (ih _ _)
      · exact (called s _).of_same rfl rfl rfl
  | askImages next ih => exact ih _ s
  | clock next ih => exact ih _ s
  | act a next ih =>
    refine Extends.trans ?_ (ih _)
    cases a <;> exact (refl s).of_same rfl rfl rfl

theorem runTask (w : Conditions σ) (s : Timeline σ) (task : Task) : Extends s (runTask w s task) := by
  cases task with
  | loop c ticker =>
    rw [Timeline.runTask]
    split
    · exact refl s
    · cases c <;> exact (refl s).of_same rfl rfl rfl
  | piece m p => exact advancePiece w m p s
  | answer m r next =>
    rw [Timeline.runTask]
    split
    · exact refl s
    · exact (replied s m _ _).trans (advancePiece w m _ _)

theorem foldl (w : Conditions σ) (tasks : List Task) (s : Timeline σ) :
    Extends s (tasks.foldl (Timeline.runTask w) s) := by
  induction tasks generalizing s with
  | nil => exact refl s
  | cons task tasks ih => exact (runTask w s task).trans (ih _)

theorem runReady (w : Conditions σ) (s : Timeline σ) : Extends s (runReady w s) := by
  have htaken : Extends s { s with ready := [] } := (refl s).of_same rfl rfl rfl
  exact htaken.trans (foldl w s.ready _)

end Extends

theorem calls_prefix_settle (w : Conditions σ) (stop : Timeline σ → Bool) (limit : Nat) (s : Timeline σ) :
    (s.settle w).calls <+: (s.runUntil w stop limit).calls := by
  fun_induction runUntil w stop limit s with
  | case1 | case2 | case4 => exact List.prefix_rfl
  | case3 s settled _ time _ _ ih =>
    have hround (u : Timeline σ) := (Extends.runReady w u).calls
    have hsettled : settled.calls <+: ((settled.wakeAt time).settle w).calls :=
      (hround (settled.wakeAt time)).trans ((hround _).trans ((hround _).trans (hround _)))
    exact hsettled.trans ih

section Start

variable {w : Conditions σ} {m : Nat}

theorem ready_loop (hc : s.cancelled = false) (w : Conditions σ) (c : Cycle) (t : Ticker) :
    (runTask w s (.loop c t)).ready = s.ready ++ (s.rota.starts (s.offersPrices w) c).map
      (fun m ↦ .piece m (beginning (s.rota.providers.getD m "") c)) := by
  rw [runTask, hc, if_neg Bool.false_ne_true]
  cases c <;> rfl

theorem mem_calls_advancePiece (hm : m < s.sources.length) (r : Request) (next : r.Reply → Plan Outcome) :
    ⟨s.now, m, r⟩ ∈ (advancePiece w m (.ask r next) s).calls := by
  rw [advancePiece, List.getElem?_eq_getElem hm]
  dsimp only
  have hcalled : (⟨s.now, m, r⟩ : Call) ∈ s.calls ++ [⟨s.now, m, r⟩] := List.mem_append_right _ List.mem_cons_self
  split
  · exact (Extends.advancePiece w m _ _).calls.subset hcalled
  · exact hcalled

/-- A full cycle that is ready asks for the snapshot as soon as it runs. -/
theorem mem_calls_foldl {tasks : List Task} {provider : String}
    (hmem : .piece m (beginning provider .full) ∈ tasks) (hm : m < s.sources.length) :
    ⟨s.now, m, .snapshot⟩ ∈ (tasks.foldl (runTask w) s).calls := by
  obtain ⟨before, after, rfl⟩ := List.append_of_mem hmem
  rw [List.foldl_append, List.foldl_cons]
  have hbefore := Extends.foldl w before s
  refine (Extends.foldl w after _).calls.subset ?_
  rw [← hbefore.now]
  exact mem_calls_advancePiece (s := act w (before.foldl (runTask w) s) (.log _))
    (hm.trans_eq hbefore.sources.symm) .snapshot _

variable {rota : Rota} {full prices : Periodic} {sources : List σ} {store : Store}

/-- The first tick makes the full cycles of the providers ready. -/
theorem mem_ready_start (hm : ∀ offers, m ∈ rota.starts offers .full) (w : Conditions σ) :
    .piece m (beginning (rota.providers.getD m "") .full) ∈
      (runReady w (start rota full prices sources store)).ready := by
  let first := runTask w { start rota full prices sources store with ready := [] } (.loop .full full.ticker)
  have hfirst : .piece m (beginning (rota.providers.getD m "") .full) ∈ first.ready := by
    rw [ready_loop rfl]
    exact List.mem_append_right _ (List.mem_map.2 ⟨m, hm _, rfl⟩)
  change _ ∈ (runTask w first (.loop .prices prices.ticker)).ready
  rw [ready_loop rfl]
  exact List.mem_append_left _ hfirst

/-- However long a timeline runs, its full cycles began at once. -/
theorem mem_calls_start (hm : ∀ offers, m ∈ rota.starts offers .full) (hsource : m < sources.length)
    (w : Conditions σ) (stop : Timeline σ → Bool) (limit : Nat) :
    ⟨0, m, .snapshot⟩ ∈ ((start rota full prices sources store).runUntil w stop limit).calls := by
  refine (calls_prefix_settle w stop limit _).subset ?_
  let first := runReady w (start rota full prices sources store)
  have hfirst : Extends (start rota full prices sources store) first := .runReady w _
  have hcalled : ⟨first.now, m, .snapshot⟩ ∈ (runReady w first).calls :=
    mem_calls_foldl (s := { first with ready := [] }) (mem_ready_start hm w) (hsource.trans_eq hfirst.sources.symm)
  rw [hfirst.now] at hcalled
  exact ((Extends.runReady w _).trans (.runReady w _)).calls.subset hcalled

end Start

end CloudOffers.Timeline
