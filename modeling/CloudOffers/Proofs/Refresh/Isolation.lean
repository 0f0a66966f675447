import CloudOffers.Proofs.Inventory
import CloudOffers.Proofs.Refresh.Ensemble
import CloudOffers.Proofs.Store.Scope
/-!
Providers do not interfere. A cycle writes under keys of its own provider only, and a question about a
provider looks up nothing else.
-/

namespace CloudOffers

open Plan (Step writes withoutLogs)

theorem Course.start_writes_own (provider : String) (c : Cycle) :
    (start provider c).Ensures provider
      (fun steps ↦ ∀ w ∈ writes steps, w.key.provider = provider) := by
  have hown {asked : List Step} {x : Publication}
      (hx : x ∈ asked.flatMap (Step.publications provider)) : x.1.provider = provider := by
    obtain ⟨y, -, hy⟩ := List.mem_flatMap.1 hx
    exact Step.provider_of_mem_publications provider hy
  cases c with
  | full =>
    apply (FullRefresh.cycle_ensures provider).mono
    rintro steps ⟨text, hcompleted⟩ w hw
    have hmem := List.mem_map_of_mem (f := Write.publication) hw
    rw [hcompleted.published] at hmem
    rcases List.mem_append.1 hmem with hmem | hmem
    · exact hown hmem
    · have hkey : w.key = .status provider := congrArg Sigma.fst (List.mem_singleton.1 hmem)
      rw [hkey]
      rfl
  | prices =>
    apply (PriceRefresh.cycle_ensures provider).mono
    rintro steps ⟨listing, outcome, hs⟩ w hw
    exact hown (hs.published.subset (List.mem_map_of_mem (f := Write.publication) hw))

namespace Ensemble

variable {μ ι : Type} {σ : μ → Type} {E : Ensemble μ ι σ} {l : Chronicle μ ι}

def concerns (E : Ensemble μ ι σ) (about : String) : Occurrence μ ι → Bool :=
  Occurrence.isAmong (fun m ↦ E.provider m = about) (fun i ↦ E.provider (E.manager i) = about)
    (Operation.concerns about)

theorem isClosed_concerns (about : String) :
    E.IsClosed (fun m ↦ E.provider m = about) (fun i ↦ E.provider (E.manager i) = about) :=
  ⟨fun _ h ↦ h, fun _ h h' ↦ Bool.noConfusion (h.symm.trans h')⟩

theorem filter_history_occurrence {x : Occurrence μ ι} {time : Nat}
    (hx : ∀ i steps, x = .moved i steps → ∀ w ∈ writes steps,
      w.key.provider = E.provider (E.manager i)) (about : String) :
    (x.history time).filter (fun y ↦ y.2.concerns about) =
      if E.concerns about x then x.history time else [] := by
  cases x with
  | moved i steps =>
    have hconcerns {y : Nat × Operation} (hy : y ∈ (Occurrence.moved (μ := μ) i steps).history time) :
        y.2.concerns about = E.concerns about (.moved i steps) := by
      obtain ⟨w, hw, rfl⟩ := List.mem_map.1 hy
      change decide (w.key.provider = about) = decide (E.provider (E.manager i) = about)
      rw [hx i steps rfl w hw]
    cases habout : E.concerns about (.moved i steps) with
    | true =>
      rw [if_pos rfl, List.filter_eq_self]
      intro y hy
      exact (hconcerns hy).trans habout
    | false =>
      rw [if_neg Bool.false_ne_true, List.filter_eq_nil_iff]
      intro y hy
      rw [hconcerns hy, habout]
      exact Bool.false_ne_true
  | changed m => exact (ite_self _).symm
  | operated o =>
    rw [Occurrence.history, List.filter_cons]
    rfl

theorem history_filter
    (hl : ∀ time i steps, (time, .moved i steps) ∈ l → ∀ w ∈ writes steps,
      w.key.provider = E.provider (E.manager i)) (about : String) :
    Chronicle.history (l.filter (fun x ↦ E.concerns about x.2)) =
      l.history.filter (fun x ↦ x.2.concerns about) := by
  induction l with
  | nil => rfl
  | cons x l ih =>
    obtain ⟨time, x⟩ := x
    have hhead : ∀ i steps, x = .moved i steps → ∀ w ∈ writes steps,
        w.key.provider = E.provider (E.manager i) := by
      rintro i steps rfl
      exact hl time i steps List.mem_cons_self
    have hrest := ih fun time i steps hmem ↦ hl time i steps (List.mem_cons_of_mem _ hmem)
    change _ = (x.history time ++ Chronicle.history l).filter _
    rw [List.filter_append, filter_history_occurrence hhead, ← hrest, List.filter_cons]
    split <;> rfl

variable [DecidableEq μ] [DecidableEq ι] {states : (m : μ) → σ m} {b : Stage μ ι σ}

theorem Runs.provider_of_mem_own (h : E.Runs (E.start states) l b) {i : ι} {w : Write}
    (hw : w ∈ writes (l.own i)) : w.key.provider = E.provider (E.manager i) := by
  have hstart := Course.start_writes_own (E.provider (E.manager i)) (E.cycle i)
  obtain ⟨rest, hrest⟩ := (h.ensures hstart).exists
  apply hrest w
  rw [Plan.writes_append, Plan.writes_withoutLogs]
  exact List.mem_append_left _ hw

/-- Providers do not interfere, however their cycles take turns and whatever the store is operated on
directly: without what concerns the others, what is left happens as it did, each at its time, and any
question about a provider is answered as it was. -/
theorem answer_filter (h : E.Runs (E.start states) l b) (about : String) :
    let left := l.filter (fun x ↦ E.concerns about x.2)
    (∃ b', E.Runs (E.start states) left b' ∧ (∀ m, E.provider m = about → b.states m = b'.states m) ∧
      ∀ i, E.provider (E.manager i) = about → b.courses i = b'.courses i) ∧
    ∀ (store : Store) (now : Nat) (inv : Inventory) (q : Inventory.Question),
      inv.answer ((store.after l.history).lookup now) about q =
        inv.answer ((store.after (Chronicle.history left)).lookup now) about q := by
  intro left
  obtain ⟨b', hleft, hagrees⟩ : ∃ b', E.Runs (E.start states) left b' ∧ b.AgreesOn _ _ b' :=
    h.filter (isClosed_concerns about) (.refl _)
  refine ⟨⟨b', hleft, fun m hm ↦ ?_, fun i hi ↦ ?_⟩, fun store now inv q ↦ ?_⟩
  · exact hagrees.states m (decide_eq_true hm)
  · exact hagrees.courses i (decide_eq_true hi)
  · have hown (time : Nat) (i : ι) (steps : List Step) (hmem : (time, .moved i steps) ∈ l)
        (w : Write) (hw : w ∈ writes steps) : w.key.provider = E.provider (E.manager i) :=
      h.provider_of_mem_own (Chronicle.mem_writes_own_iff.2 ⟨time, steps, hmem, hw⟩)
    have hstores := (Store.AgreesFor.refl about store).after_filter l.history
    rw [← history_filter hown] at hstores
    exact inv.answer_congr (fun k hk ↦ hstores.lookup now hk) q

/-- A full cycle of one provider and a price cycle of another. -/
def sampleEnsemble : Ensemble Bool Bool (fun _ ↦ Unit) where
  provider m := if m then "p" else "q"
  source _ := PriceRefresh.sampleSource
  manager i := i
  cycle i := if i then .full else .prices

def sampleChronicle : Chronicle Bool Bool :=
  [(1, .moved true [.acted 1 (.log (Log.info "start scraping provider information" []))]),
    (1, .moved false [.acted 1 (.log (Log.info "start scraping prices" []))]),
    (2, .moved true []),
    (2, .operated (.put (.status "q") "2")),
    (3, .moved true [.asked .snapshot (PriceRefresh.sampleSource.answer .snapshot ()).1]),
    (3, .operated .purge),
    (4, .moved true [.acted 4 (.report (.price "p" "e" "t" (.ofNat 3)))]),
    (5, .moved true [.acted 5 (.put (.price "p" "e" "t") (⟨.ofNat 3, .empty⟩ : Price))])]

theorem answer_filter_sampleChronicle :
    let left := sampleChronicle.filter (fun x ↦ sampleEnsemble.concerns "p" x.2)
    left.map Prod.fst = [1, 2, 3, 3, 4, 5] ∧
      ∃ b, sampleEnsemble.Runs (sampleEnsemble.start (fun _ ↦ ())) sampleChronicle b ∧
        ∀ (store : Store) (now : Nat) (inv : Inventory) (q : Inventory.Question),
          inv.answer ((store.after (Chronicle.history sampleChronicle)).lookup now) "p" q =
            inv.answer ((store.after (Chronicle.history left)).lookup now) "p" q := by
  intro left
  have hruns : ∃ b, sampleEnsemble.Runs (sampleEnsemble.start (fun _ ↦ ())) sampleChronicle b :=
    ⟨_, .step (.moved (.full rfl)) <| .step (.moved (.listing rfl)) <|
      .step (.moved (.full rfl)) <| .step (.operated _) <| .step (.moved (.full rfl)) <|
      .step (.operated _) <| .step (.moved (.full rfl)) <| .step (.moved (.full rfl)) <| .refl _⟩
  obtain ⟨b, h⟩ := hruns
  exact ⟨rfl, b, h, (answer_filter h "p").2⟩

end Ensemble

end CloudOffers
