import CloudOffers.Proofs.Dict
import CloudOffers.Proofs.Refresh.FullCycle
import CloudOffers.Proofs.Refresh.Interleaving
import Mathlib.Data.List.Nodup
import Mathlib.Logic.Function.Basic
/-!
Price cycles, their regions side by side. Each region that is listed is fetched once, and what is
published depends on the answers alone: the regions do not write under each other's keys.
-/

namespace CloudOffers

open Plan (Step Amounts Ensures inquiries writes reports withoutLogs)
open Metrics (notApplicable)

namespace PriceRefresh

abbrev Listing : Type := Request.Reply (.regions compute)

abbrev Outcome : Type := (region : String) → Request.Reply (.currentPrices region)

/-- The regions that an answer lists; a failure lists none. -/
def visited : Listing → List String
  | .ok (regions : Dict String String) => regionIds regions
  | .error _ => []

def fetch (outcome : Outcome) (region : String) : Step := .asked (.currentPrices region) (outcome region)

theorem outcome_of_fetch {outcome : Outcome} {region region' : String}
    {reply : Request.Reply (.currentPrices region')}
    (h : fetch outcome region = .asked (.currentPrices region') reply) : outcome region' = reply := by
  injection h with hregion hreply
  cases hregion
  exact hreply

variable (provider : String)

def listingAccounts : Listing → List Metrics.Event
  | .ok _ => []
  | .error _ => [.priceFailure provider notApplicable]

def regionAccount (region : String) : Request.Reply (.currentPrices region) → Metrics.Event
  | .ok _ => .regionPricesCompleted provider region 0
  | .error _ => .priceFailure provider region

/-- The price that is fetched for a key, if any. -/
def found (listing : Listing) (outcome : Outcome) : (k : Key) → Option k.Payload
  | .price p region instanceType =>
    if p = provider ∧ region ∈ visited listing then
      (outcome region).toOption.bind (fun (prices : Dict String Price) ↦ prices.get? instanceType)
    else none
  | _ => none

/-- What a price cycle has done, in whatever order its regions came. -/
structure Settled (listing : Listing) (outcome : Outcome) (steps : List Step) : Prop where
  asked : ∃ fetched, inquiries steps = .asked (.regions compute) listing :: fetched ∧
    fetched.Perm ((visited listing).map (fetch outcome))
  published : ((writes steps).map Write.publication).Perm
    (((visited listing).map (fetch outcome)).flatMap (Step.publications provider))
  reported : ∃ visits, (reports steps).map Metrics.Event.untimed =
      listingAccounts provider listing ++ visits ++ [.providerPricesCompleted provider 0] ∧
    visits.Perm ((visited listing).map (fun region ↦ regionAccount provider region (outcome region)))

theorem Settled.of_withoutLogs {provider : String} {listing : Listing} {outcome : Outcome}
    {steps : List Step} (h : Settled provider listing outcome (withoutLogs steps)) :
    Settled provider listing outcome steps where
  asked := Plan.inquiries_withoutLogs steps ▸ h.asked
  published := Plan.writes_withoutLogs steps ▸ h.published
  reported := Plan.reports_withoutLogs steps ▸ h.reported

theorem Settled.answered {provider : String} {listing : Listing} {outcome : Outcome}
    {steps : List Step} {σ : Type} {src : Source σ} {s : σ} (h : Settled provider listing outcome steps)
    (hsteps : ∀ x ∈ inquiries steps, src.Answers s x) :
    listing = (src.answer (.regions compute) s).1 ∧
      ∀ region ∈ visited listing, outcome region = (src.answer (.currentPrices region) s).1 := by
  obtain ⟨fetched, hasked, hfetched⟩ := h.asked
  rw [hasked] at hsteps
  obtain ⟨hlisting, hfetches⟩ := List.forall_mem_cons.1 hsteps
  refine ⟨hlisting, fun region hregion ↦ ?_⟩
  exact hfetches _ (hfetched.symm.subset (List.mem_map_of_mem hregion))

theorem visited_nodup (listing : Listing) : (visited listing).Nodup := by
  cases listing with
  | ok regions => exact ascending_nodup _
  | error e => exact List.nodup_nil

theorem mem_visited_ok {regions : Dict String String} {region : String} :
    region ∈ visited (.ok regions) ↔ region ∈ regions.values := mem_ascending

section Ensures

theorem start_ensures :
    (start provider).Ensures (fun steps x ↦ ∃ listing : Listing, x.2 = visited listing ∧
      Amounts steps [.asked (.regions compute) listing] [] (listingAccounts provider listing)) := by
  apply Ensures.log
  apply Ensures.now
  intro started
  apply Ensures.request
  intro reply
  cases reply with
  | ok regions => exact ⟨.ok regions, rfl, Amounts.nil.asked_cons (.regions compute) (.ok regions)⟩
  | error e =>
    intro time _
    refine ⟨.error e, rfl, ?_⟩
    exact (Amounts.report time _).asked_cons (.regions compute) (.error e)

theorem publishRegion_ensures (region : String) :
    (publishRegion provider region).Ensures (fun steps _ ↦
      ∃ reply : Request.Reply (.currentPrices region),
        Amounts steps [.asked (.currentPrices region) reply]
          ((Step.asked (.currentPrices region) reply).publications provider)
          [regionAccount provider region reply]) := by
  apply Ensures.now
  intro started
  apply Ensures.request
  intro reply
  cases reply with
  | ok prices =>
    have hput (x : String × Price) (time : Nat) := Amounts.put time (.price provider region x.1) x.2
    have hprices := Ensures.forM (f := fun (x : String × Price) ↦
      Plan.put (.price provider region x.1) x.2) hput (Dict.entries prices)
    apply Ensures.bind
    apply hprices.mono
    intro steps _ hsteps ended time
    refine ⟨.ok prices, ?_⟩
    rw [← List.map_eq_flatMap, List.flatMap_eq_nil_iff.2 (fun _ _ ↦ rfl)] at hsteps
    have hall := hsteps.append
      (Amounts.report time (.regionPricesCompleted provider region (ended - started)))
    simp only [List.append_nil] at hall
    exact hall.asked_cons (.currentPrices region) (.ok prices)
  | error e =>
    intro time _
    refine ⟨.error e, ?_⟩
    exact (Amounts.report time _).asked_cons (.currentPrices region) (.error e)

theorem publishRegions_ensures {ids : List String} (hids : ids.Nodup) :
    (ids.forM (publishRegion provider)).Ensures (fun steps _ ↦ ∃ outcome : Outcome,
      Amounts steps (ids.map (fetch outcome))
        ((ids.map (fetch outcome)).flatMap (Step.publications provider))
        (ids.map (fun region ↦ regionAccount provider region (outcome region)))) := by
  induction ids with
  | nil => exact ⟨fun _ ↦ .error (.unavailable ""), .nil⟩
  | cons region ids ih =>
    obtain ⟨hregion, hids⟩ := List.nodup_cons.1 hids
    change (publishRegion provider region >>= fun _ ↦ ids.forM (publishRegion provider)).Ensures _
    apply Ensures.bind
    apply (publishRegion_ensures provider region).mono
    intro first _ hfirst
    obtain ⟨reply, hfirst⟩ := hfirst
    apply (ih hids).mono
    intro rest _ hrest
    obtain ⟨outcome, hrest⟩ := hrest
    -- the region is not among the others, so its answer makes no difference to them
    let outcome' : Outcome := Function.update outcome region reply
    have hself : outcome' region = reply := Function.update_self ..
    have hothers : ∀ id ∈ ids, outcome' id = outcome id := by
      intro id hid
      exact Function.update_of_ne (ne_of_mem_of_not_mem hid hregion) ..
    have hfetch : ids.map (fetch outcome') = ids.map (fetch outcome) :=
      List.map_congr_left fun id hid ↦ congrArg (Step.asked (.currentPrices id)) (hothers id hid)
    have haccount : ids.map (fun id ↦ regionAccount provider id (outcome' id)) =
        ids.map (fun id ↦ regionAccount provider id (outcome id)) :=
      List.map_congr_left fun id hid ↦ congrArg (regionAccount provider id) (hothers id hid)
    refine ⟨outcome', ?_⟩
    rw [List.map_cons, List.map_cons, List.flatMap_cons, hfetch, haccount, fetch, hself]
    exact hfirst.append hrest

theorem finish_ensures (started : Nat) :
    (finish provider started).Ensures (fun steps _ ↦
      Amounts steps [] [] [.providerPricesCompleted provider 0]) :=
  fun _ time _ ↦ Amounts.report time _

theorem cycle_ensures :
    (Course.start provider .prices).Ensures provider (fun steps ↦ ∃ listing outcome,
      Settled provider listing outcome steps) := by
  change (start provider).Ensures (fun first x ↦ Course.Visits provider x.1
    (x.2.map (publishRegion provider)) (fun rest ↦ ∃ listing outcome,
      Settled provider listing outcome (first ++ rest)))
  apply (start_ensures provider).mono
  rintro first ⟨started, ids⟩ ⟨listing, hids, hfirst⟩
  change ids = visited listing at hids
  subst hids
  have hmap : ((visited listing).map (publishRegion provider)).forM id =
      (visited listing).forM (publishRegion provider) := List.forM_map ..
  change ((visited listing).map (publishRegion provider) |>.forM id).Ensures _
  rw [hmap]
  apply (publishRegions_ensures provider (visited_nodup listing)).mono
  intro middle _ hmiddle all hperm
  obtain ⟨outcome, hmiddle⟩ := hmiddle
  apply (finish_ensures provider started).mono
  intro last _ hlast
  refine ⟨listing, outcome, ⟨inquiries all, ?_, ?_⟩, ?_, (reports all).map Metrics.Event.untimed, ?_, ?_⟩
  · rw [Plan.inquiries_append, Plan.inquiries_append, hfirst.inquiries, hlast.inquiries,
      List.append_nil]
    rfl
  · rw [← hmiddle.inquiries]
    exact hperm.filter _
  · rw [Plan.writes_append, Plan.writes_append, List.map_append, List.map_append,
      hfirst.publications, hlast.publications, List.nil_append, List.append_nil,
      ← hmiddle.publications]
    exact (hperm.filterMap _).map _
  · rw [Plan.reports_append, Plan.reports_append, List.map_append, List.map_append, hfirst.reports,
      hlast.reports, List.append_assoc]
  · rw [← hmiddle.reports]
    exact (hperm.filterMap _).map _

end Ensures

section Store

variable {provider} {listing : Listing} {outcome : Outcome} {steps : List Step} {k : Key}

theorem mem_publications_fetch_iff {region : String} {reply : Request.Reply (.currentPrices region)}
    {v : k.Payload} :
    ⟨k, v⟩ ∈ (Step.asked (.currentPrices region) reply).publications provider ↔
      ∃ prices instanceType price, reply = .ok prices ∧ Dict.get? prices instanceType = some price ∧
        (⟨k, v⟩ : Publication) = ⟨.price provider region instanceType, price⟩ := by
  constructor
  · intro h
    cases reply with
    | ok prices =>
      obtain ⟨⟨instanceType, price⟩, hmem, heq⟩ := List.mem_map.1 h
      exact ⟨prices, instanceType, price, rfl, Dict.mem_entries_iff.1 hmem, heq.symm⟩
    | error e => cases h
  · rintro ⟨prices, instanceType, price, rfl, hprice, heq⟩
    exact List.mem_map.2 ⟨(instanceType, price), Dict.mem_entries_iff.2 hprice, heq.symm⟩

theorem mem_publications_iff_found {v : k.Payload} :
    ⟨k, v⟩ ∈ ((visited listing).map (fetch outcome)).flatMap (Step.publications provider) ↔
      found provider listing outcome k = some v := by
  rw [List.mem_flatMap]
  constructor
  · rintro ⟨x, hx, h⟩
    obtain ⟨region, hregion, rfl⟩ := List.mem_map.1 hx
    obtain ⟨prices, instanceType, price, hreply, hprice, heq⟩ := mem_publications_fetch_iff.1 h
    cases heq
    rw [found, if_pos ⟨rfl, hregion⟩, hreply]
    exact hprice
  · intro h
    cases k with
    | price p region instanceType =>
      simp only [found] at h
      split at h
      · next hvisited =>
        obtain ⟨rfl, hregion⟩ := hvisited
        obtain ⟨prices, hreply, hprice⟩ := Option.bind_eq_some_iff.1 h
        refine ⟨fetch outcome region, List.mem_map_of_mem hregion, ?_⟩
        refine mem_publications_fetch_iff.2 ⟨prices, instanceType, v, ?_, hprice, rfl⟩
        cases houtcome : outcome region with
        | ok prices' =>
          rw [houtcome] at hreply
          exact congrArg Except.ok (Option.some_inj.1 hreply)
        | error e =>
          rw [houtcome] at hreply
          cases hreply
      · cases h
    | _ => cases h

theorem Settled.map_latest (h : Settled provider listing outcome steps) :
    (Write.latest k (writes steps)).map Entry.value = found provider listing outcome k := by
  apply Write.map_latest
  intro v
  rw [h.published.mem_iff, mem_publications_iff_found]

theorem Settled.kept? (h : Settled provider listing outcome steps) (store : Store) (k : Key) :
    match found provider listing outcome k with
    | some v => ∃ w ∈ writes steps, w.key = k ∧ (store.replay steps).kept? k = some ⟨v, w.time⟩
    | none => (store.replay steps).kept? k = store.kept? k := by
  have hvalue := h.map_latest (k := k)
  have hkept := Plan.kept?_replay steps store k
  cases hlast : Write.latest k (writes steps) with
  | none =>
    rw [hlast] at hvalue hkept
    rw [← hvalue]
    exact hkept
  | some e =>
    rw [hlast] at hvalue hkept
    rw [← hvalue]
    exact ⟨_, Write.mem_of_latest hlast, rfl, hkept⟩

theorem Settled.found_eq {listing' : Listing} {outcome' : Outcome} {steps' : List Step}
    (h : Settled provider listing outcome steps) (h' : Settled provider listing' outcome' steps')
    (hperm : (inquiries steps).Perm (inquiries steps')) :
    found provider listing outcome k = found provider listing' outcome' k := by
  obtain ⟨fetched, hasked, hfetched⟩ := h.asked
  obtain ⟨fetched', hasked', hfetched'⟩ := h'.asked
  rw [hasked, hasked'] at hperm
  have hlisting : .asked (.regions compute) listing = Step.asked (.regions compute) listing' := by
    rcases List.mem_cons.1 (hperm.subset List.mem_cons_self) with heq | hmem
    · exact heq
    · obtain ⟨region, -, heq⟩ := List.mem_map.1 (hfetched'.subset hmem)
      cases heq
  rw [hlisting] at hperm
  have hall := hfetched.symm.trans (hperm.cons_inv.trans hfetched')
  ext v
  rw [← mem_publications_iff_found, ← mem_publications_iff_found]
  exact (hall.flatMap_right (Step.publications provider)).mem_iff

theorem found_congr {outcome' : Outcome} (h : ∀ region ∈ visited listing, outcome region = outcome' region) :
    found provider listing outcome k = found provider listing outcome' k := by
  cases k with
  | price p region instanceType =>
    simp only [found]
    split
    · next hvisited => rw [h region hvisited.2]
    · rfl
  | _ => rfl

theorem exists_of_found {v : k.Payload} (h : found provider listing outcome k = some v) :
    ∃ region instanceType, k = .price provider region instanceType := by
  cases k with
  | price p region instanceType =>
    simp only [found] at h
    split at h
    · next hvisited => exact ⟨region, instanceType, by rw [hvisited.1]⟩
    · cases h
  | _ => cases h

end Store

/-- A region that is listed and cannot be fetched is reported once. -/
theorem Settled.count_failure {provider region : String} {regions : Dict String String}
    {outcome : Outcome} {steps : List Step} {e : SourceError}
    (h : Settled provider (.ok regions) outcome steps) (hregion : region ∈ regions.values)
    (he : outcome region = .error e) :
    (reports steps).count (.priceFailure provider region) = 1 := by
  obtain ⟨visits, hreports, hvisits⟩ := h.reported
  have huntimed : (reports steps).count (.priceFailure provider region) =
      ((reports steps).map Metrics.Event.untimed).count (.priceFailure provider region) := by
    rw [List.count_eq_countP, List.count_eq_countP, List.countP_map]
    refine List.countP_congr fun event _ ↦ ?_
    cases event <;> simp [Metrics.Event.untimed]
  have haccount (id : String) :
      (regionAccount provider id (outcome id) == .priceFailure provider region) = true ↔
        (id == region) = true := by
    rw [beq_iff_eq, beq_iff_eq]
    constructor
    · intro hid
      cases hreply : outcome id with
      | ok prices =>
        rw [hreply] at hid
        cases hid
      | error e' =>
        rw [hreply] at hid
        cases hid
        rfl
    · rintro rfl
      rw [he]
      rfl
  have hvisited : visits.count (.priceFailure provider region) = 1 := by
    rw [hvisits.count_eq, List.count_eq_countP, List.countP_map]
    refine Eq.trans (List.countP_congr fun id _ ↦ haccount id) ?_
    exact List.count_eq_one_of_mem (visited_nodup _) (mem_visited_ok.2 hregion)
  rw [huntimed, hreports, List.count_append, List.count_append, hvisited]
  rfl

section Cycle

variable {σ : Type} (src : Source σ) (time : σ → Nat) (beside : σ → σ → Prop) (provider : String)

abbrev Runs (s : σ) (steps : List Step) (c : Course) (t : σ) : Prop :=
  Course.Runs src time beside provider (.start provider .prices) s steps c t

variable {src time beside provider} in
theorem settled_of_runs {s t : σ} {steps : List Step}
    (h : Runs src time beside provider s steps (.ended .prices) t) :
    ∃ listing outcome, Settled provider listing outcome steps := by
  obtain ⟨listing, outcome, hs⟩ := (cycle_ensures provider).of_ended h
  exact ⟨listing, outcome, hs.of_withoutLogs⟩

/-- A price cycle in any interleaving of its regions, whatever happens beside it. It always comes to
its end. It has then fetched every listed region once, and the prices it found are in the store; all
else is as it was. With the same answers, all interleavings leave the same values. -/
theorem cycle_settled (s : σ) :
    (∀ steps c t, Runs src time beside provider s steps c t →
      ∃ rest u, Runs src time beside provider s (steps ++ rest) (.ended .prices) u) ∧
    (∀ steps t, Runs src time beside provider s steps (.ended .prices) t →
      ∃ listing outcome, Settled provider listing outcome steps ∧ (visited listing).Nodup ∧
        (∀ regions, listing = .ok regions →
          ∀ region, region ∈ visited listing ↔ region ∈ Dict.values regions) ∧
        ∀ (store : Store) k, match found provider listing outcome k with
          | some v => ∃ w ∈ writes steps, w.key = k ∧
            (store.replay steps).kept? k = some ⟨v, w.time⟩
          | none => (store.replay steps).kept? k = store.kept? k) ∧
    ∀ steps t steps' t', Runs src time beside provider s steps (.ended .prices) t →
      Runs src time beside provider s steps' (.ended .prices) t' →
      (inquiries steps).Perm (inquiries steps') → ∀ (store : Store) k,
        ((store.replay steps).kept? k).map Entry.value =
          ((store.replay steps').kept? k).map Entry.value := by
  refine ⟨?_, ?_, ?_⟩
  · intro steps c t h
    have hrest := Course.runs_rest src time beside provider c t
    rw [h.cycle, Course.cycle_start] at hrest
    exact ⟨_, _, h.trans hrest⟩
  · intro steps t h
    obtain ⟨listing, outcome, hs⟩ := settled_of_runs h
    refine ⟨listing, outcome, hs, visited_nodup listing, ?_, hs.kept?⟩
    rintro regions rfl region
    exact mem_visited_ok
  · intro steps t steps' t' h h' hperm store k
    obtain ⟨listing, outcome, hs⟩ := settled_of_runs h
    obtain ⟨listing', outcome', hs'⟩ := settled_of_runs h'
    have hfound := hs.found_eq (k := k) hs' hperm
    simp only [Plan.kept?_replay, Option.map_or, hs.map_latest, hs'.map_latest, hfound]

/-- Two names for one region, and a region without prices. -/
def sampleSource : Source Unit where
  answer
    | .snapshot, s => (.ok (Dict.ofList [("e", Dict.ofList [("t", ⟨.ofNat 3, .empty⟩)])]), s)
    | .regions _, s => (.ok (Dict.ofList [("E", "e"), ("Europe", "e"), ("W", "w")]), s)
    | .currentPrices region, s =>
      (if region = "e" then .ok (Dict.ofList [("t", ⟨.ofNat 5, .empty⟩)])
        else .error (.unavailable region), s)
    | _, s => (.error (.unavailable ""), s)
  notes _ _ := []
  offersImages _ := false
  offersCurrentPrices _ := true

theorem cycle_settled_sampleSource :
    let run := (plan "p").run sampleSource (fun _ ↦ 7) ()
    Runs sampleSource (fun _ ↦ 7) (fun _ _ ↦ False) "p" () run.steps (.ended .prices) run.state ∧
      ∃ listing outcome, Settled "p" listing outcome run.steps ∧ visited listing = ["e", "w"] ∧
        ∃ w ∈ writes run.steps, w.key = .price "p" "e" "t" ∧
          ((Store.empty ⟨9, 9⟩).replay run.steps).kept? (.price "p" "e" "t") =
            some ⟨⟨.ofNat 5, .empty⟩, w.time⟩ := by
  intro run
  have hrun : Runs sampleSource (fun _ ↦ 7) (fun _ _ ↦ False) "p" () run.steps (.ended .prices)
      run.state := Course.runs_plan sampleSource (fun _ ↦ 7) _ "p" .prices ()
  refine ⟨hrun, ?_⟩
  obtain ⟨listing, outcome, hs, -, -, hkept⟩ :=
    (cycle_settled sampleSource (fun _ ↦ 7) (fun _ _ ↦ False) "p" ()).2.1 _ _ hrun
  have hsteps : inquiries run.steps = [.asked (.regions compute) (sampleSource.answer _ ()).1,
    .asked (.currentPrices "e") (sampleSource.answer _ ()).1,
    .asked (.currentPrices "w") (sampleSource.answer _ ()).1] := rfl
  obtain ⟨fetched, hasked, hfetched⟩ := hs.asked
  rw [hsteps] at hasked
  obtain ⟨hlisting, rfl⟩ := List.cons_eq_cons.1 hasked
  cases hlisting
  obtain ⟨region, -, hfetch⟩ := List.mem_map.1 (hfetched.subset List.mem_cons_self)
  have houtcome := outcome_of_fetch hfetch
  have hfound : found "p" (sampleSource.answer (.regions compute) ()).1 outcome
      (.price "p" "e" "t") = some ⟨.ofNat 5, .empty⟩ := by
    rw [found, houtcome, if_pos ⟨rfl, by decide⟩]
    rfl
  have hentry := hkept (.empty ⟨9, 9⟩) (.price "p" "e" "t")
  rw [hfound] at hentry
  exact ⟨_, outcome, hs, by decide, hentry⟩

end Cycle

end PriceRefresh

end CloudOffers
