import CloudOffers.Proofs.Catalog.Inventory
import CloudOffers.Proofs.Inventory
import CloudOffers.Proofs.Refresh.PriceCycle
/-!
Price cycles of a catalog file beside full cycles. A price cycle takes the regions from the catalog
that is held and their prices from the file. What it writes, a full cycle that reads the same file
writes too.
-/

namespace CloudOffers

open Plan (Step inquiries writes reports Advances)
open PriceRefresh (Listing Outcome Settled compute found visited)

namespace Catalog

def priceAt? (c : Catalog) (region instanceType : String) : Option Price :=
  if region ∈ c.regions.values then (c.pricesIn region).get? instanceType else none

theorem lists_price_iff {c : Catalog} {provider region instanceType : String}
    {v : (Key.price provider region instanceType).Payload} :
    c.Lists provider (.price provider region instanceType) ∧
        v = c.entry (.price provider region instanceType) ↔
      c.priceAt? region instanceType = some v := by
  change (provider = provider ∧ region ∈ c.regions.values ∧
    ((c.pricesIn region).get? instanceType).isSome) ∧
      v = ((c.pricesIn region).get? instanceType).getD default ↔ _
  rw [priceAt?]
  by_cases hregion : region ∈ c.regions.values
  · rw [if_pos hregion]
    cases (c.pricesIn region).get? instanceType with
    | none => simp
    | some price =>
      have hvalue : v = price ↔ some price = some v :=
        ⟨fun h ↦ congrArg some h.symm, fun h ↦ (Option.some_inj.1 h).symm⟩
      simpa [hregion] using hvalue
  · simp [hregion]

/-- What a full cycle writes of prices is what the catalog has, whichever of its writes comes last. -/
theorem map_latest_price {c : Catalog} {provider : String} {l : List Write} {text : String}
    (h : l.map Write.publication = Request.snapshot.publications provider c.snapshot ++
      c.publications provider ++ [⟨.status provider, text⟩]) (region instanceType : String) :
    (Write.latest (.price provider region instanceType) l).map Entry.value =
      c.priceAt? region instanceType := by
  apply Write.map_latest
  intro v
  have hstatus : (⟨.price provider region instanceType, v⟩ : Publication) ≠ ⟨.status provider, text⟩ :=
    nofun
  refine Iff.trans ?_ lists_price_iff
  rw [h, List.mem_append, List.mem_append, mem_snapshot_publications_iff, mem_publications_iff,
    List.mem_singleton]
  simp [hstatus, Key.category]

end Catalog

namespace Store

/-- A later store shows the same for some time: an entry differs at most in when it was written, and
both times that is not long ago. -/
structure Renewed (since : Nat) (s s' : Store) : Prop where
  ttl : s'.ttl = s.ttl
  kept : ∀ k, s'.kept? k = s.kept? k ∨ k.tier = .short ∧ ∃ v time time',
    s.kept? k = some ⟨v, time⟩ ∧ s'.kept? k = some ⟨v, time'⟩ ∧ since ≤ time ∧ since ≤ time'

namespace Renewed

variable {since : Nat} {s s' s'' : Store}

theorem refl (since : Nat) (s : Store) : s.Renewed since s := ⟨rfl, fun _ ↦ .inl rfl⟩

theorem trans (h : s.Renewed since s') (h' : s'.Renewed since s'') : s.Renewed since s'' where
  ttl := h'.ttl.trans h.ttl
  kept k := by
    rcases h'.kept k with heq | ⟨hk, v, time, time', hkept, hkept', hle, hle'⟩
    · rw [heq]
      exact h.kept k
    · rcases h.kept k with heq | ⟨-, w, first, second, hfirst, hsecond, hle, -⟩
      · exact .inr ⟨hk, v, time, time', heq ▸ hkept, hkept', hle, hle'⟩
      · rw [hkept] at hsecond
        cases hsecond
        exact .inr ⟨hk, v, first, time', hfirst, hkept', hle, hle'⟩

theorem lookup (h : s.Renewed since s') {now : Nat} (hlive : now - since < s.ttl.short) :
    s'.lookup now = s.lookup now := by
  funext k
  change s'.get now k = s.get now k
  rw [get_eq, get_eq, h.ttl]
  rcases h.kept k with heq | ⟨hk, v, time, time', hkept, hkept', hle, hle'⟩
  · rw [heq]
  · have hshort : s.ttl.of k.tier = s.ttl.short := by rw [hk]; rfl
    have hlive (e : Entry k.Payload) (hwritten : since ≤ e.writtenAt) :
        (!e.isExpired (s.ttl.of k.tier) now) = true := by
      rw [Entry.not_isExpired_iff, hshort]
      omega
    rw [hkept, hkept', Option.filter_some, Option.filter_some, if_pos (hlive _ hle'),
      if_pos (hlive _ hle)]
    rfl

end Renewed

end Store

namespace CatalogFile

open Relation (ReflTransGen)

/-- Nothing but time. -/
def Passing (s t : Scene CatalogFile) : Prop := ∃ n, t = { s with now := s.now + n }

variable {provider : String} {s t : Scene CatalogFile} {steps : List Step}

theorem Passing.le (h : Passing s t) : s.now ≤ t.now := by
  obtain ⟨n, rfl⟩ := h
  exact Nat.le_add_right ..

theorem Passing.state (h : Passing s t) : t.state = s.state := by
  obtain ⟨n, rfl⟩ := h
  rfl

theorem keeps_passing : Keeps Passing (fun _ ↦ True) where
  changes _ _ _ h := ⟨trivial, congrArg CatalogFile.held h.state⟩
  answers _ _ _ := trivial

theorem state_eq_of_star (h : ReflTransGen Passing s t) : t.state = s.state := by
  induction h with
  | refl => rfl
  | tail _ h ih => exact h.state.trans ih

theorem content_answer (r : Request) (f : CatalogFile) : (answer r f).2.content = f.content := by
  cases r with
  | snapshot =>
    simp only [answer]
    split <;> rfl
  | _ => rfl

section Cycles

variable {b : Catalog} {f : CatalogFile} {listing : Listing} {outcome : Outcome} {store : Store}
  {since : Nat}

/-- A full cycle that reads a file holds what it read and leaves the file alone. -/
theorem full_cycle_writes (hread : read s.state.content = .ok b)
    (h : Advances scenes Scene.now Passing (FullRefresh.plan provider) s steps (.done ()) t) :
    t.state.held = b ∧ t.state.content = s.state.content ∧ s.now ≤ t.now ∧
      (∀ w ∈ writes steps, s.now ≤ w.time) ∧
      ∀ region instanceType, (Write.latest (.price provider region instanceType)
        (writes steps)).map Entry.value = b.priceAt? region instanceType := by
  obtain ⟨u, c, hu, hc, hheld, -, l, time, later, hwrites, hpublications, hs, ht, htimes⟩ :=
    keeps_passing.writes trivial (fun _ _ ↦ Passing.le) h
  simp only [answer, state_eq_of_star hu, hread] at hc hpublications
  subst hc
  have hcontent : t.state.content = s.state.content := by
    refine h.dialogue.keeps (P := fun x ↦ x.state.content = s.state.content) rfl ?_ ?_
    · intro x y hx hb
      exact (congrArg CatalogFile.content hb.state).trans hx
    · intro r x hx
      exact (content_answer r x.state).trans hx
  have hall : (writes steps).map Write.publication =
      Request.snapshot.publications provider b.snapshot ++ b.publications provider ++
        [⟨.status provider, toString (time / 1000000)⟩] := by
    rw [hwrites, List.map_append, hpublications]
    rfl
  exact ⟨hheld, hcontent, Nat.le_trans hs ht, fun w hw ↦ (htimes w hw).1,
    Catalog.map_latest_price hall⟩

theorem currentPrices_answer (hread : read f.content = .ok b) (region : String) :
    (answer (.currentPrices region) f).1 =
      if region ∈ b.regions.values then .ok (b.pricesIn region) else .error (.unknownRegion region) := by
  change (do let c ← read f.content; c.checkRegion region; Except.ok (c.pricesIn region)) = _
  rw [hread]
  change (do b.checkRegion region; Except.ok (b.pricesIn region)) = _
  rw [Catalog.checkRegion]
  split <;> rfl

theorem regions_answer (hcompute : compute ∈ f.held.services) :
    (answer (.regions compute) f).1 = .ok f.held.regions := by
  have haccepts : f.held.Accepts (.regions compute) := hcompute
  rw [Catalog.answer_of_accepts haccepts]
  rfl

/-- A price cycle is answered from one state of the file, for it changes nothing. -/
theorem price_cycle_settled
    (h : PriceRefresh.Runs scenes Scene.now Passing provider s steps (.ended .prices) t) :
    t.state = s.state ∧ s.now ≤ t.now ∧ (∀ w ∈ writes steps, s.now ≤ w.time) ∧
      ∃ listing outcome, Settled provider listing outcome steps ∧
        listing = (answer (.regions compute) s.state).1 ∧
        ∀ region ∈ visited listing, outcome region = (answer (.currentPrices region) s.state).1 := by
  obtain ⟨listing, outcome, hs⟩ := PriceRefresh.settled_of_runs h
  obtain ⟨fetched, hasked, hfetched⟩ := hs.asked
  have hrequest (r : Request) (reply : r.Reply) (hmem : .asked r reply ∈ inquiries steps) :
      r ≠ .snapshot := by
    rw [hasked] at hmem
    rcases List.mem_cons.1 hmem with heq | hmem
    · cases heq
      nofun
    · obtain ⟨region, -, heq⟩ := List.mem_map.1 (hfetched.subset hmem)
      cases heq
      nofun
  have hanswers (r : Request) (x : Scene CatalogFile) (hr : r ≠ .snapshot) (hx : x.state = s.state) :
      (scenes.answer r x).1 = (answer r s.state).1 ∧ (scenes.answer r x).2.state = s.state :=
    ⟨by rw [← hx]; rfl, (answer_snd hr x.state).trans hx⟩
  obtain ⟨hreplies, hstate⟩ := h.dialogue.invariant (P := fun x ↦ x.state = s.state)
    (R := source.Answers s.state) rfl (fun x y hx hb ↦ hb.state.trans hx) hanswers
    (fun _ _ ↦ trivial) hrequest
  have hbeside (x y : Scene CatalogFile) (hb : Passing x y) : x.now ≤ y.now := hb.le
  obtain ⟨hle, htimes⟩ := Course.Runs.times hbeside (fun _ _ ↦ rfl) h
  exact ⟨hstate, hle, fun w hw ↦ (htimes w hw).1, listing, outcome, hs, hs.answered hreplies⟩

theorem found_price (hread : read f.content = .ok b)
    (hlisting : listing = (answer (.regions compute) f).1)
    (houtcome : ∀ region ∈ visited listing, outcome region = (answer (.currentPrices region) f).1)
    (region instanceType : String) :
    found provider listing outcome (.price provider region instanceType) =
      if compute ∈ f.held.services ∧ region ∈ f.held.regions.values then
        b.priceAt? region instanceType
      else none := by
  rw [found]
  by_cases hcompute : compute ∈ f.held.services
  · rw [regions_answer hcompute] at hlisting
    subst hlisting
    by_cases hregion : region ∈ f.held.regions.values
    · have hvisited := PriceRefresh.mem_visited_ok.2 hregion
      rw [if_pos ⟨rfl, hvisited⟩, if_pos ⟨hcompute, hregion⟩, houtcome region hvisited,
        currentPrices_answer hread, Catalog.priceAt?]
      split <;> rfl
    · have hvisited : ¬(provider = provider ∧ region ∈ visited (.ok f.held.regions)) :=
        fun h ↦ hregion (PriceRefresh.mem_visited_ok.1 h.2)
      rw [if_neg hvisited, if_neg (fun h ↦ hregion h.2)]
      rfl
  · -- without the service the listing fails, and no region is visited
    have hnone : visited listing = [] := by
      rw [hlisting]
      change visited (do f.held.checkService compute; Except.ok f.held.regions) = []
      rw [Catalog.checkService, if_neg hcompute]
      rfl
    have hvisited : ¬(provider = provider ∧ region ∈ ([] : List String)) :=
      fun h ↦ List.not_mem_nil h.2
    rw [hnone, if_neg hvisited, if_neg (fun h ↦ hcompute h.1)]
    rfl

/-- The prices of a catalog are in a store, none of them written before some time. -/
def Priced (provider : String) (b : Catalog) (since : Nat) (store : Store) : Prop :=
  ∀ region instanceType v, b.priceAt? region instanceType = some v →
    ∃ time, since ≤ time ∧ store.kept? (.price provider region instanceType) = some ⟨v, time⟩

theorem priced_replay {full : List Step} (hwritten : ∀ w ∈ writes full, since ≤ w.time)
    (hprices : ∀ region instanceType, (Write.latest (.price provider region instanceType)
      (writes full)).map Entry.value = b.priceAt? region instanceType) :
    Priced provider b since (store.replay full) := by
  intro region instanceType v hv
  rw [← hprices region instanceType] at hv
  obtain ⟨e, hlast, rfl⟩ := Option.map_eq_some_iff.1 hv
  refine ⟨e.writtenAt, hwritten _ (Write.mem_of_latest hlast), ?_⟩
  rw [Plan.kept?_replay, hlast]
  rfl

/-- Once the prices are in the store, a price cycle writes no others. -/
theorem Priced.cycle (hpriced : Priced provider b since store) (hheld : s.state.held = b)
    (hread : read s.state.content = .ok b) (hsince : since ≤ s.now)
    (h : PriceRefresh.Runs scenes Scene.now Passing provider s steps (.ended .prices) t) :
    Priced provider b since (store.replay steps) ∧ store.Renewed since (store.replay steps) := by
  obtain ⟨-, -, htimes, listing, outcome, hs, hlisting, houtcome⟩ := price_cycle_settled h
  have hlatest {region instanceType : String} {e : Entry Price}
      (hlast : Write.latest (.price provider region instanceType) (writes steps) = some e) :
      b.priceAt? region instanceType = some e.value ∧ since ≤ e.writtenAt := by
    refine ⟨?_, Nat.le_trans hsince (htimes _ (Write.mem_of_latest hlast))⟩
    have hfound := hs.map_latest (k := .price provider region instanceType)
    rw [hlast, found_price hread hlisting houtcome, hheld] at hfound
    split at hfound
    · exact hfound.symm
    · cases hfound
  constructor
  · intro region instanceType v hv
    rw [Plan.kept?_replay]
    cases hlast : Write.latest (.price provider region instanceType) (writes steps) with
    | none => exact hpriced region instanceType v hv
    | some e =>
      obtain ⟨hvalue, htime⟩ := hlatest hlast
      rw [hv] at hvalue
      cases hvalue
      exact ⟨e.writtenAt, htime, rfl⟩
  · refine ⟨Plan.ttl_replay steps store, fun k ↦ ?_⟩
    rw [Plan.kept?_replay]
    cases hlast : Write.latest k (writes steps) with
    | none => exact .inl rfl
    | some e =>
      have hfound := hs.map_latest (k := k)
      rw [hlast] at hfound
      obtain ⟨region, instanceType, rfl⟩ := PriceRefresh.exists_of_found hfound.symm
      obtain ⟨hvalue, htime⟩ := hlatest hlast
      obtain ⟨time, hle, hkept⟩ := hpriced region instanceType e.value hvalue
      exact .inr ⟨rfl, e.value, time, e.writtenAt, hkept, rfl, hle, htime⟩

/-- Any number of price cycles, with time passing between them. -/
inductive Repeated (provider : String) :
    Scene CatalogFile → List Step → Scene CatalogFile → Prop
  | refl (s : Scene CatalogFile) : Repeated provider s [] s
  | pass {s s' t : Scene CatalogFile} {steps : List Step} :
      Passing s s' → Repeated provider s' steps t → Repeated provider s steps t
  | cycle {s s' t : Scene CatalogFile} {first rest : List Step} :
      PriceRefresh.Runs scenes Scene.now Passing provider s first (.ended .prices) s' →
        Repeated provider s' rest t → Repeated provider s (first ++ rest) t

theorem Repeated.renewed (h : Repeated provider s steps t) (hpriced : Priced provider b since store)
    (hheld : s.state.held = b) (hread : read s.state.content = .ok b) (hsince : since ≤ s.now) :
    store.Renewed since (store.replay steps) := by
  induction h generalizing store with
  | refl s => exact .refl since store
  | pass hb _ ih =>
    rw [← hb.state] at hheld hread
    exact ih hpriced hheld hread (Nat.le_trans hsince hb.le)
  | cycle hfirst _ ih =>
    obtain ⟨hstate, hle, -⟩ := price_cycle_settled hfirst
    obtain ⟨hpriced, hrenewed⟩ := hpriced.cycle hheld hread hsince hfirst
    rw [← hstate] at hheld hread
    have hrest := ih hpriced hheld hread (Nat.le_trans hsince hle)
    rw [Store.replay, List.foldl_append]
    exact hrenewed.trans hrest

/-- A price cycle that finds a catalog in the file, against a full cycle that reads it: for a region
that both the held catalog and the one in the file list, both leave the same prices; one that is only
held is reported as a failure; nothing else changes. So after a full cycle, price cycles make no
difference to what is looked up while the prices live. -/
theorem price_cycle_agrees {s' t' : Scene CatalogFile} {full : List Step} (store : Store)
    (hcompute : compute ∈ s.state.held.services) (hread : read s.state.content = .ok b)
    (h : PriceRefresh.Runs scenes Scene.now Passing provider s steps (.ended .prices) t)
    (hread' : read s'.state.content = .ok b)
    (h' : Advances scenes Scene.now Passing (FullRefresh.plan provider) s' full (.done ()) t') :
    (∀ region ∈ s.state.held.regions.values, region ∈ b.regions.values → ∀ instanceType,
      let k := .price provider region instanceType
      (store.replay steps).kept? k = store.kept? k ∧ (store.replay full).kept? k = store.kept? k ∨
        ∃ v, (∃ w ∈ writes steps, (store.replay steps).kept? k = some ⟨v, w.time⟩) ∧
          ∃ w ∈ writes full, (store.replay full).kept? k = some ⟨v, w.time⟩) ∧
    (∀ region ∈ s.state.held.regions.values, region ∉ b.regions.values →
      (reports steps).count (.priceFailure provider region) = 1) ∧
    (∀ k, (∀ region instanceType, region ∈ s.state.held.regions.values → region ∈ b.regions.values →
      k ≠ .price provider region instanceType) → (store.replay steps).kept? k = store.kept? k) ∧
    ∀ more u now, Repeated provider t' more u → now - s'.now < store.ttl.short →
      let before := (store.replay full).lookup now
      let after := ((store.replay full).replay more).lookup now
      after = before ∧ ∀ inv : Inventory, inv.providers after = inv.providers before ∧
        ∀ about q, inv.answer after about q = inv.answer before about q := by
  obtain ⟨-, -, -, listing, outcome, hs, hlisting, houtcome⟩ := price_cycle_settled h
  obtain ⟨hheld, hcontent, hle, hwritten, hprices⟩ := full_cycle_writes hread' h'
  have hfound (region instanceType : String) :
      found provider listing outcome (.price provider region instanceType) = _ :=
    found_price hread hlisting houtcome region instanceType
  refine ⟨?_, ?_, ?_, ?_⟩
  · intro region hregion _ instanceType k
    rw [Plan.replay_eq_writeAll, Plan.replay_eq_writeAll]
    apply Store.kept?_writeAll_alike
    rw [hs.map_latest, hprices, hfound, if_pos ⟨hcompute, hregion⟩]
  · intro region hregion hb
    rw [regions_answer hcompute] at hlisting
    subst hlisting
    refine hs.count_failure hregion (e := .unknownRegion region) ?_
    rw [houtcome region (PriceRefresh.mem_visited_ok.2 hregion), currentPrices_answer hread, if_neg hb]
  · intro k hk
    have hnone : found provider listing outcome k = none := by
      rw [Option.eq_none_iff_forall_ne_some]
      intro v hv
      obtain ⟨region, instanceType, rfl⟩ := PriceRefresh.exists_of_found hv
      rw [hfound, Catalog.priceAt?] at hv
      split at hv
      · next hregion =>
        split at hv
        · next hb => exact hk region instanceType hregion.2 hb rfl
        · cases hv
      · cases hv
    have hlatest := hs.map_latest (k := k)
    rw [hnone, Option.map_eq_none_iff] at hlatest
    rw [Plan.kept?_replay, hlatest]
    rfl
  · intro more u now hmore hlive before after
    have hpriced : Priced provider b s'.now (store.replay full) := priced_replay hwritten hprices
    have hread'' : read t'.state.content = .ok b := by rw [hcontent, hread']
    have hrenewed := hmore.renewed hpriced hheld hread'' hle
    have hlive' : now - s'.now < (store.replay full).ttl.short := by rwa [Plan.ttl_replay]
    have hsame : after = before := hrenewed.lookup hlive'
    rw [hsame]
    exact ⟨rfl, fun inv ↦ ⟨rfl, fun about q ↦ rfl⟩⟩

/-- The sample with the service that has current prices. -/
def computeBytes : Json.Bytes :=
  sampleBytes.take 15 ++ [111, 109, 112, 117, 116, 101] ++ sampleBytes.drop 15

def computeCatalog : Catalog := { sampleCatalog with services := [compute] }

theorem read_computeBytes : read (.ok computeBytes) = .ok computeCatalog :=
  read_of_toOption (by decide +kernel)

/-- A catalog is held that lists a region more than the file does. -/
def staleScene : Scene CatalogFile where
  state := ⟨"catalog.json", .ok computeBytes,
    { computeCatalog with regions := Dict.ofList [("E", "e"), ("W", "w")] }⟩
  now := 0
  guard := .free
  courses := []

theorem price_cycle_agrees_staleScene :
    let fast := (PriceRefresh.plan "p").run scenes Scene.now staleScene
    let full := (FullRefresh.plan "p").run scenes Scene.now staleScene
    let more := (PriceRefresh.plan "p").run scenes Scene.now full.state
    (reports fast.steps).count (.priceFailure "p" "w") = 1 ∧
      (((Store.empty ⟨9, 9⟩).replay full.steps).replay more.steps).lookup 5 =
        ((Store.empty ⟨9, 9⟩).replay full.steps).lookup 5 := by
  intro fast full more
  have hfast : PriceRefresh.Runs scenes Scene.now Passing "p" staleScene fast.steps (.ended .prices)
      fast.state := Course.runs_plan scenes Scene.now Passing "p" .prices staleScene
  have hfull : Advances scenes Scene.now Passing (FullRefresh.plan "p") staleScene full.steps
      (.done ()) full.state := Plan.advances_run_unit (FullRefresh.plan "p") staleScene
  have hmore : PriceRefresh.Runs scenes Scene.now Passing "p" full.state more.steps (.ended .prices)
      more.state := Course.runs_plan scenes Scene.now Passing "p" .prices full.state
  have hrepeated := Repeated.cycle hmore (.refl more.state)
  rw [List.append_nil] at hrepeated
  obtain ⟨-, hfailed, -, hsame⟩ := price_cycle_agrees (.empty ⟨9, 9⟩) List.mem_cons_self
    read_computeBytes hfast read_computeBytes hfull
  exact ⟨hfailed "w" (by decide) (by decide), (hsame _ _ 5 hrepeated (by decide)).1⟩

end Cycles

end CatalogFile

end CloudOffers
