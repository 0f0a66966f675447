import CloudOffers.Proofs.Catalog.Inventory
import CloudOffers.Proofs.Metrics.Gauge
import CloudOffers.Proofs.Refresh.Accounting
/-!
The price of a product as it is cached, as it is served and as the gauge shows it after a full cycle. A
type that is listed several times has the price of the last, wherever it is looked at.
-/

namespace CloudOffers

open Plan (Step inquiries reports Advances)
open Metrics (Event Registry fingerprint lastPrice? samples)

namespace Metrics

theorem samples_filter_isPrice (events : List Event) :
    samples (events.filter Event.isPrice) = samples events := by
  have hsame : (fun e : Event ↦ if e.isPrice = true then e.sample? else none) = Event.sample? := by
    funext e
    cases e <;> rfl
  rw [samples, List.filterMap_filter, hsame]
  rfl

theorem lastPrice?_filter_isPrice (labels : List String) (events : List Event) :
    lastPrice? labels (events.filter Event.isPrice) = lastPrice? labels events := by
  rw [lastPrice?, samples_filter_isPrice]
  rfl

end Metrics

namespace Catalog

variable {c : Catalog} {provider region instanceType : String} {q : Product}

/-- The last product of a type that a region lists. -/
def lastOf? (c : Catalog) (region instanceType : String) : Option Product :=
  (c.productsIn region).reverse.find? (fun p ↦ p.instanceType = instanceType)

theorem get?_pricesIn_of_lastOf? (h : c.lastOf? region instanceType = some q) :
    (c.pricesIn region).get? instanceType = some q.price := by
  rw [pricesIn, Dict.get?_ofList, ← List.map_reverse, List.find?_map, Option.map_map]
  exact congrArg (Option.map Product.price) h

/-- The snapshot has each price once. -/
theorem lastPrice?_snapshot (hregion : region ∈ c.regions.values)
    (h : c.lastOf? region instanceType = some q) :
    lastPrice? [provider, region, instanceType]
      (Step.prices provider (.asked .snapshot (.ok c.snapshot))) = some q.onDemandPrice := by
  have hsnapshot : c.snapshot.get? region = some (c.pricesIn region) := by
    rw [snapshot, Dict.get?_ofList_map, if_pos hregion]
  have hprice := get?_pricesIn_of_lastOf? h
  have hmem (v : Binary64) : .price provider region instanceType v ∈
      Step.prices provider (.asked .snapshot (.ok c.snapshot)) ↔ v = q.onDemandPrice := by
    constructor
    · intro hmem
      obtain ⟨⟨region', d⟩, hd, hmem⟩ := List.mem_flatMap.1 hmem
      obtain ⟨⟨type, price⟩, hfound, heq⟩ := List.mem_map.1 hmem
      cases heq
      have hd : some (c.pricesIn region') = some d := hsnapshot.symm.trans (Dict.mem_entries_iff.1 hd)
      obtain rfl : c.pricesIn region' = d := Option.some.inj hd
      have hfound : some q.price = some price := hprice.symm.trans (Dict.mem_entries_iff.1 hfound)
      obtain rfl : q.price = price := Option.some.inj hfound
      rfl
    · intro heq
      subst heq
      refine List.mem_flatMap.2 ⟨(region, c.pricesIn region), Dict.mem_entries_iff.2 hsnapshot, ?_⟩
      exact List.mem_map.2 ⟨(instanceType, q.price), Dict.mem_entries_iff.2 hprice, rfl⟩
  refine Metrics.lastPrice?_eq_some_of_mem ?_ fun v hv ↦ ?_
  · exact Metrics.price_mem_samples.2 ((hmem _).2 rfl)
  · exact (hmem v).1 (Metrics.price_mem_samples.1 hv)

theorem samples_products (service : String) (l : List Product) :
    samples (Step.prices provider (.asked (.products service region) (.ok l))) =
      (l.filter (·.onDemandPrice.isPositive)).map (fun p ↦
        ([provider, region, p.instanceType], p.onDemandPrice)) := by
  change ((l.filter (·.onDemandPrice.isPositive)).map _).filterMap Event.sample? = _
  rw [List.filterMap_map]
  exact congrFun List.filterMap_eq_map _

/-- Of the products with a positive price, the last of a type is the last of all if that is one. -/
theorem lastPrice?_products (h : c.lastOf? region instanceType = some q)
    (hq : q.onDemandPrice.isPositive = true) (service : String) :
    lastPrice? [provider, region, instanceType]
      (Step.prices provider (.asked (.products service region) (.ok (c.productsIn region)))) =
        some q.onDemandPrice := by
  obtain ⟨hmatch, before, after, hsplit, hbefore⟩ := List.find?_eq_some_iff_append.1 h
  have htype : q.instanceType = instanceType := of_decide_eq_true hmatch
  rw [lastPrice?, samples_products, ← List.map_reverse, ← List.filter_reverse, hsplit]
  have hskip : ((before.filter (·.onDemandPrice.isPositive)).map (fun p ↦
      ([provider, region, p.instanceType], p.onDemandPrice))).find?
        (fun s ↦ s.1 = [provider, region, instanceType]) = none := by
    rw [List.find?_eq_none]
    intro s hs
    obtain ⟨p, hp, rfl⟩ := List.mem_map.1 hs
    have hother := hbefore p (List.mem_filter.1 hp).1
    simpa using hother
  have hkeep : (q :: after).filter (·.onDemandPrice.isPositive) =
      q :: after.filter (·.onDemandPrice.isPositive) := List.filter_cons_of_pos hq
  rw [List.filter_append, hkeep, List.map_append, List.map_cons,
    List.find?_append, hskip, Option.none_or, htype]
  simp

theorem lastPrice?_products_of_ne {region' : String} (h : region' ≠ region) (service : String)
    (l : List Product) : lastPrice? [provider, region, instanceType]
      (Step.prices provider (.asked (.products service region') (.ok l))) = none := by
  rw [lastPrice?, samples_products, Option.map_eq_none_iff, List.find?_eq_none]
  intro s hs
  obtain ⟨p, -, rfl⟩ := List.mem_map.1 (List.mem_reverse.1 hs)
  simp [h]

/-- The region is visited for every service, and each time the type is left with the same price. -/
theorem lastPrice?_dialogue (h : c.lastOf? region instanceType = some q)
    (hq : q.onDemandPrice.isPositive = true) :
    let last := lastPrice? [provider, region, instanceType]
      ((c.dialogue c.agenda).flatMap (Step.prices provider))
    last = none ∨ last = some q.onDemandPrice := by
  refine Metrics.lastPrice?_flatMap fun x hx ↦ ?_
  cases x with
  | asked r reply =>
    obtain ⟨haccepts, rfl⟩ := c.answered_of_mem hx
    cases r with
    | snapshot => cases haccepts
    | products service region' =>
      by_cases heq : region' = region
      · subst heq
        exact .inr (lastPrice?_products h hq service)
      · exact .inl (lastPrice?_products_of_ne heq service _)
    | _ => exact .inl rfl
  | askedImages offered => exact .inl rfl
  | acted time a => exact .inl rfl

end Catalog

section Cycle

open Relation (ReflTransGen)
open CatalogFile (scenes)
open Metrics.Registry (Shows Unshared firstWith? lastWith? ofEvents)

variable {provider : String} {c : Catalog} {s t : Scene CatalogFile} {steps : List Step}
  {prices : PriceSnapshot} {store : Store} {now : Nat} {inv : Inventory}

/-- How the price of a type in a region is looked at: as it is cached, with the products of any of some
services, and on the gauge after some reports. -/
structure PriceViews (inv : Inventory) (held : Lookup) (events : List Event) (services : List String)
    (provider region instanceType : String) (x : Binary64) : Prop where
  cached : ∃ price, held (.price provider region instanceType) = some price ∧
    Price.onDemand price = x
  served : ∀ service ∈ services, ∃ l, inv.products held provider service region = .ok l ∧
    ∀ d ∈ l, d.product.instanceType = instanceType → d.product.onDemandPrice = x
  /-- The gauge has the labels of the first report with their fingerprint and the value of the last. -/
  shown_iff : (ofEvents events).Shows [provider, region, instanceType] x ↔ ∃ first last,
    firstWith? (fingerprint [provider, region, instanceType]) events = some first ∧
    lastWith? (fingerprint [provider, region, instanceType]) events = some last ∧
    first.1 = [provider, region, instanceType] ∧ last.2 = x
  shown : Unshared [provider, region, instanceType] events →
    ∀ y, (ofEvents events).Shows [provider, region, instanceType] y ↔ y = x

theorem CatalogFile.inquiries_of_advances
    (h : Advances scenes Scene.now Undisturbed (FullRefresh.plan provider) s steps (.done ()) t)
    (hread : .asked .snapshot (.ok prices) ∈ steps) :
    inquiries steps = .asked .snapshot (.ok prices) :: t.state.held.dialogue t.state.held.agenda := by
  obtain ⟨u, c, -, -, rfl, hasked, -⟩ := keeps_undisturbed.writes trivial now_le_of_undisturbed h
  have hmem : .asked .snapshot (.ok prices) ∈ inquiries steps := List.mem_filter.2 ⟨hread, rfl⟩
  rw [hasked] at hmem ⊢
  obtain heq | hmem := List.mem_cons.1 hmem
  · rw [heq]
  · exact (t.state.held.answered_of_mem hmem).1.elim

theorem lastPrice?_reports_of_advances
    (h : Advances scenes Scene.now CatalogFile.Undisturbed (FullRefresh.plan provider) s steps
      (.done ()) t)
    (hasked : inquiries steps = .asked .snapshot (.ok c.snapshot) :: c.dialogue c.agenda)
    {region instanceType : String} {q : Product} (hregion : region ∈ c.regions.values)
    (hlast : c.lastOf? region instanceType = some q) (hq : q.onDemandPrice.isPositive = true) :
    lastPrice? [provider, region, instanceType] (reports steps) = some q.onDemandPrice := by
  have hprices := (FullRefresh.accounted_of_advances h).prices
  rw [hasked, List.flatMap_cons] at hprices
  rw [← Metrics.lastPrice?_filter_isPrice, hprices, Metrics.lastPrice?_append,
    Catalog.lastPrice?_snapshot hregion hlast]
  obtain hnone | hsome : lastPrice? _ _ = none ∨ _ := Catalog.lastPrice?_dialogue hlast hq
  · rw [hnone, Option.none_or]
  · rw [hsome, Option.some_or]

/-- Whoever finds the entries of a catalog finds the price of the last product of a type. -/
theorem Inventory.price_of_entries {held : Lookup} {region instanceType : String} {q : Product}
    (h : ∀ k, c.Lists provider k → held k = some (c.entry k)) (hregion : region ∈ c.regions.values)
    (hlast : c.lastOf? region instanceType = some q) :
    held (.price provider region instanceType) = some q.price := by
  have hprice := Catalog.get?_pricesIn_of_lastOf? hlast
  have hlists : c.Lists provider (.price provider region instanceType) :=
    ⟨rfl, hregion, Option.isSome_of_eq_some hprice⟩
  rw [h _ hlists, Catalog.entry, hprice]
  rfl

theorem Product.servedAmong_price {region instanceType : String} {p q : Product}
    (hlast : c.lastOf? region instanceType = some q) (hq : q.onDemandPrice.isPositive = true)
    (hp : p.instanceType = instanceType) :
    (p.servedAmong (c.productsIn region)).product.onDemandPrice = q.onDemandPrice := by
  subst hp
  have hfound : p.lastOfType (c.productsIn region) = q := congrArg (Option.getD · p) hlast
  rw [servedAmong, hfound, if_pos (Binary64.isPositive_iff.1 hq)]

/-- After a full cycle that could read the file, with any reports before it, a type whose last product
in a region has a positive price has that price in the cache and with every product of the type that is
served. So it has on the gauge, unless other labels with the same fingerprint were reported: then the
sample may have their labels or their value. -/
theorem Inventory.price_views_of_advances (before : List Event)
    (h : Advances scenes Scene.now CatalogFile.Undisturbed (FullRefresh.plan provider) s steps
      (.done ()) t)
    (hread : .asked .snapshot (.ok prices) ∈ steps)
    (hlong : now - s.now < store.ttl.long) (hshort : now - s.now < store.ttl.short)
    (hinv : provider ∈ inv.names) :
    ∃ u c, ReflTransGen CatalogFile.Undisturbed s u ∧ CatalogFile.read u.state.content = .ok c ∧
      prices = c.snapshot ∧ t.state.held = c ∧
      ∀ region ∈ c.regions.values, ∀ instanceType q, c.lastOf? region instanceType = some q →
        q.onDemandPrice.isPositive = true →
          PriceViews inv ((store.replay steps).lookup now) (before ++ reports steps) c.services
            provider region instanceType q.onDemandPrice := by
  obtain ⟨u, c, hu, hfound, rfl, rfl, hentries, -⟩ :=
    CatalogFile.lookup_of_advances h hread hlong hshort
  refine ⟨u, _, hu, hfound, rfl, rfl, fun region hregion instanceType q hlast hq ↦ ?_⟩
  have hasked := CatalogFile.inquiries_of_advances h hread
  have hpublishes := publishes_of_entries hinv hentries
  have hreported := lastPrice?_reports_of_advances h hasked hregion hlast hq
  constructor
  case cached => exact ⟨_, price_of_entries hentries hregion hlast, rfl⟩
  case served =>
    intro service hservice
    refine ⟨_, hpublishes.products service hservice region hregion, fun d hd hp ↦ ?_⟩
    obtain ⟨p, -, rfl⟩ := List.mem_map.1 hd
    exact Product.servedAmong_price hlast hq hp
  case shown_iff => exact Metrics.Registry.shows_iff
  case shown =>
    intro hunshared y
    rw [Metrics.Registry.shows_iff_of_unshared hunshared, Metrics.lastPrice?_append, hreported,
      Option.some_or, Option.some_inj]
    exact eq_comm

/-- `{"services":["c","d"],"regions":{"A":"x","B":"xy","C":"x"},"products":{"x":[`
`{"type":"t","onDemandPrice":5,"cpusPerVm":1,"memPerVm":1},`
`{"type":"yt","onDemandPrice":1,"cpusPerVm":1,"memPerVm":1},`
`{"type":"t","onDemandPrice":3,"cpusPerVm":1,"memPerVm":1}],"xy":[`
`{"type":"t","onDemandPrice":2,"cpusPerVm":1,"memPerVm":1}]}}`, in one line -/
def crossingBytes : Json.Bytes :=
  [123, 34, 115, 101, 114, 118, 105, 99, 101, 115, 34, 58, 91, 34, 99, 34, 44, 34, 100, 34, 93, 44,
    34, 114, 101, 103, 105, 111, 110, 115, 34, 58, 123, 34, 65, 34, 58, 34, 120, 34, 44, 34, 66, 34,
    58, 34, 120, 121, 34, 44, 34, 67, 34, 58, 34, 120, 34, 125, 44, 34, 112, 114, 111, 100, 117, 99,
    116, 115, 34, 58, 123, 34, 120, 34, 58, 91, 123, 34, 116, 121, 112, 101, 34, 58, 34, 116, 34, 44,
    34, 111, 110, 68, 101, 109, 97, 110, 100, 80, 114, 105, 99, 101, 34, 58, 53, 44, 34, 99, 112, 117,
    115, 80, 101, 114, 86, 109, 34, 58, 49, 44, 34, 109, 101, 109, 80, 101, 114, 86, 109, 34, 58, 49,
    125, 44, 123, 34, 116, 121, 112, 101, 34, 58, 34, 121, 116, 34, 44, 34, 111, 110, 68, 101, 109,
    97, 110, 100, 80, 114, 105, 99, 101, 34, 58, 49, 44, 34, 99, 112, 117, 115, 80, 101, 114, 86, 109,
    34, 58, 49, 44, 34, 109, 101, 109, 80, 101, 114, 86, 109, 34, 58, 49, 125, 44, 123, 34, 116, 121,
    112, 101, 34, 58, 34, 116, 34, 44, 34, 111, 110, 68, 101, 109, 97, 110, 100, 80, 114, 105, 99,
    101, 34, 58, 51, 44, 34, 99, 112, 117, 115, 80, 101, 114, 86, 109, 34, 58, 49, 44, 34, 109, 101,
    109, 80, 101, 114, 86, 109, 34, 58, 49, 125, 93, 44, 34, 120, 121, 34, 58, 91, 123, 34, 116, 121,
    112, 101, 34, 58, 34, 116, 34, 44, 34, 111, 110, 68, 101, 109, 97, 110, 100, 80, 114, 105, 99,
    101, 34, 58, 50, 44, 34, 99, 112, 117, 115, 80, 101, 114, 86, 109, 34, 58, 49, 44, 34, 109, 101,
    109, 80, 101, 114, 86, 109, 34, 58, 49, 125, 93, 125, 125]

def crossingProduct (instanceType : String) (price : Nat) : Product :=
  ⟨instanceType, .ofNat price, .empty, .ofNat 1, .ofNat 1, .zero, "", "", [], .empty, false⟩

def crossingCatalog : Catalog where
  services := ["c", "d"]
  regions := Dict.ofList [("A", "x"), ("B", "xy"), ("C", "x")]
  products := Dict.ofList [
    ("x", [crossingProduct "t" 5, crossingProduct "yt" 1, crossingProduct "t" 3]),
    ("xy", [crossingProduct "t" 2])]
  images := .empty
  versions := .empty
  shortLivedPrices := false

theorem CatalogFile.read_crossingBytes : read (.ok crossingBytes) = .ok crossingCatalog :=
  read_of_toOption (by decide +kernel)

def crossingScene : Scene CatalogFile :=
  ⟨⟨"catalog.json", .ok crossingBytes, crossingCatalog⟩, 0, .free, []⟩

/-- A type that is listed twice for a region with two display names, under two services. It had
another price before. -/
theorem Inventory.price_views_of_advances_crossingScene :
    let run := (FullRefresh.plan "p").run scenes Scene.now crossingScene
    let before : List Event := [.price "p" "x" "t" (.ofNat 9)]
    Unshared ["p", "x", "t"] (before ++ reports run.steps) ∧
      crossingCatalog.lastOf? "x" "t" = some (crossingProduct "t" 3) ∧
      PriceViews ⟨["p"]⟩ (((Store.empty ⟨9, 9⟩).replay run.steps).lookup 5)
        (before ++ reports run.steps) ["c", "d"] "p" "x" "t" (crossingProduct "t" 3).onDemandPrice := by
  intro run before
  obtain ⟨hread, hheld⟩ : _ ∈ run.steps ∧ run.state.state.held = crossingCatalog :=
    CatalogFile.run_reads CatalogFile.read_crossingBytes
  have hrun : Advances scenes Scene.now CatalogFile.Undisturbed (FullRefresh.plan "p") crossingScene
      run.steps (.done ()) run.state := Plan.advances_run_unit (FullRefresh.plan "p") crossingScene
  have hlive : 5 - crossingScene.now < (Store.empty ⟨9, 9⟩).ttl.long := by decide
  have hinv : "p" ∈ (Inventory.mk ["p"]).names := by decide
  have hunshared : Unshared ["p", "x", "t"] (before ++ reports run.steps) := by
    unfold Unshared
    decide +kernel
  have hlast : crossingCatalog.lastOf? "x" "t" = some (crossingProduct "t" 3) := by decide +kernel
  have hregion : "x" ∈ crossingCatalog.regions.values := by decide +kernel
  have hpositive : (crossingProduct "t" 3).onDemandPrice.isPositive = true := by decide +kernel
  obtain ⟨u, c, -, -, -, hc, hviews⟩ :=
    price_views_of_advances before hrun hread hlive hlive hinv
  obtain rfl : crossingCatalog = c := hheld.symm.trans hc
  exact ⟨hunshared, hlast, hviews "x" hregion "t" _ hlast hpositive⟩

/-- Two prices whose labels make the same text: the gauge of the second is missing, and that of the
first has the price of the second. -/
theorem Inventory.price_not_shown_crossingScene :
    let run := (FullRefresh.plan "p").run scenes Scene.now crossingScene
    let registry := ofEvents (reports run.steps)
    .asked .snapshot (.ok crossingCatalog.snapshot) ∈ run.steps ∧
      "xy" ∈ crossingCatalog.regions.values ∧
      crossingCatalog.lastOf? "xy" "t" = some (crossingProduct "t" 2) ∧
      (crossingProduct "t" 2).onDemandPrice.isPositive = true ∧
      (∀ v, ¬registry.Shows ["p", "xy", "t"] v) ∧
      crossingCatalog.lastOf? "x" "yt" = some (crossingProduct "yt" 1) ∧
      registry.Shows ["p", "x", "yt"] (.ofNat 2) ∧ ¬registry.Shows ["p", "x", "yt"] (.ofNat 1) := by
  intro run registry
  have hvalues : registry.prices.values =
      [(["p", "x", "yt"], .ofNat 2), (["p", "x", "t"], .ofNat 3)] := by decide +kernel
  have hshows (labels : List String) (v : Binary64) : registry.Shows labels v ↔
      (labels, v) ∈ [(["p", "x", "yt"], Binary64.ofNat 2), (["p", "x", "t"], .ofNat 3)] := by
    rw [← hvalues]
    rfl
  simp only [hshows]
  exact ⟨(CatalogFile.run_reads CatalogFile.read_crossingBytes).1, by decide +kernel, by decide +kernel,
    by decide +kernel, by simp, by decide +kernel, by decide +kernel, by decide +kernel⟩

end Cycle

end CloudOffers
