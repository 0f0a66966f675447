import CloudOffers.Proofs.Inventory
import CloudOffers.Proofs.Catalog.Cycle
import CloudOffers.Proofs.Offer.Attribute
import CloudOffers.Proofs.Offer.Details
/-!
What questions about a provider are answered with after a full cycle: its catalog. Every key has one
entry in a catalog, so it does not matter that services, regions or instance types are listed twice.
-/

namespace CloudOffers

open Plan (Step inquiries writes Advances)
open CatalogFile (scenes)

namespace CatalogFile

/-- Time passes and the file is edited, but no other cycle goes on. -/
def Undisturbed (s t : Scene CatalogFile) : Prop :=
  ∃ content n, t = { s with state := { s.state with content := content }, now := s.now + n }

theorem now_le_of_undisturbed (s t : Scene CatalogFile) (h : Undisturbed s t) : s.now ≤ t.now := by
  obtain ⟨content, n, rfl⟩ := h
  exact Nat.le_add_right ..

theorem keeps_undisturbed : Keeps Undisturbed (fun _ ↦ True) where
  changes := by
    rintro s _ - ⟨content, n, rfl⟩
    exact ⟨trivial, rfl⟩
  answers _ _ _ := trivial

end CatalogFile

/-- The last product of a list that is of the type of another. -/
def Product.lastOfType (l : List Product) (p : Product) : Product :=
  (l.reverse.find? (fun q ↦ q.instanceType = p.instanceType)).getD p

/-- A listed product as it is to be served: with the price of the last product of its type, if that is
positive, and with the spot prices of that product, ascending by zone. -/
def Product.servedAmong (l : List Product) (p : Product) : ProductDetails where
  product :=
    { p with
      onDemandPrice :=
        if (lastOfType l p).onDemandPrice.isNaN = false ∧
            Binary64.zero.rank < (lastOfType l p).onDemandPrice.rank then
          (lastOfType l p).onDemandPrice
        else p.onDemandPrice
      spotPrices := ⟨[], .nil⟩ }
  burst := decide (p.instanceType.toList.head? = some 't' ∨ p.instanceType.toList.head? = some 'T')
  spotPrices := (lastOfType l p).spotPrices.entries.map (fun e ↦ ⟨e.1, e.2⟩)

theorem Product.isBurstable_eq_decide (p : Product) : p.isBurstable =
    decide (p.instanceType.toList.head? = some 't' ∨ p.instanceType.toList.head? = some 'T') := by
  rw [isBurstable]
  cases p.instanceType.toList with
  | nil => rfl
  | cons c rest => simp

theorem Catalog.get?_pricesIn {c : Catalog} {region : String} {p : Product}
    (h : p ∈ c.productsIn region) :
    (c.pricesIn region).get? p.instanceType = some (p.lastOfType (c.productsIn region)).price := by
  rw [pricesIn, Dict.get?_ofList, ← List.map_reverse, List.find?_map, Option.map_map,
    Product.lastOfType]
  change ((c.productsIn region).reverse.find? (fun q ↦ q.instanceType = p.instanceType)).map
    Product.price = _
  cases hfind : (c.productsIn region).reverse.find? (fun q ↦ q.instanceType = p.instanceType) with
  | none => simpa using List.find?_eq_none.1 hfind p (List.mem_reverse.2 h)
  | some q => rfl

/-- Questions about a provider are answered as its catalog says. -/
structure Inventory.Publishes (inv : Inventory) (held : Lookup) (provider : String) (c : Catalog) :
    Prop where
  services : inv.services held provider = .ok (c.services.map Service.mk)
  regions : ∀ service ∈ c.services, inv.regions held provider service = .ok c.regions
  attributes : ∀ service ∈ c.services, ∃ cpus memory,
    inv.attributeValues held provider service "cpu" = .ok cpus ∧
    inv.attributeValues held provider service "memory" = .ok memory ∧
    AttributeValues.Enumerates cpus ((c.products.entries.flatMap (·.2)).map (·.cpus)) ∧
    AttributeValues.Enumerates memory ((c.products.entries.flatMap (·.2)).map (·.memory))
  versions : ∀ service ∈ c.services, ∀ region ∈ c.regions.entries.map (·.2),
    inv.versions held provider service region = .ok ((c.versions.get? region).getD [])
  images : c.images.entries ≠ [] → ∀ service ∈ c.services, ∀ region ∈ c.regions.entries.map (·.2),
    inv.images held provider service region = .ok ((c.images.get? region).getD [])
  zones : c.services ≠ [] → ∀ region ∈ c.regions.entries.map (·.2),
    (∃ p ∈ (c.products.get? region).getD [], p.zones ≠ []) → ∃ zones,
      inv.zones held provider region = .ok zones ∧ zones.Pairwise (· < ·) ∧
      ∀ z, z ∈ zones ↔ ∃ p ∈ (c.products.get? region).getD [], z ∈ p.zones
  products : ∀ service ∈ c.services, ∀ region ∈ c.regions.entries.map (·.2),
    inv.products held provider service region =
      .ok (((c.products.get? region).getD []).map
        (fun p ↦ p.servedAmong ((c.products.get? region).getD [])))
  spots : ∀ region, ∀ p ∈ (c.products.get? region).getD [],
    (p.servedAmong ((c.products.get? region).getD [])).spotPrices.Pairwise (fun a b ↦ a.zone < b.zone)

namespace Inventory

variable {inv : Inventory} {held : Lookup} {provider : String} {c : Catalog}

theorem details_eq_servedAmong {region : String} {p : Product} (hp : p ∈ c.productsIn region)
    (h : held (.price provider region p.instanceType) =
      some (c.entry (.price provider region p.instanceType))) :
    details held provider region p = p.servedAmong (c.productsIn region) := by
  have hentry : c.entry (.price provider region p.instanceType) =
      (p.lastOfType (c.productsIn region)).price := by
    rw [Catalog.entry, Catalog.get?_pricesIn hp]
    rfl
  rw [details, h, hentry]
  simp only [ProductDetails.withPrice, ProductDetails.ofProduct, Product.price, Product.servedAmong,
    Product.isBurstable_eq_decide, ← Binary64.isPositive_iff]
  split <;> rfl

/-- Whoever finds the entries of a catalog under the keys it lists answers as the catalog says. -/
theorem publishes_of_entries (hinv : provider ∈ inv.names)
    (h : ∀ k, c.Lists provider k → held k = some (c.entry k)) : inv.Publishes held provider c := by
  have hask {k : Key} (hk : c.Lists provider k) (hp : k.provider = provider) :
      inv.ask held k = .ok (c.entry k) := ask_eq (hp ▸ hinv) (h k hk)
  have hvalues {service name : String} (hs : service ∈ c.services) (hname : name ∈ ["cpu", "memory"]) :
      inv.attributeValues held provider service name = .ok (c.valuesOf name).floats := by
    rw [attributeValues, if_neg (fun hn ↦ hn.2 hname), hask (k := .attributes ..) ⟨rfl, hs, hname⟩ rfl]
    rfl
  refine ⟨hask (k := .services provider) rfl rfl, fun service hs ↦ ?_, fun service hs ↦ ?_,
    fun service hs region hr ↦ ?_, fun hi service hs region hr ↦ ?_, fun hne region hr hz ↦ ?_,
    fun service hs region hr ↦ ?_, fun region p hp ↦ ZonePrice.ofSpot_ascending _⟩
  case refine_1 => exact hask (k := .regions ..) ⟨rfl, hs⟩ rfl
  case refine_2 =>
    refine ⟨_, _, hvalues hs (by decide), hvalues hs (by decide), ?_, ?_⟩
    · exact AttributeValues.floats_ofFloats (c.products.values.flatten.map (·.cpus))
    · exact AttributeValues.floats_ofFloats (c.products.values.flatten.map (·.memory))
  case refine_3 => exact hask (k := .versions ..) ⟨rfl, hs, hr⟩ rfl
  case refine_4 => exact hask (k := .images ..) ⟨rfl, List.isEmpty_eq_false_iff.2 hi, hs, hr⟩ rfl
  case refine_5 =>
    obtain ⟨p, hp, hzones⟩ := hz
    have hsome : ((c.products.get? region).getD []).flatMap (·.zones) ≠ [] :=
      fun hnone ↦ hzones (List.flatMap_eq_nil_iff.1 hnone p hp)
    exact ⟨_, hask (k := .zones ..) ⟨rfl, hne, hr, hsome⟩ rfl, inOrder_pairwise _,
      fun z ↦ mem_inOrder.trans List.mem_flatMap⟩
  case refine_6 =>
    rw [products, hask (k := .products ..) ⟨rfl, hs, hr⟩ rfl]
    refine congrArg Except.ok (List.map_congr_left ?_)
    intro p hp
    refine details_eq_servedAmong hp (h (.price ..) ⟨rfl, hr, ?_⟩)
    rw [Catalog.get?_pricesIn hp]
    rfl

end Inventory

section Cycle

open Relation (ReflTransGen)

variable {provider : String} {c : Catalog} {s t : Scene CatalogFile} {steps : List Step}
  {prices : PriceSnapshot} {store : Store} {now : Nat}

namespace CatalogFile

/-- An undisturbed full cycle that could read the file writes the catalog that it read, and then the
status. -/
theorem writes_of_advances
    (h : Advances scenes Scene.now Undisturbed (FullRefresh.plan provider) s steps (.done ()) t)
    (hread : .asked .snapshot (.ok prices) ∈ steps) :
    ∃ u c, ReflTransGen Undisturbed s u ∧ read u.state.content = .ok c ∧ prices = c.snapshot ∧
      t.state.held = c ∧ ∃ l time later,
        writes steps = l ++ [⟨later, .status provider, toString (time / 1000000)⟩] ∧
        l.map Write.publication =
          Request.snapshot.publications provider c.snapshot ++ c.publications provider ∧
        s.now ≤ time ∧ time ≤ t.now ∧ ∀ w ∈ writes steps, s.now ≤ w.time ∧ w.time ≤ t.now := by
  obtain ⟨u, c, hu, hc, hheld, hasked, l, time, later, hwrites, hpublications, hs, ht, htimes⟩ :=
    keeps_undisturbed.writes trivial now_le_of_undisturbed h
  have hmem : .asked .snapshot (.ok prices) ∈ inquiries steps := List.mem_filter.2 ⟨hread, rfl⟩
  rw [hasked] at hmem
  have hreply : .ok prices = (answer .snapshot u.state).1 := by
    rcases List.mem_cons.1 hmem with heq | hmem
    · injection heq
    · cases (c.answered_of_mem hmem).1
  cases hfound : read u.state.content with
  | ok found =>
    simp only [answer, hfound] at hc hreply hpublications
    subst hc
    cases hreply
    exact ⟨u, found, hu, hfound, rfl, hheld, l, time, later, hwrites, hpublications, hs, ht, htimes⟩
  | error e =>
    simp only [answer, hfound] at hreply
    cases hreply

theorem lookup_of_advances
    (h : Advances scenes Scene.now Undisturbed (FullRefresh.plan provider) s steps (.done ()) t)
    (hread : .asked .snapshot (.ok prices) ∈ steps)
    (hlong : now - s.now < store.ttl.long) (hshort : now - s.now < store.ttl.short) :
    ∃ u c, ReflTransGen Undisturbed s u ∧ read u.state.content = .ok c ∧ prices = c.snapshot ∧
      t.state.held = c ∧
      (∀ k, c.Lists provider k → (store.replay steps).lookup now k = some (c.entry k)) ∧
      ∃ time : Nat, s.now ≤ time ∧ time ≤ t.now ∧
        (store.replay steps).lookup now (.status provider) = some (toString (time / 1000000)) := by
  obtain ⟨u, c, hu, hfound, hprices, hheld, l, time, later, hwrites, hpublications, hs, ht, htimes⟩ :=
    writes_of_advances h hread
  have hget {k : Key} {e : Entry k.Payload} (hlast : Write.latest k (writes steps) = some e) :
      (store.replay steps).lookup now k = some e.value := by
    have hlive : now - s.now < store.ttl.of k.tier := by
      cases k.tier with
      | long => exact hlong
      | short => exact hshort
    have hwritten : s.now ≤ e.writtenAt := (htimes _ (Write.mem_of_latest hlast)).1
    rw [Plan.replay_eq_writeAll]
    exact Store.get_writeAll store hlast (by omega)
  refine ⟨u, c, hu, hfound, hprices, hheld, fun k hk ↦ ?_, time, hs, ht,
    hget (k := .status provider) (e := ⟨toString (time / 1000000), later⟩) ?_⟩
  · -- a listed key has one entry in the catalog, whichever of its writes comes last
    have hmem {v : k.Payload} : ⟨k, v⟩ ∈ l.map Write.publication ↔ v = c.entry k := by
      rw [hpublications, List.mem_append, c.mem_snapshot_publications_iff, c.mem_publications_iff]
      by_cases hprices : k.category = .prices <;> simp [hk, hprices]
    cases hlast : Write.latest k (writes steps) with
    | none =>
      obtain ⟨w, hw, hpublication⟩ := List.mem_map.1 (hmem.2 rfl)
      have hne := Write.latest_eq_none_iff.1 hlast w (hwrites ▸ List.mem_append_left _ hw)
      exact absurd (congrArg Sigma.fst hpublication) hne
    | some e =>
      rw [hget hlast]
      have hwritten := Write.mem_of_latest hlast
      rw [hwrites] at hwritten
      rcases List.mem_append.1 hwritten with hw | hw
      · exact congrArg some (hmem.1 (List.mem_map_of_mem hw))
      · have hstatus : k = .status provider := congrArg Write.key (List.mem_singleton.1 hw)
        rw [hstatus] at hk
        cases hk
  · rw [hwrites, Write.latest_append]
    exact congrArg (·.or (Write.latest (.status provider) l)) (Write.left?_self later _ _)

end CatalogFile

/-- A full cycle that could read the file publishes the catalog that it read, whatever was in the
store before and whatever becomes of the file afterwards: as long as what it has written lives,
questions about the provider are answered as that catalog says, and the status is a time at which the
cycle was going on. -/
theorem Inventory.publishes_of_advances {inv : Inventory}
    (h : Advances scenes Scene.now CatalogFile.Undisturbed (FullRefresh.plan provider) s steps
      (.done ()) t)
    (hread : .asked .snapshot (.ok prices) ∈ steps)
    (hlong : now - s.now < store.ttl.long) (hshort : now - s.now < store.ttl.short)
    (hinv : provider ∈ inv.names) :
    ∃ u c, ReflTransGen CatalogFile.Undisturbed s u ∧ CatalogFile.read u.state.content = .ok c ∧
      prices = c.snapshot ∧ t.state.held = c ∧
      inv.Publishes ((store.replay steps).lookup now) provider c ∧
      ∃ time : Nat, s.now ≤ time ∧ time ≤ t.now ∧
        inv.status ((store.replay steps).lookup now) provider = .ok (toString (time / 1000000)) := by
  obtain ⟨u, c, hu, hfound, hprices, hheld, hentries, time, hs, ht, hstatus⟩ :=
    CatalogFile.lookup_of_advances h hread hlong hshort
  exact ⟨u, c, hu, hfound, hprices, hheld, publishes_of_entries hinv hentries, time, hs, ht,
    ask_eq (k := .status provider) hinv hstatus⟩

theorem CatalogFile.run_reads (hread : read s.state.content = .ok c) :
    .asked .snapshot (.ok c.snapshot) ∈ ((FullRefresh.plan provider).run scenes Scene.now s).steps ∧
      ((FullRefresh.plan provider).run scenes Scene.now s).state.state.held = c := by
  have hkeeps : Keeps (fun _ _ ↦ False) (fun _ ↦ True) := ⟨fun _ _ _ h ↦ h.elim, fun _ _ _ ↦ trivial⟩
  let run := (FullRefresh.plan provider).run scenes Scene.now s
  have h : Advances scenes Scene.now (fun _ _ ↦ False) (FullRefresh.plan provider) s run.steps
      (.done ()) run.state := Plan.advances_run_unit (FullRefresh.plan provider) s
  obtain ⟨text, hcompleted⟩ := FullRefresh.completed_of_advances h
  obtain ⟨u, c', hu, -, hc, hheld, hasked⟩ := hkeeps.dialogue trivial h.dialogue hcompleted.inquires
  have hsame : s = u := by
    rcases hu.cases_head with heq | ⟨_, hfalse, _⟩
    · exact heq
    · cases hfalse
  subst hsame
  simp only [answer, hread] at hc hasked
  subst hc
  have hmem : .asked .snapshot (.ok c.snapshot) ∈ inquiries run.steps := by
    rw [hasked]
    exact List.mem_cons_self
  exact ⟨(List.mem_filter.1 hmem).1, hheld⟩

theorem Inventory.publishes_of_advances_sampleScene :
    let run := (FullRefresh.plan "p").run scenes Scene.now CatalogFile.sampleScene
    (Inventory.mk ["p"]).Publishes (((Store.empty ⟨9, 9⟩).replay run.steps).lookup 5) "p"
      CatalogFile.sampleCatalog := by
  intro run
  obtain ⟨hread, hheld⟩ : _ ∈ run.steps ∧ run.state.state.held = CatalogFile.sampleCatalog :=
    CatalogFile.run_reads CatalogFile.read_sampleBytes
  have hrun : Advances scenes Scene.now CatalogFile.Undisturbed (FullRefresh.plan "p")
      CatalogFile.sampleScene run.steps (.done ()) run.state :=
    Plan.advances_run_unit (FullRefresh.plan "p") CatalogFile.sampleScene
  have hlive : 5 - CatalogFile.sampleScene.now < (Store.empty ⟨9, 9⟩).ttl.long := by decide
  have hinv : "p" ∈ (Inventory.mk ["p"]).names := by decide
  obtain ⟨u, c, -, -, -, hc, hpublishes, -⟩ := publishes_of_advances hrun hread hlive hlive hinv
  rw [← hheld, hc]
  exact hpublishes

end Cycle

end CloudOffers
