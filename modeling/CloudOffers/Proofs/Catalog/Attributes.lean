import CloudOffers.Proofs.Catalog.Inventory
/-!
Attribute values beside the products that are served. The values are those of all products of a
catalog, but only products of the regions that it lists are served.
-/

namespace CloudOffers

open Plan (Advances)
open CatalogFile (scenes)
open AttributeValues (Enumerates)

namespace Catalog

variable {c : Catalog} {region : String} {p : Product}

/-- The products of regions that are not listed. -/
def unlisted (c : Catalog) : List Product :=
  (c.products.entries.filter (fun e ↦ e.1 ∉ c.regions.values)).flatMap (·.2)

theorem mem_productsIn_iff : p ∈ c.productsIn region ↔ ∃ l, (region, l) ∈ c.products.entries ∧ p ∈ l := by
  constructor
  · intro h
    cases hget : c.products.get? region with
    | none =>
      rw [productsIn, hget] at h
      cases h
    | some l =>
      rw [productsIn, hget] at h
      exact ⟨l, Dict.mem_entries_iff.2 hget, h⟩
  · rintro ⟨l, hl, hp⟩
    rw [productsIn, Dict.mem_entries_iff.1 hl]
    exact hp

theorem mem_unlisted_iff : p ∈ c.unlisted ↔ ∃ region, region ∉ c.regions.values ∧ p ∈ c.productsIn region := by
  simp only [unlisted, List.mem_flatMap, List.mem_filter, decide_eq_true_eq, mem_productsIn_iff]
  constructor
  · rintro ⟨⟨region, l⟩, ⟨hentry, hregion⟩, hp⟩
    exact ⟨region, hregion, l, hentry, hp⟩
  · rintro ⟨region, hregion, l, hentry, hp⟩
    exact ⟨(region, l), ⟨hentry, hregion⟩, hp⟩

theorem mem_products_iff : p ∈ c.products.values.flatten ↔
    (∃ region ∈ c.regions.values, p ∈ c.productsIn region) ∨ p ∈ c.unlisted := by
  rw [mem_unlisted_iff, List.mem_flatten]
  constructor
  · rintro ⟨l, hl, hp⟩
    obtain ⟨⟨region, _⟩, hentry, rfl⟩ := List.mem_map.1 hl
    have hin : p ∈ c.productsIn region := mem_productsIn_iff.2 ⟨_, hentry, hp⟩
    by_cases hregion : region ∈ c.regions.values
    · exact .inl ⟨region, hregion, hin⟩
    · exact .inr ⟨region, hregion, hin⟩
  · intro h
    obtain ⟨region, hin⟩ : ∃ region, p ∈ c.productsIn region :=
      h.elim (fun ⟨region, _, hin⟩ ↦ ⟨region, hin⟩) (fun ⟨region, _, hin⟩ ↦ ⟨region, hin⟩)
    obtain ⟨l, hentry, hp⟩ := mem_productsIn_iff.1 hin
    exact ⟨l, List.mem_map_of_mem hentry, hp⟩

end Catalog

/-- What a product offers of an attribute; what is not the cpus is the memory. -/
def Product.amountOf (name : String) (p : Product) : Binary64 :=
  if name = Attribute.cpu then p.cpus else p.memory

namespace Inventory

variable (inv : Inventory) (held : Lookup) (provider service : String)

/-- What is served for a service in all the regions that it is said to have. -/
def served : Except Refusal (List ProductDetails) := do
  let regions ← inv.regions held provider service
  let details ← regions.values.mapM (inv.products held provider service)
  .ok details.flatten

theorem mapM_eq_ok {f : String → Except Refusal (List ProductDetails)}
    {g : String → List ProductDetails} {l : List String} (h : ∀ x ∈ l, f x = .ok (g x)) :
    l.mapM f = .ok (l.map g) := by
  induction l with
  | nil => rfl
  | cons x l ih =>
    rw [List.mapM_cons, h x List.mem_cons_self, ih (fun y hy ↦ h y (List.mem_cons_of_mem _ hy))]
    rfl

variable {inv held provider service} {c : Catalog}

theorem Publishes.served (h : inv.Publishes held provider c) (hs : service ∈ c.services) :
    inv.served held provider service = .ok (c.regions.values.flatMap (fun region ↦
      (c.productsIn region).map (fun p ↦ p.servedAmong (c.productsIn region)))) := by
  rw [Inventory.served, h.regions service hs]
  change (do
    let details ← c.regions.values.mapM (inv.products held provider service)
    .ok details.flatten) = _
  rw [mapM_eq_ok (l := c.regions.values) (h.products service hs)]
  rfl

theorem Publishes.attributeValues (h : inv.Publishes held provider c) (hs : service ∈ c.services)
    {name : String} (hname : name ∈ Attribute.all) :
    ∃ values, inv.attributeValues held provider service name = .ok values ∧
      Enumerates values (c.products.values.flatten.map (Product.amountOf name)) := by
  obtain ⟨cpus, memory, hcpus, hmemory, hcpusOf, hmemoryOf⟩ := h.attributes service hs
  simp only [Attribute.all, List.mem_cons, List.not_mem_nil, or_false] at hname
  rcases hname with rfl | rfl
  · exact ⟨cpus, hcpus, hcpusOf⟩
  · exact ⟨memory, hmemory, hmemoryOf⟩

/-- The values of an attribute are those of what is served and of what regions that are not listed
have. -/
theorem Publishes.served_attributeValues (h : inv.Publishes held provider c)
    (hs : service ∈ c.services) :
    ∃ served, inv.served held provider service = .ok served ∧ ∀ name ∈ Attribute.all, ∃ values,
      inv.attributeValues held provider service name = .ok values ∧
      Enumerates values (served.map (fun d ↦ d.product.amountOf name) ++
        c.unlisted.map (Product.amountOf name)) := by
  refine ⟨_, h.served hs, fun name hname ↦ ?_⟩
  obtain ⟨values, hvalues, henumerates⟩ := h.attributeValues hs hname
  refine ⟨values, hvalues, henumerates.congr fun x ↦ ?_⟩
  -- the price of a product that is served may be another, but not what it offers
  have hserved (l : List Product) : (l.map (fun p ↦ p.servedAmong l)).map
      (fun d ↦ d.product.amountOf name) = l.map (Product.amountOf name) := by
    rw [List.map_map]
    rfl
  have hmap : (c.regions.values.flatMap (fun region ↦
      (c.productsIn region).map (fun p ↦ p.servedAmong (c.productsIn region)))).map
        (fun d ↦ d.product.amountOf name) =
      (c.regions.values.flatMap c.productsIn).map (Product.amountOf name) := by
    rw [List.map_flatMap, List.map_flatMap]
    exact congrArg (List.flatMap · _) (funext fun region ↦ hserved _)
  rw [hmap, ← List.map_append, List.mem_map, List.mem_map]
  simp only [Catalog.mem_products_iff, List.mem_append, List.mem_flatMap]

end Inventory

section Cycle

open Relation (ReflTransGen)

variable {provider : String} {s t : Scene CatalogFile} {steps : List Plan.Step}
  {prices : PriceSnapshot} {store : Store} {now : Nat}

/-- After a full cycle, each attribute has the ascending distinct values of all products of the catalog
that was read, those of unlisted regions with them, which are not served. So a value that nothing
served offers is listed just in case an unlisted product has one. -/
theorem Inventory.attributeValues_served_iff {inv : Inventory}
    (h : Advances scenes Scene.now CatalogFile.Undisturbed (FullRefresh.plan provider) s steps
      (.done ()) t)
    (hread : .asked .snapshot (.ok prices) ∈ steps)
    (hlong : now - s.now < store.ttl.long) (hshort : now - s.now < store.ttl.short)
    (hinv : provider ∈ inv.names) :
    let held := (store.replay steps).lookup now
    ∃ u c, ReflTransGen CatalogFile.Undisturbed s u ∧ CatalogFile.read u.state.content = .ok c ∧
      prices = c.snapshot ∧ t.state.held = c ∧
      ∀ service ∈ c.services, ∃ served, inv.served held provider service = .ok served ∧
        ∀ name ∈ Attribute.all, ∃ values,
          inv.attributeValues held provider service name = .ok values ∧
          Enumerates values (served.map (fun d ↦ d.product.amountOf name) ++
            c.unlisted.map (Product.amountOf name)) ∧
          ((∀ x ∈ values, ∃ d ∈ served, x.Alike (d.product.amountOf name)) ↔
            ∀ p ∈ c.unlisted, ∃ d ∈ served, (p.amountOf name).Alike (d.product.amountOf name)) := by
  intro held
  obtain ⟨u, c, hu, hfound, hprices, hheld, hentries, -⟩ :=
    CatalogFile.lookup_of_advances h hread hlong hshort
  have hpublishes : inv.Publishes held provider c := publishes_of_entries hinv hentries
  refine ⟨u, c, hu, hfound, hprices, hheld, fun service hs ↦ ?_⟩
  obtain ⟨served, hserved, hattributes⟩ := hpublishes.served_attributeValues hs
  refine ⟨served, hserved, fun name hname ↦ ?_⟩
  obtain ⟨values, hvalues, henumerates⟩ := hattributes name hname
  exact ⟨values, hvalues, henumerates, henumerates.alike_iff⟩

theorem Inventory.attributeValues_served_iff_sampleScene :
    let run := (FullRefresh.plan "p").run scenes Scene.now CatalogFile.sampleScene
    let held := ((Store.empty ⟨9, 9⟩).replay run.steps).lookup 5
    ∃ served values, (Inventory.mk ["p"]).served held "p" "c" = .ok served ∧
      (Inventory.mk ["p"]).attributeValues held "p" "c" Attribute.cpu = .ok values ∧
      ∀ x ∈ values, ∃ d ∈ served, x.Alike d.product.cpus := by
  intro run held
  obtain ⟨hread, hlast⟩ : _ ∈ run.steps ∧ run.state.state.held = CatalogFile.sampleCatalog :=
    CatalogFile.run_reads CatalogFile.read_sampleBytes
  have hrun : Advances scenes Scene.now CatalogFile.Undisturbed (FullRefresh.plan "p")
      CatalogFile.sampleScene run.steps (.done ()) run.state :=
    Plan.advances_run_unit (FullRefresh.plan "p") CatalogFile.sampleScene
  have hlive : 5 - CatalogFile.sampleScene.now < (Store.empty ⟨9, 9⟩).ttl.long := by decide
  have hinv : "p" ∈ (Inventory.mk ["p"]).names := by decide
  obtain ⟨u, c, -, -, -, hc, hservices⟩ := attributeValues_served_iff hrun hread hlive hlive hinv
  rw [hlast] at hc
  subst hc
  have hservice : "c" ∈ CatalogFile.sampleCatalog.services := List.mem_cons_self
  obtain ⟨served, hserved, hattributes⟩ := hservices "c" hservice
  have hcpu : Attribute.cpu ∈ Attribute.all := List.mem_cons_self
  obtain ⟨values, hvalues, -, hserves⟩ := hattributes Attribute.cpu hcpu
  have hunlisted : CatalogFile.sampleCatalog.unlisted = [] := by decide +kernel
  refine ⟨served, values, hserved, hvalues, hserves.2 fun p hp ↦ ?_⟩
  rw [hunlisted] at hp
  cases hp

/-- `{"services":["c"],"regions":{"E":"e"},"products":{"e":[{"type":"t","cpusPerVm":1,"memPerVm":2}],`
`"w":[{"type":"u","cpusPerVm":4,"memPerVm":8}]}}`, in one line -/
def CatalogFile.strayBytes : Json.Bytes :=
  [123, 34, 115, 101, 114, 118, 105, 99, 101, 115, 34, 58, 91, 34, 99, 34, 93, 44, 34, 114, 101,
    103, 105, 111, 110, 115, 34, 58, 123, 34, 69, 34, 58, 34, 101, 34, 125, 44, 34, 112, 114, 111,
    100, 117, 99, 116, 115, 34, 58, 123, 34, 101, 34, 58, 91, 123, 34, 116, 121, 112, 101, 34, 58,
    34, 116, 34, 44, 34, 99, 112, 117, 115, 80, 101, 114, 86, 109, 34, 58, 49, 44, 34, 109, 101,
    109, 80, 101, 114, 86, 109, 34, 58, 50, 125, 93, 44, 34, 119, 34, 58, 91, 123, 34, 116, 121,
    112, 101, 34, 58, 34, 117, 34, 44, 34, 99, 112, 117, 115, 80, 101, 114, 86, 109, 34, 58, 52, 44,
    34, 109, 101, 109, 80, 101, 114, 86, 109, 34, 58, 56, 125, 93, 125, 125]

def CatalogFile.strayCatalog : Catalog :=
  ⟨["c"], Dict.ofList [("E", "e")],
    Dict.ofList [("e", [⟨"t", .zero, .empty, .ofNat 1, .ofNat 2, .zero, "", "", [], .empty, false⟩]),
      ("w", [⟨"u", .zero, .empty, .ofNat 4, .ofNat 8, .zero, "", "", [], .empty, false⟩])],
    .empty, .empty, false⟩

theorem CatalogFile.read_strayBytes : read (.ok strayBytes) = .ok strayCatalog :=
  read_of_toOption (by decide +kernel)

def CatalogFile.strayScene : Scene CatalogFile :=
  ⟨⟨"catalog.json", .ok strayBytes, default⟩, 0, .free, []⟩

/-- All that is served has one cpu, and still four are listed. -/
theorem Inventory.attributeValues_strayScene :
    let run := (FullRefresh.plan "p").run scenes Scene.now CatalogFile.strayScene
    let held := ((Store.empty ⟨9, 9⟩).replay run.steps).lookup 5
    ∃ served values, (Inventory.mk ["p"]).served held "p" "c" = .ok served ∧
      (Inventory.mk ["p"]).attributeValues held "p" "c" Attribute.cpu = .ok values ∧
      .ofNat 4 ∈ values ∧ ∀ d ∈ served, ¬(Binary64.ofNat 4).Alike d.product.cpus := by
  intro run held
  obtain ⟨hread, hlast⟩ : _ ∈ run.steps ∧ run.state.state.held = CatalogFile.strayCatalog :=
    CatalogFile.run_reads CatalogFile.read_strayBytes
  have hrun : Advances scenes Scene.now CatalogFile.Undisturbed (FullRefresh.plan "p")
      CatalogFile.strayScene run.steps (.done ()) run.state :=
    Plan.advances_run_unit (FullRefresh.plan "p") CatalogFile.strayScene
  have hlive : 5 - CatalogFile.strayScene.now < (Store.empty ⟨9, 9⟩).ttl.long := by decide
  obtain ⟨u, c, -, -, -, hc, hentries, -⟩ := CatalogFile.lookup_of_advances hrun hread hlive hlive
  rw [hlast] at hc
  subst hc
  have hpublishes : (Inventory.mk ["p"]).Publishes held "p" CatalogFile.strayCatalog :=
    publishes_of_entries List.mem_cons_self hentries
  have hservice : "c" ∈ CatalogFile.strayCatalog.services := List.mem_cons_self
  have hcpu : Attribute.cpu ∈ Attribute.all := List.mem_cons_self
  obtain ⟨values, hvalues, henumerates⟩ := hpublishes.attributeValues hservice hcpu
  have hfour : ¬(Binary64.ofNat 4).Alike (.ofNat 1) := by decide +kernel
  refine ⟨_, values, hpublishes.served hservice, hvalues, ?_, ?_⟩
  · have hall : CatalogFile.strayCatalog.products.values.flatten.map (Product.amountOf Attribute.cpu) =
        [.ofNat 1, .ofNat 4] := by decide +kernel
    rw [hall] at henumerates
    obtain ⟨x, hx, halike⟩ :=
      henumerates.complete (.ofNat 4) (List.mem_cons_of_mem _ List.mem_cons_self)
    rcases List.mem_cons.1 (henumerates.sound x hx) with heq | hmem
    · rw [heq] at halike
      exact absurd (Binary64.Alike.symm halike) hfour
    · rw [← List.mem_singleton.1 hmem]
      exact hx
  · have hall : (CatalogFile.strayCatalog.regions.values.flatMap (fun region ↦
        (CatalogFile.strayCatalog.productsIn region).map
          (fun p ↦ p.servedAmong (CatalogFile.strayCatalog.productsIn region)))).all
        (fun d ↦ d.product.cpus = .ofNat 1) = true := by decide +kernel
    intro d hd
    rw [of_decide_eq_true (List.all_eq_true.1 hall d hd)]
    exact hfour

end Cycle

end CloudOffers
