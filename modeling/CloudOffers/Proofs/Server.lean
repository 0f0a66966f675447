import CloudOffers.Proofs.Catalog.Cycle
import CloudOffers.Proofs.Inventory.Missing
import CloudOffers.Proofs.Refresh.Launch
import CloudOffers.Proofs.Refresh.Periodic
import CloudOffers.Proofs.Refresh.Rota
import CloudOffers.Proofs.Settings.Validation
import CloudOffers.Server
import Mathlib.Data.List.Nodup
/-!
What a server starts with. Legal settings leave one thing that may go wrong, a catalog that cannot be
opened. Who is refreshed and who may be asked about are then found in different ways, and are the same.
-/

namespace CloudOffers

section Ascending

variable {α : Type} {l : List (String × α)} {d : Dict String α}

theorem Dict.entries_ofList_perm (h : (l.map (·.1)).Nodup) : (ofList l).entries.Perm l := by
  have hentries : (ofList l).entries.Nodup := List.Nodup.of_map _ (nodup_keys _)
  refine (List.perm_ext_iff_of_nodup hentries (List.Nodup.of_map _ h)).2 fun e ↦
    ⟨mem_of_mem_entries_ofList, fun he ↦ ?_⟩
  -- some entry has the key of `e`, and the list has one entry for each key
  obtain ⟨e', he', hkey⟩ := List.mem_map.1 (mem_keys_ofList.2 (List.mem_map_of_mem he))
  have heq := List.inj_on_of_nodup_map h (mem_of_mem_entries_ofList he') he hkey
  rwa [heq] at he'

theorem Dict.mergeSort_of_perm (h : l.Perm d.entries) :
    l.mergeSort (fun a b ↦ decide (a.1 ≤ b.1)) = d.entries := by
  have hperm := (List.mergeSort_perm l (fun a b ↦ decide (a.1 ≤ b.1))).trans h
  have hsorted : (l.mergeSort (fun a b ↦ decide (a.1 ≤ b.1))).Pairwise (fun a b ↦ a.1 ≤ b.1) := by
    refine (List.pairwise_mergeSort (fun a b c hab hbc ↦ ?_) (fun a b ↦ ?_) l).imp of_decide_eq_true
    · exact decide_eq_true (String.le_trans (of_decide_eq_true hab) (of_decide_eq_true hbc))
    · simpa using String.le_total a.1 b.1
  have hascending : d.entries.Pairwise (fun a b ↦ a.1 ≤ b.1) :=
    d.ascending.imp fun hlt ↦ String.not_lt.1 (KeyOrder.asymm hlt)
  refine hperm.eq_of_pairwise (fun a b ha hb hab hba ↦ ?_) hsorted hascending
  have hkey : a.1 = b.1 := String.le_antisymm hab hba
  exact List.inj_on_of_nodup_map (nodup_keys d) (hperm.mem_iff.1 ha) hb hkey

/-- In whichever order the providers of a map are handed over, they are taken by name. -/
theorem Rota.ofProviders_of_perm {renewal : Nat} (hrenewal : renewal ≠ 0) (hd : d.entries ≠ [])
    (h : l.Perm d.entries) : ofProviders renewal l =
      .ok (⟨d.keys, d.entries.map (fun _ ↦ .free), []⟩, d.entries) := by
  have hsome : l.isEmpty = false := by
    cases l with
    | nil => exact absurd h.symm.eq_nil hd
    | cons => rfl
  rw [ofProviders, if_neg hrenewal, hsome, if_neg Bool.false_ne_true, Dict.mergeSort_of_perm h]
  rfl

end Ascending

theorem Inventory.ask_eq_unsupported_iff {inv : Inventory} {held : Lookup} {k : Key} :
    inv.ask held k = .error (.unsupportedProvider k.provider) ↔ k.provider ∉ inv.names := by
  rw [ask]
  split
  next hmem =>
    cases held k with
    | some v => simp [hmem]
    | none => simp [hmem]
  next hmem => simp [hmem]

namespace Server

variable {s : Settings} {files : Files} {names : List String}

/-- The catalog of a provider is one that can be opened. -/
def Opens (s : Settings) (files : Files) (provider : String) (f : CatalogFile) : Prop :=
  CatalogFile.openAt (s.catalogPath provider) (files (s.catalogPath provider)) = .ok f

theorem openCatalogs_eq_ok (h : ∀ p ∈ names, ∃ f, Opens s files p f) :
    ∃ l, openCatalogs s files names = .ok l ∧ l.map (·.1) = names ∧
      ∀ e ∈ l, Opens s files e.1 e.2 := by
  induction names with
  | nil => exact ⟨[], rfl, rfl, List.forall_mem_nil _⟩
  | cons p names ih =>
    obtain ⟨⟨f, hf⟩, hrest⟩ := List.forall_mem_cons.1 h
    obtain ⟨l, hl, hnames, hopens⟩ := ih hrest
    refine ⟨(p, f) :: l, ?_, ?_, List.forall_mem_cons.2 ⟨hf, hopens⟩⟩
    · have hfile : CatalogFile.openAt (s.catalogPath p) (files (s.catalogPath p)) = .ok f := hf
      simp only [openCatalogs, hfile, hl, Except.mapError, Json.ok_bind]
    · simp only [List.map_cons, hnames]

/-- A server that starts: the catalogs by provider, who is refreshed from which of them, and who may
be asked about. -/
structure Starts (s : Settings) (files : Files) (catalogs : Dict String CatalogFile)
    (server : Server) : Prop where
  opened : ∃ l, openCatalogs s files s.providers = .ok l ∧ Dict.ofList l = catalogs
  /-- One entry a name. -/
  keys : catalogs.keys.Perm s.providers
  entry : ∀ p f, catalogs.get? p = some f ↔ p ∈ s.providers ∧ Opens s files p f
  /-- The order in which the map hands its entries over does not matter. -/
  driver : ∀ l, l.Perm catalogs.entries →
    Rota.ofProviders s.renewal l = .ok (server.timeline.rota, catalogs.entries)
  loops : ∃ full prices store, Periodic.ofInterval s.renewal = .ok full ∧
    Periodic.ofInterval Settings.priceRefresh = .ok prices ∧
    server.timeline = Timeline.start server.timeline.rota full prices catalogs.values store
  /-- Both loops are about to tick for the first time. -/
  ticking : server.timeline.now = 0 ∧ server.timeline.cancelled = false ∧ server.timeline.asleep = [] ∧
    server.timeline.ready = [.loop .full ⟨s.renewalSecs * 1000000000, 0⟩, .loop .prices ⟨240 * 1000000000, 0⟩]
  inventory : Inventory.ofNames s.providers = .ok server.inventory
  names : server.timeline.rota.providers = server.inventory.names
  listed : ∀ held, (server.inventory.providers held).map (·.name) = server.timeline.rota.providers
  ascending : server.timeline.rota.providers.Pairwise (· < ·)
  configured : ∀ p, p ∈ server.timeline.rota.providers ↔ p ∈ s.providers
  /-- Every provider has one manager, -/
  managed : ∀ p ∈ s.providers, ∃! m : Nat, server.timeline.rota.providers[m]? = some p
  /-- which refreshes it from its catalog: the first ticks make its full cycle ready, and however long the
  server runs, the catalog was asked for its prices at once. -/
  scraped : ∀ (m : Nat) (p : String), server.timeline.rota.providers[m]? = some p →
    server.timeline.sources[m]? = catalogs.get? p ∧
      (∀ offers, m ∈ server.timeline.rota.starts offers .full) ∧
      ∀ w : Conditions CatalogFile,
        .piece m (do FullRefresh.plan p; return .ended .full) ∈ (Timeline.runReady w server.timeline).ready ∧
        ∀ span, ⟨0, m, .snapshot⟩ ∈ (server.timeline.advance w span).calls
  served : ∀ held k, server.inventory.ask held k = .error (.unsupportedProvider k.provider) ↔
    k.provider ∉ s.providers

/-- The server that the catalogs of some settings make. -/
def ofCatalogs (s : Settings) (catalogs : Dict String CatalogFile) (full prices : Periodic) :
    Server where
  settings := s
  inventory := ⟨CloudOffers.ascending s.providers⟩
  timeline := Timeline.start ⟨catalogs.keys, catalogs.entries.map (fun _ ↦ .free), []⟩ full prices
    catalogs.values (Store.empty ⟨s.longTtl, s.shortTtl⟩)
  registry := .empty

/-- What is opened for the names of some settings. -/
structure Opened (s : Settings) (files : Files) (l : List (String × CatalogFile)) : Prop where
  opened : openCatalogs s files s.providers = .ok l
  names : l.map (·.1) = s.providers
  opens : ∀ e ∈ l, Opens s files e.1 e.2

namespace Opened

variable {l : List (String × CatalogFile)}

theorem entries_perm (h : Opened s files l) (hs : s.Legal) : (Dict.ofList l).entries.Perm l :=
  Dict.entries_ofList_perm (h.names ▸ hs.distinct)

theorem keys_perm (h : Opened s files l) (hs : s.Legal) : (Dict.ofList l).keys.Perm s.providers := by
  have hkeys : (Dict.ofList l).keys.Perm (l.map (·.1)) := (h.entries_perm hs).map Prod.fst
  rwa [h.names] at hkeys

theorem keys_eq (h : Opened s files l) (hs : s.Legal) :
    (Dict.ofList l).keys = CloudOffers.ascending s.providers :=
  eq_of_ascending_texts (List.pairwise_map.2 (Dict.ofList l).ascending) (ascending_pairwise _) fun _ ↦
    (h.keys_perm hs).mem_iff.trans mem_ascending.symm

theorem entries_ne_nil (h : Opened s files l) (hs : s.Legal) : (Dict.ofList l).entries ≠ [] := by
  intro hnone
  have hkeys : (Dict.ofList l).keys = [] := congrArg (List.map Prod.fst) hnone
  have hperm := h.keys_perm hs
  rw [hkeys] at hperm
  exact hs.some hperm.nil_eq.symm

theorem get?_eq_some_iff (h : Opened s files l) (hs : s.Legal) {p : String} {f : CatalogFile} :
    (Dict.ofList l).get? p = some f ↔ p ∈ s.providers ∧ Opens s files p f := by
  rw [← Dict.mem_entries_iff, (h.entries_perm hs).mem_iff, ← h.names, List.mem_map]
  constructor
  · intro hmem
    exact ⟨⟨(p, f), hmem, rfl⟩, h.opens (p, f) hmem⟩
  · intro hmem
    obtain ⟨⟨⟨p', f'⟩, hmem, hp⟩, hf⟩ := hmem
    obtain rfl : p' = p := hp
    have heq : Except.ok f' = .ok f := (h.opens (p', f') hmem).symm.trans hf
    obtain rfl : f' = f := Except.ok.inj heq
    exact hmem

end Opened

theorem mem_starts_of_entry {catalogs : Dict String CatalogFile} {full prices : Periodic} {m : Nat}
    {e : String × CatalogFile} (he : catalogs.entries[m]? = some e) (offers : Nat → Bool) :
    m ∈ (ofCatalogs s catalogs full prices).timeline.rota.starts offers .full := by
  have hlt : m < catalogs.entries.length := (List.getElem?_eq_some_iff.1 he).1
  have hfree : (ofCatalogs s catalogs full prices).timeline.rota.holds m .full = false := by
    change Option.any _ (catalogs.entries.map _)[m]? = false
    rw [List.getElem?_map, he, Option.map_some, Option.any_some, Guard.isHeld_free]
  refine Rota.mem_starts_iff.2 ⟨hlt.trans_eq (List.length_map _).symm, hfree, ?_⟩
  intro hprices
  cases hprices

/-- The manager of a provider refreshes it from its catalog, and begins at once. -/
theorem scraped_of_entry {catalogs : Dict String CatalogFile} {full prices : Periodic} {m : Nat}
    {e : String × CatalogFile} (he : catalogs.entries[m]? = some e) :
    (ofCatalogs s catalogs full prices).timeline.sources[m]? = catalogs.get? e.1 ∧
      (∀ offers, m ∈ (ofCatalogs s catalogs full prices).timeline.rota.starts offers .full) ∧
      ∀ w : Conditions CatalogFile,
        .piece m (do FullRefresh.plan e.1; return .ended .full) ∈
            (Timeline.runReady w (ofCatalogs s catalogs full prices).timeline).ready ∧
          ∀ span, ⟨0, m, .snapshot⟩ ∈ ((ofCatalogs s catalogs full prices).timeline.advance w span).calls := by
  have hsource : catalogs.values[m]? = some e.2 := by
    rw [Dict.values, List.getElem?_map, he, Option.map_some]
  have hname : catalogs.keys.getD m "" = e.1 := by
    rw [List.getD_eq_getElem?_getD, Dict.keys, List.getElem?_map, he]
    rfl
  have hstarts (offers : Nat → Bool) : m ∈ (ofCatalogs s catalogs full prices).timeline.rota.starts offers .full :=
    mem_starts_of_entry he offers
  refine ⟨hsource.trans (Dict.mem_entries_iff.1 (List.mem_of_getElem? he)).symm, hstarts, fun w ↦ ⟨?_, fun span ↦ ?_⟩⟩
  · rw [← hname]
    exact Timeline.mem_ready_start hstarts w
  · exact Timeline.mem_calls_start hstarts (List.getElem?_eq_some_iff.1 hsource).1 w _ _

theorem Opened.starts {l : List (String × CatalogFile)} {full prices : Periodic}
    (h : Opened s files l) (hs : s.Legal) (hfull : Periodic.ofInterval s.renewal = .ok full)
    (hprices : Periodic.ofInterval Settings.priceRefresh = .ok prices) :
    Starts s files (Dict.ofList l) (ofCatalogs s (Dict.ofList l) full prices) where
  opened := ⟨l, h.opened, rfl⟩
  keys := h.keys_perm hs
  entry p f := h.get?_eq_some_iff hs
  driver l' hl' :=
    Rota.ofProviders_of_perm (Nat.ne_of_gt hs.renewal_pos) (h.entries_ne_nil hs) hl'
  loops := ⟨full, prices, _, hfull, hprices, rfl⟩
  ticking := by
    refine ⟨rfl, rfl, rfl, ?_⟩
    change [Timeline.Task.loop .full ⟨full.interval, 0⟩, .loop .prices ⟨prices.interval, 0⟩] = _
    rw [Periodic.interval_of_ofInterval hfull, Periodic.interval_of_ofInterval hprices]
    rfl
  inventory := by
    rw [Inventory.ofNames, List.isEmpty_eq_false_iff.2 hs.some]
    rfl
  names := h.keys_eq hs
  listed held := by
    rw [Inventory.providers_eq, List.map_map]
    exact (List.map_id _).trans (h.keys_eq hs).symm
  ascending := List.pairwise_map.2 (Dict.ofList l).ascending
  configured p := (h.keys_perm hs).mem_iff
  managed := by
    intro p hp
    obtain ⟨m, hm⟩ := List.mem_iff_getElem?.1 ((h.keys_perm hs).mem_iff.2 hp)
    have hlt := (List.getElem?_eq_some_iff.1 hm).1
    refine ⟨m, hm, fun m' hm' ↦ ?_⟩
    exact ((List.getElem?_inj hlt (Dict.nodup_keys (Dict.ofList l))).1 (hm.trans hm'.symm)).symm
  scraped := by
    intro m p hm
    obtain ⟨e, he, rfl⟩ := Option.map_eq_some_iff.1 ((List.getElem?_map ..).symm.trans hm)
    exact scraped_of_entry he
  served held k := by
    rw [Inventory.ask_eq_unsupported_iff]
    exact not_congr mem_ascending

theorem ofSettings_eq_ofCatalogs {l : List (String × CatalogFile)} {catalogs : Dict String CatalogFile}
    {full prices : Periodic} (hl : openCatalogs s files s.providers = .ok l)
    (h : Starts s files catalogs (ofCatalogs s catalogs full prices)) (hcatalogs : Dict.ofList l = catalogs)
    (hfull : Periodic.ofInterval s.renewal = .ok full)
    (hprices : Periodic.ofInterval Settings.priceRefresh = .ok prices) :
    ofSettings s files = .ok (ofCatalogs s catalogs full prices) := by
  subst hcatalogs
  rw [ofSettings, hl, Json.ok_bind, h.driver _ (List.Perm.refl _), hfull, hprices, h.inventory]
  rfl

/-- Legal settings whose catalogs can all be opened start: nothing else is wrong with the settings. The
managers of the refreshes and the providers that may be asked about are those that are configured, by
name, each of them once. -/
theorem starts_of_validate
    (hs : s.validate = .ok () ∨ ∃ vars texts, Settings.load vars texts = .ok s)
    (hfiles : ∀ p ∈ s.providers, ∃ f, Opens s files p f) :
    ∃ catalogs server, ofSettings s files = .ok server ∧ Starts s files catalogs server ∧
      ∀ vars texts, Settings.load vars texts = .ok s → start vars texts files = .ok server := by
  have hlegal : s.Legal := by
    obtain hvalid | ⟨vars, texts, hload⟩ := hs
    · exact Settings.validate_eq_ok_iff.1 hvalid
    · exact Settings.validate_eq_ok_iff.1 (Settings.validate_of_load hload)
  obtain ⟨l, hl, hnames, hopens⟩ := openCatalogs_eq_ok hfiles
  have hopened : Opened s files l := ⟨hl, hnames, hopens⟩
  have hfull := Periodic.ofInterval_eq_ok hlegal.renewal_pos
  have htick : 0 < Settings.priceRefresh := by decide
  have hprices := Periodic.ofInterval_eq_ok htick
  have hstarts := hopened.starts hlegal hfull hprices
  have hserver := ofSettings_eq_ofCatalogs hl hstarts rfl hfull hprices
  refine ⟨_, _, hserver, hstarts, fun vars texts hload ↦ ?_⟩
  simp only [start, hload, Except.mapError, Json.ok_bind, hserver]

/-- The defaults with two providers, which both have the sample as their catalog. -/
theorem starts_of_validate_sampleBytes :
    let s : Settings := { Settings.default with providers := ["b", "a"] }
    let files : Files := fun _ ↦ .ok CatalogFile.sampleBytes
    s.validate = .ok () ∧ (∀ p ∈ s.providers, ∃ f, Opens s files p f) ∧
      ∃ catalogs server, ofSettings s files = .ok server ∧ Starts s files catalogs server := by
  intro s files
  have hvalid : s.validate = .ok () := by decide
  have hfiles : ∀ p ∈ s.providers, ∃ f, Opens s files p f := by
    intro p _
    refine ⟨⟨s.catalogPath p, .ok CatalogFile.sampleBytes, CatalogFile.sampleCatalog⟩, ?_⟩
    change CatalogFile.openAt _ (.ok CatalogFile.sampleBytes) = _
    rw [CatalogFile.openAt, CatalogFile.read_sampleBytes, Json.ok_bind]
  obtain ⟨catalogs, server, hserver, hstarts, -⟩ := starts_of_validate (.inl hvalid) hfiles
  exact ⟨hvalid, hfiles, catalogs, server, hserver, hstarts⟩

end Server

end CloudOffers
