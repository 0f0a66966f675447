import CloudOffers.Proofs.Catalog.Dialogue
import CloudOffers.Proofs.Refresh.Scene
/-!
Full cycles of a catalog file that is edited all the while, with price cycles beside them. Nothing but
the snapshot at the beginning changes the catalog that is held, so a full cycle sees one catalog.
-/

namespace CloudOffers.CatalogFile

open Plan (Step inquiries writes reports Advances)
open Relation (ReflTransGen)

/-- Something else is in the file, or nothing that can be read. -/
def Edited (f f' : CatalogFile) : Prop := ∃ content, f' = { f with content := content }

theorem answer_snd {r : Request} (h : r ≠ .snapshot) (f : CatalogFile) : (answer r f).2 = f := by
  cases r with
  | snapshot => exact absurd rfl h
  | _ => rfl

abbrev scenes : Source (Scene CatalogFile) := Scene.source source

/-- What happens beside a full cycle while something holds, if it leaves the catalog that is held. -/
structure Keeps (beside : Scene CatalogFile → Scene CatalogFile → Prop) (P : Scene CatalogFile → Prop) :
    Prop where
  changes : ∀ s t, P s → beside s t → P t ∧ t.state.held = s.state.held
  answers : ∀ s x, P s → P { s with state := x }

section Dialogue

variable {beside : Scene CatalogFile → Scene CatalogFile → Prop} {P : Scene CatalogFile → Prop}
  {c : Catalog} {s t : Scene CatalogFile} {asked : List Step}

theorem Keeps.star (hk : Keeps beside P) (hs : P s) (h : ReflTransGen beside s t) :
    P t ∧ t.state.held = s.state.held := by
  induction h with
  | refl => exact ⟨hs, rfl⟩
  | tail _ h ih =>
    obtain ⟨ht, hheld⟩ := hk.changes _ _ ih.1 h
    exact ⟨ht, hheld.trans ih.2⟩

theorem Keeps.agrees (hk : Keeps beside P) {r : Request} (hr : r ≠ .snapshot)
    (hs : P s ∧ s.state.held = c) :
    c.Agrees (.asked r (scenes.answer r s).1) ∧
      P (scenes.answer r s).2 ∧ (scenes.answer r s).2.state.held = c := by
  refine ⟨fun h ↦ ?_, hk.answers s _ hs.1, ?_⟩
  · rw [← hs.2] at h ⊢
    exact congrArg Prod.fst (Catalog.answer_of_accepts h)
  · exact (congrArg CatalogFile.held (answer_snd hr s.state)).trans hs.2

/-- The snapshot settles which catalog is held, and that answers whatever else is asked. -/
theorem Keeps.dialogue (hk : Keeps beside P) (hs : P s) (h : scenes.Dialogue beside s asked t)
    (ha : FullRefresh.Inquires asked) :
    ∃ u c, ReflTransGen beside s u ∧ u.state.held = s.state.held ∧
      (answer .snapshot u.state).2.held = c ∧ t.state.held = c ∧
      asked = .asked .snapshot (answer .snapshot u.state).1 :: c.dialogue c.agenda := by
  obtain ⟨snapshot, rest, rfl, hrest⟩ := ha.snapshot
  obtain ⟨u, hu, hreply, hdialogue⟩ := h.of_asked
  obtain ⟨hpu, hheld⟩ := hk.star hs hu
  let c := (answer .snapshot u.state).2.held
  -- from here on `c` is held: what is left to ask is no snapshot
  have hafter : P (scenes.answer .snapshot u).2 ∧ (scenes.answer .snapshot u).2.state.held = c :=
    ⟨hk.answers u _ hpu, rfl⟩
  have hbeside (s t : Scene CatalogFile) (hs : P s ∧ s.state.held = c) (hb : beside s t) :
      P t ∧ t.state.held = c := (hk.changes s t hs.1 hb).imp id (·.trans hs.2)
  obtain ⟨hagrees, ht⟩ := hdialogue.invariant hafter hbeside
    (fun r s hr hp ↦ hk.agrees (Request.ne_snapshot hr) hp) (fun s hp ↦ by rw [← hp.2]; rfl) hrest
  refine ⟨u, c, hu, hheld, rfl, ht.2, ?_⟩
  rw [hreply] at ha ⊢
  rw [Catalog.eq_of_inquires c ha hagrees]
  rfl

/-- A full cycle writes what the snapshot and the catalog that it settled call for, and the status. -/
theorem Keeps.writes {provider : String} {steps : List Step} (hk : Keeps beside P) (hs : P s)
    (hbeside : ∀ s t, beside s t → s.now ≤ t.now)
    (h : Advances scenes Scene.now beside (FullRefresh.plan provider) s steps (.done ()) t) :
    ∃ u c, ReflTransGen beside s u ∧ (answer .snapshot u.state).2.held = c ∧ t.state.held = c ∧
      inquiries steps = .asked .snapshot (answer .snapshot u.state).1 :: c.dialogue c.agenda ∧
      ∃ l time later, writes steps = l ++ [⟨later, .status provider, toString (time / 1000000)⟩] ∧
        l.map Write.publication =
          (Step.asked .snapshot (answer .snapshot u.state).1).publications provider ++
            c.publications provider ∧
        s.now ≤ time ∧ time ≤ t.now ∧ ∀ w ∈ writes steps, s.now ≤ w.time ∧ w.time ≤ t.now := by
  obtain ⟨asked, l, time, later, hin, hasked, hwrites, hpublications, htimes⟩ :=
    FullRefresh.plan_advances provider hbeside (fun _ _ ↦ rfl) h
  obtain ⟨u, c, hu, -, hc, hheld, rfl⟩ := hk.dialogue hs (hasked ▸ h.dialogue) hin
  exact ⟨u, c, hu, hc, hheld, hasked, l, time, later, hwrites, hpublications, htimes⟩

end Dialogue

abbrev Changes (provider : String) : Scene CatalogFile → Scene CatalogFile → Prop :=
  Scene.Changes source Edited provider

variable {provider : String} {c : Catalog} {s t u : Scene CatalogFile}

/-- While a full cycle goes on, neither the file nor the cycles beside it change what is held. -/
theorem keeps_changes (provider : String) : Keeps (Changes provider) Scene.Busy where
  changes s t hs h := by
    obtain ⟨ht, hstate⟩ := hs.changes h
    refine ⟨ht, ?_⟩
    rcases hstate with heq | ⟨content, heq⟩ | ⟨r, hr, heq⟩
    · rw [heq]
    · rw [heq]
    · rw [heq]
      exact congrArg CatalogFile.held (answer_snd hr s.state)
  answers s x hs := ⟨hs.full, hs.light⟩

theorem failure_not_mem_accounts {reply : Request.snapshot.Reply} (p service region : String) :
    .failure p service region ∉
      (.asked .snapshot reply :: c.dialogue c.agenda).flatMap (Step.accounts provider) := by
  intro h
  obtain ⟨x, hx, he⟩ := List.mem_flatMap.1 h
  rcases List.mem_cons.1 hx with rfl | hx
  · cases reply with
    | ok prices => exact Request.failure_not_mem_accounts provider .snapshot prices _ _ _ he
    | error e => cases he
  · cases x with
    | asked r reply =>
      obtain ⟨-, rfl⟩ := c.answered_of_mem hx
      exact Request.failure_not_mem_accounts provider r (c.answer r) _ _ _ he
    | askedImages offered => cases he
    | acted time a => cases he

theorem sound_of_reachable {f : CatalogFile} {now : Nat}
    (hs : ReflTransGen (Changes provider) ⟨f, now, .free, []⟩ s) : s.Sound := by
  induction hs with
  | refl => exact ⟨nofun, Nat.zero_le _⟩
  | tail _ h ih => exact ih.changes h

/-- A full cycle from some scene to another that asked for the snapshot in the scene `u`, and from
then on saw the catalog `c` and nothing else. -/
structure Saw (provider : String) (c : Catalog) (start u t : Scene CatalogFile) (steps : List Step) :
    Prop where
  found : ∀ found, read u.state.content = .ok found → c = found
  kept : ∀ e, read u.state.content = .error e → c = start.state.held
  held : t.state.held = c
  asked : inquiries steps = .asked .snapshot (answer .snapshot u.state).1 :: c.dialogue c.agenda
  answered : ∀ r reply, .asked r reply ∈ c.dialogue c.agenda →
    reply = (answer r t.state).1 ∧ reply = .ok (c.answer r)
  unfailing : ∀ p service region, .failure p service region ∉ reports steps
  published : ∃ text, (writes steps).map Write.publication =
    (Step.asked .snapshot (answer .snapshot u.state).1).publications provider ++
      c.publications provider ++ [⟨.status provider, text⟩]
  /-- What is written for each service and region, besides the zones. -/
  listed : ∀ service ∈ c.services, ∀ region ∈ c.regions.entries.map (·.2),
    ⟨.products provider service region, (c.products.get? region).getD []⟩ ∈
      (writes steps).map Write.publication ∧
    (c.images.entries ≠ [] → ⟨.images provider service region, (c.images.get? region).getD []⟩ ∈
      (writes steps).map Write.publication) ∧
    ⟨.versions provider service region, (c.versions.get? region).getD []⟩ ∈
      (writes steps).map Write.publication
  unpriced : ∀ e, read u.state.content = .error e → ∀ w ∈ writes steps, w.key.category ≠ .prices

/-- Where the entries of a catalog are, besides the prices, there is what it lists for each service and region. -/
theorem listed_of_entries {l : List Publication}
    (h : ∀ k, c.Lists provider k → k.category ≠ .prices → ⟨k, c.entry k⟩ ∈ l) :
    ∀ service ∈ c.services, ∀ region ∈ c.regions.entries.map (·.2),
      ⟨.products provider service region, (c.products.get? region).getD []⟩ ∈ l ∧
      (c.images.entries ≠ [] → ⟨.images provider service region, (c.images.get? region).getD []⟩ ∈ l) ∧
      ⟨.versions provider service region, (c.versions.get? region).getD []⟩ ∈ l := by
  intro service hservice region hregion
  have hproducts : Category.products ≠ .prices := by decide
  have himages : Category.images ≠ .prices := by decide
  have hversions : Category.versions ≠ .prices := by decide
  refine ⟨h (.products ..) ⟨rfl, hservice, hregion⟩ hproducts, fun hany ↦ ?_,
    h (.versions ..) ⟨rfl, hservice, hregion⟩ hversions⟩
  exact h (.images ..) ⟨rfl, List.isEmpty_eq_false_iff.2 hany, hservice, hregion⟩ himages

theorem saw_of_advances {steps : List Step} (hs : s.Busy)
    (h : Advances scenes Scene.now (Changes provider) (FullRefresh.plan provider) s steps
      (.done ()) t) :
    ∃ u c, ReflTransGen (Changes provider) s u ∧ Saw provider c s u t steps := by
  obtain ⟨text, hcompleted⟩ := FullRefresh.completed_of_advances h
  obtain ⟨u, c, hu, hheld, hc, ht, hasked⟩ :=
    (keeps_changes provider).dialogue hs h.dialogue hcompleted.inquires
  have hpublications := hcompleted.published
  have hreports := hcompleted.reported
  rw [hasked, List.flatMap_cons] at hpublications
  rw [hasked] at hreports
  refine ⟨u, c, hu, ?_, ?_, ht, hasked, ?_, ?_, ⟨text, hpublications⟩, ?_, ?_⟩
  · intro found hread
    simp only [answer, hread] at hc
    exact hc.symm
  · intro e hread
    simp only [answer, hread] at hc
    exact hc.symm.trans hheld
  · intro r reply hmem
    obtain ⟨haccepts, rfl⟩ := c.answered_of_mem hmem
    rw [← ht] at haccepts ⊢
    exact ⟨(congrArg Prod.fst (Catalog.answer_of_accepts haccepts)).symm, rfl⟩
  · intro p service region hmem
    have hmem := List.mem_map_of_mem (f := Metrics.Event.untimed) hmem
    rw [hreports] at hmem
    rcases List.mem_append.1 hmem with hmem | hmem
    · exact failure_not_mem_accounts p service region hmem
    · cases List.mem_singleton.1 hmem
  · refine listed_of_entries fun k hk hcategory ↦ ?_
    have hmem : ⟨k, c.entry k⟩ ∈ c.publications provider := (c.mem_publications_iff provider).2 ⟨hk, hcategory, rfl⟩
    rw [hpublications]
    exact List.mem_append_left _ (List.mem_append_right _ hmem)
  · intro e hread w hw hprices
    have hstatus : w.key.category ≠ .status := by
      rw [hprices]
      decide
    have hmem := (hcompleted.mem_published_iff hstatus).1 (List.mem_map_of_mem hw)
    rw [hasked, List.flatMap_cons] at hmem
    rcases List.mem_append.1 hmem with hmem | hmem
    · simp only [answer, hread] at hmem
      cases hmem
    · exact ((c.mem_publications_iff provider).1 hmem).2.1 hprices

/-- A full cycle of a catalog file sees one catalog, whatever becomes of the file meanwhile and
whichever cycles go on beside it: the one read for the snapshot, or the one held before if that cannot
be read, which then stays. It never gets stuck, and once the snapshot is asked for nothing fails. -/
theorem full_cycle_saw {f : CatalogFile} {now : Nat} {g : Guard}
    (hs : ReflTransGen (Changes provider) ⟨f, now, .free, []⟩ s)
    (hclaim : s.guard.claim? .full = some g) :
    (∀ steps p t, Advances scenes Scene.now (Changes provider) (FullRefresh.plan provider)
        { s with guard := g } steps p t →
      ∃ rest u, Advances scenes Scene.now (Changes provider) (FullRefresh.plan provider)
        { s with guard := g } (steps ++ rest) (.done ()) u) ∧
    ∀ steps t, Advances scenes Scene.now (Changes provider) (FullRefresh.plan provider)
        { s with guard := g } steps (.done ()) t →
      ∃ u c, ReflTransGen (Changes provider) { s with guard := g } u ∧
        Saw provider c { s with guard := g } u t steps :=
  ⟨fun _ p t h ↦ ⟨_, _, h.trans (Plan.advances_run_unit p t)⟩,
    fun _ _ h ↦ saw_of_advances ((sound_of_reachable hs).busy hclaim) h⟩

/-- `{"services":["c"],"regions":{"E":"e"},"products":{"e":[{"type":"t","cpusPerVm":1,"memPerVm":2}]}}` -/
def sampleBytes : Json.Bytes :=
  [123, 34, 115, 101, 114, 118, 105, 99, 101, 115, 34, 58, 91, 34, 99, 34, 93, 44, 34, 114, 101, 103,
    105, 111, 110, 115, 34, 58, 123, 34, 69, 34, 58, 34, 101, 34, 125, 44, 34, 112, 114, 111, 100, 117,
    99, 116, 115, 34, 58, 123, 34, 101, 34, 58, 91, 123, 34, 116, 121, 112, 101, 34, 58, 34, 116, 34,
    44, 34, 99, 112, 117, 115, 80, 101, 114, 86, 109, 34, 58, 49, 44, 34, 109, 101, 109, 80, 101, 114,
    86, 109, 34, 58, 50, 125, 93, 125, 125]

def sampleProduct : Product :=
  ⟨"t", .zero, .empty, .ofNat 1, .ofNat 2, .zero, "", "", [], .empty, false⟩

def sampleCatalog : Catalog :=
  ⟨["c"], Dict.ofList [("E", "e")], Dict.ofList [("e", [sampleProduct])], .empty, .empty, false⟩

theorem read_of_toOption {content : Except SourceError Json.Bytes} {c : Catalog}
    (h : (read content).toOption = some c) : read content = .ok c := by
  cases hread : read content with
  | ok c' =>
    rw [hread] at h
    exact congrArg Except.ok (Option.some_inj.1 h)
  | error e =>
    rw [hread] at h
    cases h

theorem read_sampleBytes : read (.ok sampleBytes) = .ok sampleCatalog :=
  read_of_toOption (by decide +kernel)

def sampleScene : Scene CatalogFile := ⟨⟨"catalog.json", .ok sampleBytes, sampleCatalog⟩, 0, .free, []⟩

def deletedScene : Scene CatalogFile :=
  ⟨⟨"catalog.json", .error .noSuchFile, sampleCatalog⟩, 0, .free, []⟩

/-- A file that is opened, and deleted before a full cycle starts. -/
theorem full_cycle_saw_deletedScene :
    openAt "catalog.json" (.ok sampleBytes) = .ok sampleScene.state ∧
      ReflTransGen (Changes "p") sampleScene deletedScene ∧
      deletedScene.guard.claim? .full = some ⟨true, false⟩ ∧
      ∃ steps t u c, Advances scenes Scene.now (Changes "p") (FullRefresh.plan "p")
          { deletedScene with guard := ⟨true, false⟩ } steps (.done ()) t ∧
        Saw "p" c { deletedScene with guard := ⟨true, false⟩ } u t steps := by
  have hopen : openAt "catalog.json" (.ok sampleBytes) = .ok sampleScene.state := by
    rw [openAt, read_sampleBytes]
    rfl
  have hs : ReflTransGen (Changes "p") sampleScene deletedScene :=
    .single (.outside ⟨.error .noSuchFile, rfl⟩)
  have hclaim : deletedScene.guard.claim? .full = some ⟨true, false⟩ := rfl
  let start : Scene CatalogFile := { deletedScene with guard := ⟨true, false⟩ }
  let run := (FullRefresh.plan "p").run scenes Scene.now start
  have hrun : Advances scenes Scene.now (Changes "p") (FullRefresh.plan "p") start run.steps (.done ())
    run.state := Plan.advances_run_unit (FullRefresh.plan "p") start
  obtain ⟨u, c, -, hsaw⟩ := (full_cycle_saw hs hclaim).2 _ _ hrun
  exact ⟨hopen, hs, hclaim, _, _, u, c, hrun, hsaw⟩

end CloudOffers.CatalogFile
