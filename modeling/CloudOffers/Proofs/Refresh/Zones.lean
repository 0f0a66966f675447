import CloudOffers.Proofs.Dict
import CloudOffers.Proofs.Refresh.FullCycle
import CloudOffers.Source.Script
/-!
The zones of a region after a full refresh. Services are visited one after the other, and each visit
that names zones replaces what an earlier one left: the last of them decides.
-/

namespace CloudOffers

open Plan (Step inquiries writes)

/-- The products that are listed for a region. -/
def Plan.Step.listing? (region : String) : Step → Option (List Product)
  | .asked (.products _ r) (.ok l) => if r = region then some l else none
  | _ => none

theorem Plan.Step.listing?_eq_some_iff {x : Step} {region : String} {l : List Product} :
    x.listing? region = some l ↔ ∃ service, x = .asked (.products service region) (.ok l) := by
  constructor
  · intro h
    unfold listing? at h
    split at h
    · next service r l' =>
      split at h
      · next hr =>
        cases hr
        cases h
        exact ⟨service, rfl⟩
      · cases h
    · cases h
  · rintro ⟨service, rfl⟩
    exact if_pos rfl

namespace FullRefresh

/-- What services list for a region in some inquiries, one list for each visit. -/
def listings (region : String) (asked : List Step) : List (List Product) :=
  asked.filterMap (Step.listing? region)

def namesZones (l : List Product) : Bool := !(zonesOf l).isEmpty

variable {provider region : String} {l : List Product}

theorem mem_zonesOf_iff {z : String} : z ∈ zonesOf l ↔ ∃ p ∈ l, z ∈ p.zones := by
  rw [zonesOf, mem_ascending, List.mem_flatMap]

theorem namesZones_iff_flatMap : namesZones l = true ↔ l.flatMap (·.zones) ≠ [] := by
  rw [namesZones, Bool.not_eq_true', ← Bool.not_eq_true, isEmpty_zonesOf]

theorem namesZones_iff : namesZones l = true ↔ ∃ p ∈ l, p.zones ≠ [] := by
  simp [namesZones_iff_flatMap, List.flatMap_eq_nil_iff]

/-- The zones that some inquiries leave for a region: those of the last visit that names any. -/
def zonesLeft (asked : List Step) : (k : Key) → Option k.Payload
  | .zones _ region => ((listings region asked).reverse.find? namesZones).map zonesOf
  | _ => none

theorem zonesLeft_cons (x : Step) (asked : List Step) (k : Key) :
    zonesLeft (x :: asked) k = (zonesLeft asked k).or (zonesLeft [x] k) := by
  cases k with
  | zones p region =>
    change ((listings region ([x] ++ asked)).reverse.find? namesZones).map zonesOf =
      Option.or (((listings region asked).reverse.find? namesZones).map zonesOf)
        (((listings region [x]).reverse.find? namesZones).map zonesOf)
    rw [← Option.map_or, ← List.find?_append, ← List.reverse_append]
    simp only [listings, List.filterMap_append]
  | _ => rfl

theorem zonesLeft_singleton_eq_some_iff {x : Step} {v : (Key.zones provider region).Payload} :
    zonesLeft [x] (.zones provider region) = some v ↔
      ∃ l, x.listing? region = some l ∧ namesZones l = true ∧ zonesOf l = v := by
  change ((([x].filterMap (Step.listing? region)).reverse.find? namesZones).map zonesOf) = some v ↔ _
  rw [List.filterMap_cons]
  cases x.listing? region with
  | none => exact ⟨nofun, nofun⟩
  | some l =>
    change ([l].find? namesZones).map zonesOf = some v ↔ _
    rw [List.find?_singleton]
    cases hz : namesZones l with
    | true =>
      constructor
      · intro h
        exact ⟨l, rfl, hz, Option.some_inj.1 h⟩
      · rintro ⟨_, hl, -, rfl⟩
        cases hl
        rfl
    | false =>
      constructor
      · nofun
      · rintro ⟨_, hl, hnames, -⟩
        cases hl
        rw [hz] at hnames
        cases hnames

theorem mem_publications_zones_iff {x : Step} {v : (Key.zones provider region).Payload} :
    ⟨.zones provider region, v⟩ ∈ x.publications provider ↔
      ∃ l, x.listing? region = some l ∧ namesZones l = true ∧ zonesOf l = v := by
  constructor
  · intro h
    cases x with
    | asked r reply =>
      cases reply with
      | error e => cases h
      | ok a =>
        cases r with
        | snapshot =>
          obtain ⟨_, _, _, _, -, -, heq⟩ := (Request.mem_snapshot_publications_iff provider).1 h
          cases heq
        | currentPrices region =>
          obtain ⟨_, -, heq⟩ := List.mem_map.1 h
          cases heq
        | products service r =>
          rcases List.mem_append.1 h with h | h
          · split at h
            · cases h
            · next hz =>
              cases List.mem_singleton.1 h
              exact ⟨a, if_pos rfl, namesZones_iff_flatMap.2 hz, zonesOf_eq_inOrder a⟩
          · cases List.mem_singleton.1 h
        | _ => cases List.mem_singleton.1 h
    | askedImages offered => cases h
    | acted time a => cases h
  · rintro ⟨l, hl, hz, rfl⟩
    obtain ⟨service, rfl⟩ := Step.listing?_eq_some_iff.1 hl
    apply List.mem_append_left
    rw [if_neg (namesZones_iff_flatMap.1 hz), zonesOf_eq_inOrder]
    exact List.mem_cons_self

theorem map_latest_zones {asked : List Step} {ws : List Write}
    (h : ws.map Write.publication = asked.flatMap (Step.publications provider)) :
    (Write.latest (.zones provider region) ws).map Entry.value =
      zonesLeft asked (.zones provider region) := by
  induction asked generalizing ws with
  | nil =>
    rw [List.map_eq_nil_iff.1 h]
    rfl
  | cons x asked ih =>
    rw [List.flatMap_cons] at h
    obtain ⟨first, rest, rfl, hfirst, hrest⟩ := List.map_eq_append_iff.1 h
    have hx : (Write.latest (.zones provider region) first).map Entry.value =
        zonesLeft [x] (.zones provider region) := by
      apply Write.map_latest
      intro v
      rw [hfirst, mem_publications_zones_iff, zonesLeft_singleton_eq_some_iff]
    rw [Write.latest_append, Option.map_or, ih hrest, hx, ← zonesLeft_cons]

section Cycle

variable {σ : Type} {src : Source σ} {time : σ → Nat} {beside : σ → σ → Prop} {s t : σ}
  {steps : List Step}

theorem map_latest_zones_of_advances
    (h : Plan.Advances src time beside (plan provider) s steps (.done ()) t) :
    (Write.latest (.zones provider region) (writes steps)).map Entry.value =
      zonesLeft (inquiries steps) (.zones provider region) := by
  obtain ⟨text, hcompleted⟩ := completed_of_advances h
  obtain ⟨first, last, hwrites, hfirst, hlast⟩ := List.map_eq_append_iff.1 hcompleted.published
  have hnone : Write.latest (.zones provider region) last = none := by
    apply Write.latest_eq_none_iff.2
    intro w hw hkey
    have hmem := List.mem_map_of_mem (f := Write.publication) hw
    rw [hlast] at hmem
    have hstatus : w.key = .status provider := congrArg Sigma.fst (List.mem_singleton.1 hmem)
    rw [hkey] at hstatus
    cases hstatus
  rw [hwrites, Write.latest_append, hnone, Option.none_or, map_latest_zones hfirst]

/-- The zones that are cached for a region after a full cycle are those of the last visit that named
any, whatever the visits before it named. They are the zones of all visits just in case nobody named a
zone that the last one leaves out. -/
theorem zones_eq_union_iff
    (h : Plan.Advances src time beside (plan provider) s steps (.done ()) t)
    (hzone : ∃ l ∈ listings region (inquiries steps), ∃ p ∈ l, p.zones ≠ []) (store : Store) :
    let all := listings region (inquiries steps)
    ∃ (before : List (List Product)) (last : List Product) (after : List (List Product))
      (zones : List String) (written : Nat), all = before ++ last :: after ∧
      (∀ l ∈ after, ∀ p ∈ l, p.zones = []) ∧
      (store.replay steps).kept? (.zones provider region) = some ⟨zones, written⟩ ∧
      zones.Pairwise (· < ·) ∧ zones ≠ [] ∧ (∀ z, z ∈ zones ↔ ∃ p ∈ last, z ∈ p.zones) ∧
      ((∀ z, z ∈ zones ↔ ∃ l ∈ all, ∃ p ∈ l, z ∈ p.zones) ↔
        ∀ l ∈ before, ∀ p ∈ l, ∀ z ∈ p.zones, ∃ q ∈ last, z ∈ q.zones) := by
  intro all
  obtain ⟨l, hl, hzones⟩ := hzone
  have hfound : (all.reverse.find? namesZones).isSome :=
    List.find?_isSome.2 ⟨l, List.mem_reverse.2 hl, namesZones_iff.2 hzones⟩
  obtain ⟨last, hlast⟩ := Option.isSome_iff_exists.1 hfound
  obtain ⟨hnames, later, earlier, hreverse, hlater⟩ := List.find?_eq_some_iff_append.1 hlast
  have hall : all = earlier.reverse ++ last :: later.reverse := by
    rw [← List.reverse_reverse all, hreverse]
    simp
  have hvalue : (Write.latest (.zones provider region) (writes steps)).map Entry.value =
      (all.reverse.find? namesZones).map zonesOf := map_latest_zones_of_advances h
  rw [hlast] at hvalue
  obtain ⟨⟨zones, written⟩, hlatest, hzonesOf⟩ := Option.map_eq_some_iff.1 hvalue
  change zones = zonesOf last at hzonesOf
  subst hzonesOf
  have hlastMem : last ∈ all := hall ▸ List.mem_append_right _ List.mem_cons_self
  have hafter : ∀ l ∈ later.reverse, ∀ p ∈ l, p.zones = [] := by
    intro l hl p hp
    refine Decidable.byContradiction fun hne ↦ ?_
    have hnone := hlater l (List.mem_reverse.1 hl)
    rw [namesZones_iff.2 ⟨p, hp, hne⟩] at hnone
    cases hnone
  have hne : zonesOf last ≠ [] := by simpa [namesZones] using hnames
  refine ⟨earlier.reverse, last, later.reverse, zonesOf last, written, hall, hafter, ?_,
    ascending_pairwise _, hne, fun z ↦ mem_zonesOf_iff, ?_⟩
  · rw [Plan.kept?_replay, hlatest]
    rfl
  constructor
  · intro hunion l hl p hp z hz
    have hmem : l ∈ all := hall ▸ List.mem_append_left _ hl
    exact mem_zonesOf_iff.1 ((hunion z).2 ⟨l, hmem, p, hp, hz⟩)
  · intro hcovered z
    rw [mem_zonesOf_iff]
    constructor
    · rintro ⟨p, hp, hz⟩
      exact ⟨last, hlastMem, p, hp, hz⟩
    · rintro ⟨l, hl, p, hp, hz⟩
      rw [hall] at hl
      rcases List.mem_append.1 hl with hl | hl
      · exact hcovered l hl p hp z hz
      rcases List.mem_cons.1 hl with rfl | hl
      · exact ⟨p, hp, hz⟩
      · rw [hafter l hl p hp] at hz
        cases hz

end Cycle

def zonedProduct (zones : List String) : Product :=
  ⟨"t", .zero, .empty, .ofNat 1, .ofNat 2, .zero, "", "", zones, .empty, false⟩

/-- Two services in one region, and the zones that the product of each names. -/
def zonedScript (first second : List String) : Script where
  snapshot := .empty
  services := [⟨"a"⟩, ⟨"b"⟩]
  attributeValues := .empty
  regions := Dict.ofList [("a", Dict.ofList [("E", "e")]), ("b", Dict.ofList [("E", "e")])]
  products := Dict.ofList [("a", Dict.ofList [("e", [zonedProduct first])]),
    ("b", Dict.ofList [("e", [zonedProduct second])])]
  offersImages := false
  images := .empty
  versions := .empty
  offersCurrentPrices := false
  currentPrices := .empty
  delay _ := 0
  rules := []

theorem zones_eq_union_iff_zonedScript :
    let run := (plan "p").run Script.source (fun _ ↦ 7) (zonedScript ["y"] ["z", "y"])
    let all := listings "e" (inquiries run.steps)
    (∃ l ∈ all, ∃ p ∈ l, p.zones ≠ []) ∧
      ∃ (zones : List String) (written : Nat),
        ((Store.empty ⟨9, 9⟩).replay run.steps).kept? (.zones "p" "e") = some ⟨zones, written⟩ ∧
        ∀ z, z ∈ zones ↔ ∃ l ∈ all, ∃ p ∈ l, z ∈ p.zones := by
  intro run all
  have hall : all = [[zonedProduct ["y"]], [zonedProduct ["z", "y"]]] := by decide +kernel
  have hzone : ∃ l ∈ all, ∃ p ∈ l, p.zones ≠ [] := by
    rw [hall]
    exact ⟨_, List.mem_cons_self, _, List.mem_cons_self, List.cons_ne_nil _ _⟩
  have hrun : Plan.Advances Script.source (fun _ ↦ 7) (fun _ _ ↦ False) (plan "p")
      (zonedScript ["y"] ["z", "y"]) run.steps (.done ()) run.state :=
    Plan.advances_run_unit (plan "p") _
  obtain ⟨before, last, after, zones, written, hsplit, hafter, hkept, -, -, -, hunion⟩ :=
    zones_eq_union_iff hrun hzone (.empty ⟨9, 9⟩)
  refine ⟨hzone, zones, written, hkept, hunion.2 ?_⟩
  change all = _ at hsplit
  rw [hall] at hsplit
  rcases before with _ | ⟨_, _ | ⟨_, before⟩⟩
  · cases hsplit
    cases hafter _ List.mem_cons_self _ List.mem_cons_self
  · cases hsplit
    intro l hl p hp z hz
    cases List.mem_singleton.1 hl
    cases List.mem_singleton.1 hp
    cases List.mem_singleton.1 hz
    exact ⟨_, List.mem_cons_self, List.mem_cons_of_mem _ List.mem_cons_self⟩
  · simp at hsplit

/-- Nothing fails, and still the first service's zone is not cached. -/
theorem zones_ne_union_zonedScript :
    let run := (plan "p").run Script.source (fun _ ↦ 7) (zonedScript ["y"] ["z"])
    let all := listings "e" (inquiries run.steps)
    (inquiries run.steps).all (fun x ↦ match x with | .asked _ (.error _) => false | _ => true) = true ∧
      ((Store.empty ⟨9, 9⟩).replay run.steps).kept? (.zones "p" "e") =
        some ⟨(["z"] : List String), 7⟩ ∧
      ¬∀ z, z ∈ ["z"] ↔ ∃ l ∈ all, ∃ p ∈ l, z ∈ p.zones := by
  intro run all
  have hall : all = [[zonedProduct ["y"]], [zonedProduct ["z"]]] := by decide +kernel
  refine ⟨by decide +kernel, by rfl, fun h ↦ ?_⟩
  rw [hall] at h
  have hy := (h "y").2 ⟨_, List.mem_cons_self, _, List.mem_cons_self, List.mem_cons_self⟩
  exact absurd hy (by decide)

end FullRefresh

end CloudOffers
