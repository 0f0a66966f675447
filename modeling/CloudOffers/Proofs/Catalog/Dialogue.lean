import CloudOffers.Proofs.Dict
import CloudOffers.Proofs.Refresh.FullCycle
import CloudOffers.Source.CatalogFile
/-!
What a catalog answers in a full refresh. It accepts every request that follows from its own answers,
so an agenda that it accepts is worked off as a whole.
-/

namespace CloudOffers

open Plan (Step)
open FullRefresh (attributeAgenda regionAgenda)

namespace Catalog

variable (c : Catalog)

/-- The requests that are answered from the catalog that is held. -/
def Accepts : Request → Prop
  | .services => True
  | .attributeValues service name => service ∈ c.services ∧ name ∈ ["cpu", "memory"]
  | .regions service => service ∈ c.services
  | .products service region | .images service region | .versions service region =>
    service ∈ c.services ∧ region ∈ c.regions.values
  | .snapshot | .currentPrices _ => False

/-- The values of an attribute among all products; what is not the cpus is the memory. -/
def valuesOf (name : String) : AttributeValues :=
  .ofFloats (c.products.values.flatten.map (if name = "cpu" then (·.cpus) else (·.memory)))

def answer : (r : Request) → r.Answer
  | .snapshot => c.snapshot
  | .services => c.services.map Service.mk
  | .attributeValues _ name => c.valuesOf name
  | .regions _ => c.regions
  | .products _ region => (c.products.get? region).getD []
  | .images _ region => (c.images.get? region).getD []
  | .versions _ region => (c.versions.get? region).getD []
  | .currentPrices region => c.pricesIn region

variable {c}

theorem checkService_of_mem {service : String} (h : service ∈ c.services) :
    c.checkService service = .ok () := if_pos h

theorem check_of_mem {service region : String} (h : service ∈ c.services ∧ region ∈ c.regions.values) :
    c.check service region = .ok () := by
  rw [check, checkService_of_mem h.1]
  exact if_pos h.2

theorem attributeValues_of_mem {name : String} (h : name ∈ ["cpu", "memory"]) :
    c.attributeValues name = .ok (c.valuesOf name) := by
  simp only [List.mem_cons, List.not_mem_nil, or_false] at h
  rcases h with rfl | rfl <;> rfl

theorem answer_of_accepts {f : CatalogFile} {r : Request} (h : f.held.Accepts r) :
    CatalogFile.answer r f = (.ok (f.held.answer r), f) := by
  cases r with
  | snapshot => cases h
  | services => rfl
  | attributeValues service name =>
    rw [CatalogFile.answer, checkService_of_mem h.1, attributeValues_of_mem h.2]
    rfl
  | regions service =>
    rw [CatalogFile.answer, checkService_of_mem h]
    rfl
  | products service region | images service region | versions service region =>
    rw [CatalogFile.answer, check_of_mem h]
    rfl
  | currentPrices region => cases h

/-- What follows from an accepted request is accepted. -/
theorem accepts_followUps {r r' : Request} (h : c.Accepts r) (hr' : r' ∈ r.followUps (c.answer r)) :
    c.Accepts r' := by
  cases r with
  | regions service =>
    obtain ⟨region, hregion, hr'⟩ := List.mem_flatMap.1 hr'
    have hmem : service ∈ c.services ∧ region ∈ c.regions.values := ⟨h, mem_inOrder.1 hregion⟩
    simp only [Request.visit, List.mem_cons, List.not_mem_nil, or_false] at hr'
    rcases hr' with rfl | rfl | rfl <;> exact hmem
  | _ => cases hr'

variable (c)

/-- What a full refresh asks a catalog once the snapshot is had. -/
def agenda : List Request :=
  .services :: (attributeAgenda (c.answer .services) ++ regionAgenda (c.answer .services))

theorem accepts_agenda {r : Request} (h : r ∈ c.agenda) : c.Accepts r := by
  rcases List.mem_cons.1 h with rfl | h
  · trivial
  rcases List.mem_append.1 h with h | h
  · obtain ⟨s, hs, name, hname, rfl⟩ := FullRefresh.mem_attributeAgenda_iff.1 h
    obtain ⟨service, hservice, rfl⟩ := List.mem_map.1 hs
    exact ⟨hservice, hname⟩
  · obtain ⟨s, hs, rfl⟩ := List.mem_map.1 h
    obtain ⟨service, hservice, rfl⟩ := List.mem_map.1 hs
    exact hservice

/-- A request with the inquiries that a catalog makes of it. -/
def inquiry : Request → List Step
  | .images service region =>
    if c.images.isEmpty then [.askedImages false]
    else [.askedImages true, .asked (.images service region) (.ok ((c.images.get? region).getD []))]
  | r => [.asked r (.ok (c.answer r))]

def consequences (r : Request) : List Request := r :: r.followUps (c.answer r)

/-- The inquiries of an agenda when a catalog answers them. -/
def dialogue (agenda : List Request) : List Step := (agenda.flatMap c.consequences).flatMap c.inquiry

def Agrees : Step → Prop
  | .asked r reply => c.Accepts r → reply = .ok (c.answer r)
  | .askedImages offered => offered = !c.images.isEmpty
  | .acted .. => True

theorem consequences_followUps (r : Request) (a : r.Answer) :
    (r.followUps a).flatMap c.consequences = r.followUps a := by
  cases r with
  | regions service =>
    change ((inOrder _).flatMap (Request.visit service)).flatMap c.consequences = _
    rw [List.flatMap_assoc]
    rfl
  | _ => rfl

theorem dialogue_cons (r : Request) (rest : List Request) :
    c.dialogue (r :: rest) = c.inquiry r ++ c.dialogue (r.followUps (c.answer r) ++ rest) := by
  simp only [dialogue, List.flatMap_cons, List.flatMap_append, consequences_followUps, consequences,
    List.append_assoc]

theorem inquiry_eq_ahead {r : Request} (h : ∀ x ∈ r.ahead, c.Agrees x) :
    c.inquiry r = r.ahead ++ [.asked r (.ok (c.answer r))] := by
  cases r with
  | images service region =>
    have hoffered : true = !c.images.isEmpty := h (.askedImages true) List.mem_cons_self
    rw [inquiry, if_neg (by simpa using hoffered)]
    rfl
  | _ => rfl

/-- An accepted agenda is worked off as a whole if the inquiries are answered as the catalog does. -/
theorem eq_dialogue {agenda : List Request} {asked : List Step} {whole : Bool}
    (h : WorkedOff agenda asked whole) (ha : ∀ r ∈ agenda, c.Accepts r)
    (hx : ∀ x ∈ asked, c.Agrees x) : whole = true ∧ asked = c.dialogue agenda := by
  induction h with
  | done => exact ⟨rfl, rfl⟩
  | @failed r rest e =>
    -- the catalog answers what it accepts, so this reply does not agree with it
    have hreply := hx (.asked r (.error e)) (List.mem_append_right _ List.mem_cons_self)
    cases hreply (ha r List.mem_cons_self)
  | @answered r rest asked whole a h ih =>
    obtain ⟨hahead, hreply, hasked⟩ := List.forall_mem_append.1 hx |>.imp id List.forall_mem_cons.1
    obtain ⟨hr, hrest⟩ := List.forall_mem_cons.1 ha
    cases hreply hr
    obtain ⟨hwhole, rfl⟩ := ih (List.forall_mem_append.2 ⟨fun r' ↦ accepts_followUps hr, hrest⟩) hasked
    refine ⟨hwhole, ?_⟩
    rw [dialogue_cons, inquiry_eq_ahead c hahead, List.append_assoc]
    rfl
  | @withoutImages service region rest asked whole h ih =>
    obtain ⟨hoffered, hasked⟩ := List.forall_mem_cons.1 hx
    obtain ⟨hwhole, rfl⟩ := ih (List.forall_mem_cons.1 ha).2 hasked
    have hnone : c.images.isEmpty = true := by simpa [Agrees] using hoffered
    refine ⟨hwhole, ?_⟩
    rw [dialogue_cons, inquiry, if_pos hnone]
    rfl

theorem dialogue_append (a b : List Request) : c.dialogue (a ++ b) = c.dialogue a ++ c.dialogue b := by
  rw [dialogue, List.flatMap_append, List.flatMap_append]
  rfl

/-- With the answers of a catalog after the snapshot, the inquiries of a full refresh are settled. -/
theorem eq_of_inquires {snapshot : Request.snapshot.Reply} {rest : List Step}
    (h : FullRefresh.Inquires (.asked .snapshot snapshot :: rest)) (hx : ∀ x ∈ rest, c.Agrees x) :
    rest = c.dialogue c.agenda := by
  obtain ⟨_, services, attributes, regions, heq, ⟨_, hattributes⟩, _, hregions⟩ := h
  cases heq
  obtain ⟨hservices, hagendas⟩ := List.forall_mem_cons.1 hx
  cases hservices trivial
  obtain ⟨hxa, hxr⟩ := List.forall_mem_append.1 hagendas
  have haccepts := List.forall_mem_append.1 (List.forall_mem_cons.1 fun r ↦ c.accepts_agenda).2
  rw [(c.eq_dialogue hattributes haccepts.1 hxa).2, (c.eq_dialogue hregions haccepts.2 hxr).2,
    ← dialogue_append, agenda, dialogue_cons]
  rfl

theorem mem_visit_iff {service region : String} {r : Request} :
    r ∈ Request.visit service region ↔
      r = .products service region ∨ r = .images service region ∨ r = .versions service region := by
  simp [Request.visit]

/-- A full refresh asks a catalog whatever it accepts, and nothing else. -/
theorem mem_consequences_iff {r : Request} : r ∈ c.agenda.flatMap c.consequences ↔ c.Accepts r := by
  rw [List.mem_flatMap]
  constructor
  · rintro ⟨r', hr', hr⟩
    rcases List.mem_cons.1 hr with rfl | hr
    · exact c.accepts_agenda hr'
    · exact accepts_followUps (c.accepts_agenda hr') hr
  · intro h
    have hregions {service : String} (hs : service ∈ c.services) : .regions service ∈ c.agenda :=
      List.mem_cons_of_mem _ (List.mem_append_right _ (List.mem_map.2
        ⟨⟨service⟩, List.mem_map.2 ⟨service, hs, rfl⟩, rfl⟩))
    have hvisit {service region : String} {r : Request} (hr : region ∈ c.regions.values)
        (hv : r ∈ Request.visit service region) : r ∈ c.consequences (.regions service) :=
      List.mem_cons_of_mem _ (List.mem_flatMap.2 ⟨region, mem_inOrder.2 hr, hv⟩)
    cases r with
    | snapshot => cases h
    | services => exact ⟨.services, List.mem_cons_self, List.mem_cons_self⟩
    | attributeValues service name =>
      refine ⟨_, List.mem_cons_of_mem _ (List.mem_append_left _ ?_), List.mem_cons_self⟩
      exact FullRefresh.mem_attributeAgenda_iff.2 ⟨⟨service⟩, List.mem_map.2 ⟨service, h.1, rfl⟩, name, h.2, rfl⟩
    | regions service => exact ⟨_, hregions h, List.mem_cons_self⟩
    | products service region => exact ⟨_, hregions h.1, hvisit h.2 (mem_visit_iff.2 (.inl rfl))⟩
    | images service region => exact ⟨_, hregions h.1, hvisit h.2 (mem_visit_iff.2 (.inr (.inl rfl)))⟩
    | versions service region => exact ⟨_, hregions h.1, hvisit h.2 (mem_visit_iff.2 (.inr (.inr rfl)))⟩
    | currentPrices region => cases h

theorem mem_dialogue_agenda_iff {x : Step} :
    x ∈ c.dialogue c.agenda ↔ ∃ r, c.Accepts r ∧ x ∈ c.inquiry r := by
  simp only [dialogue, List.mem_flatMap (l := c.agenda.flatMap c.consequences), mem_consequences_iff]

theorem answered_of_mem {r : Request} {reply : r.Reply}
    (h : .asked r reply ∈ c.dialogue c.agenda) : c.Accepts r ∧ reply = .ok (c.answer r) := by
  obtain ⟨r', hr', hmem⟩ := c.mem_dialogue_agenda_iff.1 h
  have hinquiry : .asked r reply ∈ r'.ahead ++ [.asked r' (.ok (c.answer r'))] := by
    cases r' with
    | images service region =>
      rw [inquiry] at hmem
      split at hmem
      · simp at hmem
      · exact hmem
    | _ => exact hmem
  rcases List.mem_append.1 hinquiry with hmem | hmem
  · cases r' <;> simp [Request.ahead] at hmem
  · cases List.mem_singleton.1 hmem
    exact ⟨hr', rfl⟩

section Publications

variable (provider : String)

/-- What a full refresh publishes of a catalog, besides the prices of its snapshot. -/
def publications : List Publication :=
  (c.dialogue c.agenda).flatMap (Step.publications provider)

/-- What is under a key of a catalog's provider when it is published. -/
def entry : (k : Key) → k.Payload
  | .services _ => c.services.map Service.mk
  | .regions .. => c.regions
  | .zones _ region => inOrder (((c.products.get? region).getD []).flatMap (·.zones))
  | .attributes _ _ name => c.valuesOf name
  | .products _ _ region => (c.products.get? region).getD []
  | .price _ region instanceType => ((c.pricesIn region).get? instanceType).getD default
  | .images _ _ region => (c.images.get? region).getD []
  | .versions _ _ region => (c.versions.get? region).getD []
  | .status _ => ""

/-- The keys that a full refresh publishes something of a catalog under. -/
def Lists : Key → Prop
  | .services p => p = provider
  | .regions p service => p = provider ∧ service ∈ c.services
  | .zones p region => p = provider ∧ c.services ≠ [] ∧ region ∈ c.regions.values ∧
    ((c.products.get? region).getD []).flatMap (·.zones) ≠ []
  | .attributes p service name => p = provider ∧ service ∈ c.services ∧ name ∈ ["cpu", "memory"]
  | .products p service region | .versions p service region =>
    p = provider ∧ service ∈ c.services ∧ region ∈ c.regions.values
  | .price p region instanceType => p = provider ∧ region ∈ c.regions.values ∧
    ((c.pricesIn region).get? instanceType).isSome
  | .images p service region => p = provider ∧ c.images.isEmpty = false ∧ service ∈ c.services ∧
    region ∈ c.regions.values
  | .status _ => False

theorem mem_publications_iff_exists {p : Publication} :
    p ∈ c.publications provider ↔
      ∃ r, c.Accepts r ∧ p ∈ (c.inquiry r).flatMap (Step.publications provider) := by
  simp only [publications, List.mem_flatMap (l := c.dialogue c.agenda), mem_dialogue_agenda_iff]
  constructor
  · rintro ⟨x, ⟨r, hr, hx⟩, hp⟩
    exact ⟨r, hr, List.mem_flatMap.2 ⟨x, hx, hp⟩⟩
  · rintro ⟨r, hr, hp⟩
    obtain ⟨x, hx, hp⟩ := List.mem_flatMap.1 hp
    exact ⟨x, ⟨r, hr, hx⟩, hp⟩

theorem mem_images_publications_iff {service region : String} {p : Publication} :
    p ∈ (c.inquiry (.images service region)).flatMap (Step.publications provider) ↔
      c.images.isEmpty = false ∧ p = ⟨.images provider service region, (c.images.get? region).getD []⟩ := by
  cases h : c.images.isEmpty with
  | true => simp [inquiry, h, Step.publications]
  | false => simp [inquiry, h, Step.publications, Request.publications]

theorem mem_products_publications_iff {service region : String} {p : Publication} :
    p ∈ (c.inquiry (.products service region)).flatMap (Step.publications provider) ↔
      ((c.products.get? region).getD []).flatMap (·.zones) ≠ [] ∧
        p = ⟨.zones provider region, inOrder (((c.products.get? region).getD []).flatMap (·.zones))⟩ ∨
      p = ⟨.products provider service region, (c.products.get? region).getD []⟩ := by
  by_cases h : ((c.products.get? region).getD []).flatMap (·.zones) = []
  · simp [inquiry, h, Step.publications, Request.publications, answer]
  · simp [inquiry, h, Step.publications, Request.publications, answer]

theorem lists_of_mem_publications {k : Key} {v : k.Payload} (h : ⟨k, v⟩ ∈ c.publications provider) :
    c.Lists provider k ∧ k.category ≠ .prices ∧ v = c.entry k := by
  obtain ⟨r, hr, hp⟩ := (c.mem_publications_iff_exists provider).1 h
  cases r with
  | snapshot => cases hr
  | services =>
    cases List.mem_singleton.1 hp
    exact ⟨rfl, nofun, rfl⟩
  | attributeValues service name =>
    cases List.mem_singleton.1 hp
    exact ⟨⟨rfl, hr⟩, nofun, rfl⟩
  | regions service =>
    cases List.mem_singleton.1 hp
    exact ⟨⟨rfl, hr⟩, nofun, rfl⟩
  | products service region =>
    rcases (c.mem_products_publications_iff provider).1 hp with ⟨hz, hp⟩ | hp
    · cases hp
      exact ⟨⟨rfl, List.ne_nil_of_mem hr.1, hr.2, hz⟩, nofun, rfl⟩
    · cases hp
      exact ⟨⟨rfl, hr⟩, nofun, rfl⟩
  | images service region =>
    obtain ⟨hoffered, hp⟩ := (c.mem_images_publications_iff provider).1 hp
    cases hp
    exact ⟨⟨rfl, hoffered, hr⟩, nofun, rfl⟩
  | versions service region =>
    cases List.mem_singleton.1 hp
    exact ⟨⟨rfl, hr⟩, nofun, rfl⟩
  | currentPrices region => cases hr

theorem entry_mem_publications {k : Key} (hk : c.Lists provider k) (hcategory : k.category ≠ .prices) :
    ⟨k, c.entry k⟩ ∈ c.publications provider := by
  rw [mem_publications_iff_exists]
  cases k with
  | services p =>
    cases hk
    exact ⟨.services, trivial, List.mem_cons_self⟩
  | regions p service =>
    obtain ⟨rfl, hs⟩ := hk
    exact ⟨.regions service, hs, List.mem_cons_self⟩
  | zones p region =>
    obtain ⟨rfl, hne, hregion, hz⟩ := hk
    obtain ⟨service, hs⟩ := List.exists_mem_of_ne_nil _ hne
    exact ⟨.products service region, ⟨hs, hregion⟩,
      (c.mem_products_publications_iff p).2 (.inl ⟨hz, rfl⟩)⟩
  | attributes p service name =>
    obtain ⟨rfl, hs⟩ := hk
    exact ⟨.attributeValues service name, hs, List.mem_cons_self⟩
  | products p service region =>
    obtain ⟨rfl, hs⟩ := hk
    exact ⟨.products service region, hs, (c.mem_products_publications_iff p).2 (.inr rfl)⟩
  | price p region instanceType => exact absurd rfl hcategory
  | images p service region =>
    obtain ⟨rfl, hoffered, hs⟩ := hk
    exact ⟨.images service region, hs, (c.mem_images_publications_iff p).2 ⟨hoffered, rfl⟩⟩
  | versions p service region =>
    obtain ⟨rfl, hs⟩ := hk
    exact ⟨.versions service region, hs, List.mem_cons_self⟩
  | status p => cases hk

theorem mem_publications_iff {k : Key} {v : k.Payload} :
    ⟨k, v⟩ ∈ c.publications provider ↔ c.Lists provider k ∧ k.category ≠ .prices ∧ v = c.entry k := by
  constructor
  · exact c.lists_of_mem_publications provider
  · rintro ⟨hk, hcategory, rfl⟩
    exact c.entry_mem_publications provider hk hcategory

theorem mem_snapshot_publications_iff {k : Key} {v : k.Payload} :
    ⟨k, v⟩ ∈ Request.snapshot.publications provider c.snapshot ↔
      c.Lists provider k ∧ k.category = .prices ∧ v = c.entry k := by
  rw [Request.mem_snapshot_publications_iff]
  have hregions (region : String) : c.snapshot.get? region =
      if region ∈ c.regions.values then some (c.pricesIn region) else none :=
    Dict.get?_ofList_map ..
  constructor
  · rintro ⟨region, d, instanceType, price, hregion, hprice, heq⟩
    cases heq
    rw [hregions] at hregion
    split at hregion
    · next hmem =>
      cases hregion
      refine ⟨⟨rfl, hmem, ?_⟩, rfl, ?_⟩
      · rw [hprice]
        rfl
      · rw [entry, hprice]
        rfl
    · cases hregion
  · rintro ⟨hk, hcategory, rfl⟩
    cases k with
    | price p region instanceType =>
      obtain ⟨rfl, hregion, hprice⟩ := hk
      obtain ⟨price, hprice⟩ := Option.isSome_iff_exists.1 hprice
      refine ⟨region, c.pricesIn region, instanceType, price, ?_, hprice, ?_⟩
      · rw [hregions, if_pos hregion]
      · rw [entry, hprice]
        rfl
    | _ => cases hcategory

end Publications

end Catalog

end CloudOffers
