import CloudOffers.Proofs.Refresh.Accounting
import CloudOffers.Proofs.Refresh.PriceCycle
/-!
The order of a cycle's calls, whatever the source answers and however its answers depend on what it was
asked before. A call that failed is not made again.
-/

namespace CloudOffers

open Plan (Step inquiries)

namespace Request

def isAttribute : Request → Bool
  | .attributeValues .. => true
  | _ => false

def isListing : Request → Bool
  | .regions _ => true
  | _ => false

def isProducts : Request → Bool
  | .products .. => true
  | _ => false

end Request

namespace Plan

def requests (asked : List Step) : List Request := asked.filterMap Step.request?

theorem requests_append (a b : List Step) : requests (a ++ b) = requests a ++ requests b :=
  List.filterMap_append

theorem mem_requests_iff {r : Request} {asked : List Step} :
    r ∈ requests asked ↔ ∃ reply, .asked r reply ∈ asked := by
  rw [requests, List.mem_filterMap]
  constructor
  · rintro ⟨x, hx, hr⟩
    cases x with
    | asked r' reply =>
      cases hr
      exact ⟨reply, hx⟩
    | _ => cases hr
  · rintro ⟨reply, h⟩
    exact ⟨_, h, rfl⟩

namespace Step

def isAttribute : Step → Bool
  | .asked r _ => r.isAttribute
  | _ => false

/-- Whether a step belongs to the calls about the regions of services. -/
def isRegional : Step → Bool
  | .asked (.regions _) _ => true
  | x => x.isVisiting

def fails : Step → Bool
  | .asked _ (.error _) => true
  | _ => false

/-- A service with its regions, as they were listed. -/
def listed? : Step → Option (String × Dict String String)
  | .asked (.regions service) (.ok ids) => some (service, ids)
  | _ => none

end Step

/-- A property of every step in view of the steps before and after it. -/
def Throughout (P : List Step → Step → List Step → Prop) (asked : List Step) : Prop :=
  ∀ before x after, asked = before ++ x :: after → P before x after

namespace Throughout

variable {P Q : List Step → Step → List Step → Prop} {x : Step} {asked later : List Step}

theorem nil : Throughout P [] := by
  intro before x after h
  simp at h

theorem cons (hx : P [] x asked) (h : Throughout (fun before ↦ P (x :: before)) asked) :
    Throughout P (x :: asked) := by
  intro before y after hsplit
  cases before with
  | nil =>
    cases hsplit
    exact hx
  | cons z before =>
    cases hsplit
    exact h before y after rfl

theorem append (h : Throughout (fun before x after ↦ P before x (after ++ later)) asked)
    (h' : Throughout (fun before ↦ P (asked ++ before)) later) : Throughout P (asked ++ later) := by
  induction asked generalizing P with
  | nil => exact h'
  | cons x asked ih =>
    refine cons (h [] x asked rfl) (ih ?_ h')
    intro before y after hsplit
    exact h (x :: before) y after (congrArg (List.cons x) hsplit)

theorem mono (h : Throughout P asked) (hPQ : ∀ before x after, P before x after → Q before x after) :
    Throughout Q asked :=
  fun before x after hsplit ↦ hPQ before x after (h before x after hsplit)

end Throughout

/-- Calls of which only the last may fail. -/
def EndsAtFailure (asked : List Step) : Prop :=
  Throughout (fun _ x after ↦ x.fails = true → after = []) asked

/-- Calls of which none is made again that failed. -/
def NotRetried (asked : List Step) : Prop :=
  Throughout (fun _ x after ↦ ∀ r e, x = .asked r (.error e) → r ∉ requests after) asked

theorem EndsAtFailure.append {asked later : List Step} (h : ∀ x ∈ asked, x.fails = false)
    (h' : EndsAtFailure later) : EndsAtFailure (asked ++ later) := by
  refine Throughout.append (fun before x after hsplit hx ↦ ?_) h'
  have hmem : x ∈ asked := hsplit ▸ List.mem_append_right before List.mem_cons_self
  rw [h x hmem] at hx
  cases hx

theorem EndsAtFailure.notRetried {asked : List Step} (h : EndsAtFailure asked) : NotRetried asked := by
  refine h.mono fun before x after hafter r e hx ↦ ?_
  subst hx
  rw [hafter rfl]
  exact List.not_mem_nil

theorem NotRetried.append {asked later : List Step} (h : NotRetried asked) (h' : NotRetried later)
    (hapart : ∀ r ∈ requests asked, r ∉ requests later) : NotRetried (asked ++ later) := by
  refine Throughout.append ?_ h'
  intro before x after hsplit r e hx
  subst hx
  rw [requests_append, List.mem_append, not_or]
  refine ⟨h before _ after hsplit r e rfl, hapart r (mem_requests_iff.2 ⟨.error e, ?_⟩)⟩
  rw [hsplit]
  exact List.mem_append_right before List.mem_cons_self

theorem NotRetried.cons {r : Request} {reply : r.Reply} {asked : List Step} (h : NotRetried asked)
    (hr : r ∉ requests asked) : NotRetried (.asked r reply :: asked) := by
  have hsingle : NotRetried [.asked r reply] := Throughout.cons (fun _ _ _ ↦ List.not_mem_nil) .nil
  exact hsingle.append h fun r' hr' ↦ List.mem_singleton.1 hr' ▸ hr

end Plan

open Plan (requests Throughout EndsAtFailure NotRetried)

namespace WorkedOff

variable {agenda : List Request} {asked : List Step} {whole : Bool}

theorem fails_ahead (r : Request) : ∀ x ∈ r.ahead, x.fails = false := by
  cases r
  case images => exact List.forall_mem_singleton.2 rfl
  all_goals exact List.forall_mem_nil _

theorem endsAtFailure (h : WorkedOff agenda asked whole) : EndsAtFailure asked := by
  induction h with
  | done => exact .nil
  | failed e => exact .append (fails_ahead _) (.cons (fun _ ↦ rfl) .nil)
  | answered a _ ih => exact .append (fails_ahead _) (.append (List.forall_mem_singleton.2 rfl) ih)
  | withoutImages _ ih => exact .append (List.forall_mem_singleton.2 rfl) ih

/-- If nothing fails, the agenda is worked off to its end. -/
theorem whole_of_fails (h : WorkedOff agenda asked whole) (hfails : ∀ x ∈ asked, x.fails = false) :
    whole = true := by
  induction h with
  | done => rfl
  | failed e =>
    have hlast := hfails _ (List.mem_append_right _ List.mem_cons_self)
    cases hlast
  | answered a _ ih => exact ih (List.forall_mem_cons.1 (List.forall_mem_append.1 hfails).2).2
  | withoutImages _ ih => exact ih (List.forall_mem_cons.1 hfails).2

theorem requests_ahead (r : Request) : Plan.requests r.ahead = [] := by
  cases r <;> rfl

/-- What holds of the calls, and of the inquiries after images among them. -/
theorem forall_steps {P : Request → Prop} {R : Step → Prop} (h : WorkedOff agenda asked whole)
    (ha : ∀ r ∈ agenda, P r) (hf : ∀ r a, P r → ∀ r' ∈ r.followUps a, P r')
    (hasked : ∀ r reply, P r → R (.asked r reply))
    (himages : ∀ service region offered, P (.images service region) → R (.askedImages offered)) :
    ∀ x ∈ asked, R x := by
  have hahead (r : Request) (hr : P r) : ∀ x ∈ r.ahead, R x := by
    cases r
    case images => exact List.forall_mem_singleton.2 (himages _ _ true hr)
    all_goals exact List.forall_mem_nil _
  induction h with
  | done => exact List.forall_mem_nil _
  | @failed r rest e =>
    have hr := ha r List.mem_cons_self
    exact List.forall_mem_append.2 ⟨hahead r hr, List.forall_mem_singleton.2 (hasked r _ hr)⟩
  | @answered r rest asked whole a _ ih =>
    obtain ⟨hr, hrest⟩ := List.forall_mem_cons.1 ha
    have hnext := ih (List.forall_mem_append.2 ⟨hf r a hr, hrest⟩)
    exact List.forall_mem_append.2 ⟨hahead r hr, List.forall_mem_cons.2 ⟨hasked r _ hr, hnext⟩⟩
  | withoutImages _ ih =>
    obtain ⟨hr, hrest⟩ := List.forall_mem_cons.1 ha
    exact List.forall_mem_cons.2 ⟨himages _ _ false hr, ih hrest⟩

/-- What no answer gives cause to ask is asked in the order of the agenda. -/
theorem filter_requests {P : Request → Prop} {p : Request → Bool} (h : WorkedOff agenda asked whole)
    (ha : ∀ r ∈ agenda, P r) (hf : ∀ r a, P r → ∀ r' ∈ r.followUps a, P r' ∧ p r' = false)
    (himages : ∀ service region, p (.images service region) = false) :
    (Plan.requests asked).filter p <+: agenda.filter p ∧
      (whole = true → (Plan.requests asked).filter p = agenda.filter p) := by
  induction h with
  | done => exact ⟨List.nil_prefix, fun _ ↦ rfl⟩
  | @failed r rest e =>
    rw [Plan.requests_append, requests_ahead, List.nil_append]
    change [r].filter p <+: ([r] ++ rest).filter p ∧ _
    rw [List.filter_append]
    exact ⟨List.prefix_append .., nofun⟩
  | @answered r rest asked whole a _ ih =>
    obtain ⟨hr, hrest⟩ := List.forall_mem_cons.1 ha
    have hnone : (r.followUps a).filter p = [] :=
      List.filter_eq_nil_iff.2 fun r' hr' ↦ ne_true_of_eq_false (hf r a hr r' hr').2
    have hnext := ih (List.forall_mem_append.2 ⟨fun r' hr' ↦ (hf r a hr r' hr').1, hrest⟩)
    rw [List.filter_append, hnone, List.nil_append] at hnext
    rw [Plan.requests_append, requests_ahead, List.nil_append]
    change ([r] ++ Plan.requests asked).filter p <+: ([r] ++ rest).filter p ∧
      (whole = true → ([r] ++ Plan.requests asked).filter p = ([r] ++ rest).filter p)
    rw [List.filter_append, List.filter_append]
    exact ⟨(List.prefix_append_right_inj _).2 hnext.1, fun hw ↦ congrArg _ (hnext.2 hw)⟩
  | @withoutImages service region rest asked whole _ ih =>
    rw [List.filter_cons_of_neg (ne_true_of_eq_false (himages service region))]
    exact ih (List.forall_mem_cons.1 ha).2

end WorkedOff

namespace FullRefresh

/-- The regions of a service were listed, and there were only visits since. -/
def UnderVisit (service : String) (ids : Dict String String) (before : List Step) : Prop :=
  ∃ between, .asked (.regions service) (.ok ids) :: between <:+ before ∧
    ∀ x ∈ between, x.isVisiting = true

/-- What must have been asked right before a call. -/
def Due (before : List Step) : Step → Prop
  | .asked (.products service region) _ => ∃ ids, UnderVisit service ids before ∧ region ∈ ids.values
  | .askedImages _ => ∃ service region, ∃ products : List Product,
    [.asked (.products service region) (.ok products)] <:+ before
  | .asked (.images service region) _ => ∃ products : List Product,
    [.asked (.products service region) (.ok products), .askedImages true] <:+ before
  | .asked (.versions service region) _ => ∃ (products : List Product) (images : List Step),
    AsksImages service region images ∧
      .asked (.products service region) (.ok products) :: images <:+ before
  | _ => True

/-- Calls each of which is due after those before it. -/
def Follows (before asked : List Step) : Prop := Throughout (fun front x _ ↦ Due (before ++ front) x) asked

section Follows

variable {before asked later : List Step} {x : Step} {service region : String}

theorem Follows.cons (hx : Due before x) (h : Follows (before ++ [x]) asked) :
    Follows before (x :: asked) := by
  refine Throughout.cons (by rwa [List.append_nil]) (Throughout.mono h fun front y _ hy ↦ ?_)
  rwa [List.append_assoc] at hy

theorem Follows.append (h : Follows before asked) (h' : Follows (before ++ asked) later) :
    Follows before (asked ++ later) := by
  refine Throughout.append h (Throughout.mono h' fun front y _ hy ↦ ?_)
  rwa [List.append_assoc] at hy

theorem UnderVisit.append {ids : Dict String String} (h : UnderVisit service ids before)
    (hasked : ∀ x ∈ asked, x.isVisiting = true) : UnderVisit service ids (before ++ asked) := by
  obtain ⟨between, ⟨first, rfl⟩, hbetween⟩ := h
  refine ⟨between ++ asked, ⟨first, ?_⟩, List.forall_mem_append.2 ⟨hbetween, hasked⟩⟩
  rw [List.append_assoc, List.cons_append]

theorem due_images (products : List Product) (reply : Request.Reply (.images service region)) :
    Due (before ++ [.asked (.products service region) (.ok products)] ++ [.askedImages true])
      (.asked (.images service region) reply) :=
  ⟨products, before, by rw [List.append_assoc]; rfl⟩

theorem AsksImages.isVisiting {images : List Step} (h : AsksImages service region images) :
    ∀ x ∈ images, x.isVisiting = true := by
  obtain rfl | ⟨images, rfl⟩ := h
  · exact List.forall_mem_singleton.2 rfl
  · exact List.forall_mem_cons.2 ⟨rfl, List.forall_mem_singleton.2 rfl⟩

theorem AsksImages.follows {images : List Step} (h : AsksImages service region images)
    (products : List Product) :
    Follows (before ++ [.asked (.products service region) (.ok products)]) images := by
  have hoffered (offered : Bool) :
      Due (before ++ [.asked (.products service region) (.ok products)]) (.askedImages offered) :=
    ⟨service, region, products, List.suffix_append ..⟩
  obtain rfl | ⟨images, rfl⟩ := h
  · exact .cons (hoffered false) .nil
  · exact .cons (hoffered true) (.cons (due_images products (.ok images)) .nil)

theorem AsksImages.due_versions {images : List Step} (h : AsksImages service region images)
    (products : List Product) (reply : Request.Reply (.versions service region)) :
    Due (before ++ [.asked (.products service region) (.ok products)] ++ images)
      (.asked (.versions service region) reply) :=
  ⟨products, images, h, before, by rw [List.append_assoc, List.singleton_append]⟩

theorem visits_follow {ids : Dict String String} {regions : List String} {asked : List Step}
    {whole : Bool} (h : WorkedOff (regions.flatMap (Request.visit service)) asked whole)
    (hregions : ∀ region ∈ regions, region ∈ ids.values) (hvisit : UnderVisit service ids before) :
    Follows before asked := by
  induction regions generalizing before asked with
  | nil =>
    cases h
    exact .nil
  | cons region regions ih =>
    obtain ⟨hregion, hregions⟩ := List.forall_mem_cons.1 hregions
    have hdue (reply : Request.Reply (.products service region)) :
        Due before (.asked (.products service region) reply) := ⟨ids, hvisit, hregion⟩
    cases h with
    | failed e => exact .cons (hdue (.error e)) .nil
    | answered products hproducts =>
      refine .cons (hdue (.ok products)) ?_
      obtain ⟨e, -, rfl⟩ | ⟨images, rest, himages, rfl, hrest⟩ := Visited.images_cases hproducts
      · have hoffered : Due (before ++ [.asked (.products service region) (.ok products)])
            (.askedImages true) := ⟨service, region, products, List.suffix_append ..⟩
        exact .cons hoffered (.cons (due_images products (.error e)) .nil)
      refine (himages.follows products).append ?_
      obtain ⟨e, -, rfl⟩ | ⟨versions, later, rfl, hlater⟩ := Visited.versions_cases hrest
      · exact .cons (himages.due_versions products (.error e)) .nil
      refine .cons (himages.due_versions products (.ok versions)) (ih hlater hregions ?_)
      have hproduct : UnderVisit service ids (before ++ [.asked (.products service region) (.ok products)]) :=
        hvisit.append (List.forall_mem_singleton.2 rfl)
      exact (hproduct.append himages.isVisiting).append (List.forall_mem_singleton.2 rfl)

theorem regions_follow {services : List Service} {asked : List Step} {whole : Bool}
    (h : WorkedOff (regionAgenda services) asked whole) : Follows before asked := by
  induction services generalizing before asked with
  | nil =>
    cases h
    exact .nil
  | cons s services ih =>
    cases h with
    | failed e => exact .cons trivial .nil
    | @answered _ _ asked _ ids h =>
      refine .cons trivial ?_
      have hvisit : UnderVisit s.name ids (before ++ [.asked (.regions s.name) (.ok ids)]) :=
        ⟨[], List.suffix_append .., List.forall_mem_nil _⟩
      have hids : ∀ region ∈ inOrder (ids.entries.map (·.2)), region ∈ ids.values := fun _ ↦ mem_inOrder.1
      obtain ⟨-, hvisits⟩ | ⟨first, rest, rfl, hvisits, hrest⟩ := h.of_append
      · exact visits_follow hvisits hids hvisit
      · exact (visits_follow hvisits hids hvisit).append (ih hrest)

end Follows

/-- The calls for attributes, service by service. -/
structure Tried (services : List Service) (asked : List Step) : Prop where
  calls : ∀ x ∈ asked, x.isAttribute = true
  order : requests asked <+: attributeAgenda services
  ends : EndsAtFailure asked
  whole : (∀ x ∈ asked, x.fails = false) → requests asked = attributeAgenda services

/-- The products that are due once the regions of services are listed, ascending by region. -/
def dueProducts (asked : List Step) : List Request :=
  (asked.filterMap Step.listed?).flatMap (fun l ↦ (regionIds l.2).map (.products l.1))

/-- The calls about the regions of services, service by service. -/
structure Chained (services : List Service) (asked : List Step) : Prop where
  calls : ∀ x ∈ asked, x.isRegional = true
  due : ∀ before x after, asked = before ++ x :: after → Due before x
  listings : (requests asked).filter Request.isListing <+: services.map (fun s ↦ .regions s.name)
  products : (requests asked).filter Request.isProducts <+: dueProducts asked
  ends : EndsAtFailure asked
  whole : (∀ x ∈ asked, x.fails = false) →
    (requests asked).filter Request.isListing = services.map (fun s ↦ .regions s.name) ∧
      (requests asked).filter Request.isProducts = dueProducts asked

/-- The calls of a full cycle. -/
structure InTurn (asked : List Step) : Prop where
  phases : ∃ snapshot services attributes regions,
    asked = .asked .snapshot snapshot :: .asked .services services :: (attributes ++ regions) ∧
      Tried (listed services) attributes ∧ Chained (listed services) regions
  snapshot_once : (requests asked).count .snapshot = 1
  services_once : (requests asked).count .services = 1
  withoutPrices : ∀ region, .currentPrices region ∉ requests asked
  notRetried : NotRetried asked

variable {services : List Service} {asked : List Step} {whole : Bool}

theorem followUps_of_isAttribute {r : Request} {a : r.Answer} (h : r.isAttribute = true) :
    r.followUps a = [] := by
  cases r
  case regions => cases h
  all_goals rfl

theorem tried (h : WorkedOff (attributeAgenda services) asked whole) : Tried services asked := by
  have hagenda : ∀ r ∈ attributeAgenda services, r.isAttribute = true := by
    intro r hr
    obtain ⟨s, -, name, -, rfl⟩ := mem_attributeAgenda_iff.1 hr
    rfl
  have hcalls : ∀ x ∈ asked, x.isAttribute = true := by
    refine h.forall_steps hagenda (fun r a hr r' hr' ↦ ?_) (fun _ _ hr ↦ hr) nofun
    rw [followUps_of_isAttribute hr] at hr'
    cases hr'
  have hasked : (requests asked).filter Request.isAttribute = requests asked := by
    refine List.filter_eq_self.2 fun r hr ↦ ?_
    obtain ⟨reply, hreply⟩ := Plan.mem_requests_iff.1 hr
    exact hcalls _ hreply
  have hfilter := h.filter_requests (p := Request.isAttribute) hagenda
    (fun r a hr r' hr' ↦ by rw [followUps_of_isAttribute hr] at hr'; cases hr') (fun _ _ ↦ rfl)
  rw [hasked, List.filter_eq_self.2 hagenda] at hfilter
  exact
    { calls := hcalls
      order := hfilter.1
      ends := h.endsAtFailure
      whole := fun hfails ↦ hfilter.2 (h.whole_of_fails hfails) }

theorem dueProducts_append (a b : List Step) : dueProducts (a ++ b) = dueProducts a ++ dueProducts b := by
  rw [dueProducts, List.filterMap_append, List.flatMap_append]
  rfl

theorem dueProducts_eq_nil (h : ∀ x ∈ asked, x.isVisiting = true) : dueProducts asked = [] := by
  have hnone : asked.filterMap Step.listed? = [] := by
    refine List.filterMap_eq_nil_iff.2 fun x hx ↦ ?_
    have hvisiting := h x hx
    cases x with
    | asked r reply =>
      cases r with
      | regions => cases hvisiting
      | _ => rfl
    | _ => rfl
  rw [dueProducts, hnone]
  rfl

/-- The regions of one service, visited one after the other. -/
theorem visits_products {service : String} {regions : List String}
    (h : WorkedOff (regions.flatMap (Request.visit service)) asked whole) :
    (∀ x ∈ asked, x.isVisiting = true) ∧
      (requests asked).filter Request.isProducts <+: regions.map (.products service) ∧
      (whole = true → (requests asked).filter Request.isProducts = regions.map (.products service)) := by
  have hagenda : ∀ r ∈ regions.flatMap (Request.visit service), ∀ reply, (Step.asked r reply).isVisiting = true := by
    intro r hr
    obtain ⟨region, -, hr⟩ := List.mem_flatMap.1 hr
    simp only [Request.visit, List.mem_cons, List.not_mem_nil, or_false] at hr
    rcases hr with rfl | rfl | rfl <;> exact fun _ ↦ rfl
  have hnext (r : Request) (a : r.Answer) (hr : ∀ reply, (Step.asked r reply).isVisiting = true) :
      r.followUps a = [] := by
    cases r with
    | regions service => cases hr (.ok a)
    | _ => rfl
  have hproducts : (regions.flatMap (Request.visit service)).filter Request.isProducts =
      regions.map (.products service) := by
    rw [List.filter_flatMap, List.map_eq_flatMap]
    rfl
  have hvisiting : ∀ x ∈ asked, x.isVisiting = true := by
    refine h.forall_steps hagenda (fun r a hr r' hr' ↦ ?_) (fun _ _ hr ↦ hr _) (fun _ _ _ _ ↦ rfl)
    rw [hnext r a hr] at hr'
    cases hr'
  have hfilter := h.filter_requests (p := Request.isProducts) hagenda
    (fun r a hr r' hr' ↦ by rw [hnext r a hr] at hr'; cases hr') (fun _ _ ↦ rfl)
  rw [hproducts] at hfilter
  exact ⟨hvisiting, hfilter⟩

theorem regions_products (h : WorkedOff (regionAgenda services) asked whole) :
    (requests asked).filter Request.isProducts <+: dueProducts asked ∧
      (whole = true → (requests asked).filter Request.isProducts = dueProducts asked) := by
  induction services generalizing asked with
  | nil =>
    cases h
    exact ⟨List.nil_prefix, fun _ ↦ rfl⟩
  | cons s services ih =>
    cases h with
    | failed e => exact ⟨List.nil_prefix, nofun⟩
    | @answered _ _ asked _ ids h =>
      have hids : regionIds ids = inOrder (ids.entries.map (·.2)) := ascending_eq_inOrder _
      change (requests asked).filter _ <+: (regionIds ids).map _ ++ dueProducts asked ∧
        (whole = true → (requests asked).filter _ = (regionIds ids).map _ ++ dueProducts asked)
      rw [hids]
      obtain ⟨rfl, hvisits⟩ | ⟨first, rest, rfl, hvisits, hrest⟩ := h.of_append
      · obtain ⟨hvisiting, hproducts, -⟩ := visits_products hvisits
        rw [dueProducts_eq_nil hvisiting, List.append_nil]
        exact ⟨hproducts, nofun⟩
      · obtain ⟨hvisiting, -, hproducts⟩ := visits_products hvisits
        rw [Plan.requests_append, List.filter_append, hproducts rfl, dueProducts_append,
          dueProducts_eq_nil hvisiting, List.nil_append]
        obtain ⟨hle, heq⟩ := ih hrest
        exact ⟨(List.prefix_append_right_inj _).2 hle, fun hw ↦ congrArg _ (heq hw)⟩

theorem chained (h : WorkedOff (regionAgenda services) asked whole) : Chained services asked := by
  have hagenda : ∀ r ∈ regionAgenda services, ∀ reply, (Step.asked r reply).isRegional = true := by
    intro r hr
    obtain ⟨s, -, rfl⟩ := List.mem_map.1 hr
    exact fun _ ↦ rfl
  have hnext (r : Request) (a : r.Answer) : ∀ r' ∈ r.followUps a,
      (∀ reply, (Step.asked r' reply).isRegional = true) ∧ r'.isListing = false := by
    intro r' hr'
    cases r with
    | regions service =>
      obtain ⟨region, -, hr'⟩ := List.mem_flatMap.1 hr'
      simp only [Request.visit, List.mem_cons, List.not_mem_nil, or_false] at hr'
      rcases hr' with rfl | rfl | rfl <;> exact ⟨fun _ ↦ rfl, rfl⟩
    | _ => cases hr'
  have hlistings := h.filter_requests (p := Request.isListing) hagenda (fun r a _ ↦ hnext r a) (fun _ _ ↦ rfl)
  have hall : (regionAgenda services).filter Request.isListing = regionAgenda services := by
    refine List.filter_eq_self.2 fun r hr ↦ ?_
    obtain ⟨s, -, rfl⟩ := List.mem_map.1 hr
    rfl
  rw [hall] at hlistings
  obtain ⟨hle, heq⟩ := regions_products h
  exact
    { calls := h.forall_steps hagenda (fun r a _ r' hr' ↦ (hnext r a r' hr').1) (fun _ _ hr ↦ hr _)
        fun _ _ _ _ ↦ rfl
      due :=
        have hfollows : Follows [] asked := regions_follow h
        hfollows
      listings := hlistings.1
      products := hle
      ends := h.endsAtFailure
      whole := fun hfails ↦
        have hwhole := h.whole_of_fails hfails
        ⟨hlistings.2 hwhole, heq hwhole⟩ }

theorem Tried.isAttribute (h : Tried services asked) {r : Request} (hr : r ∈ requests asked) :
    r.isAttribute = true := by
  obtain ⟨reply, hreply⟩ := Plan.mem_requests_iff.1 hr
  exact h.calls _ hreply

theorem Chained.isRegional (h : Chained services asked) {r : Request} (hr : r ∈ requests asked) :
    ∃ reply, (Step.asked r reply).isRegional = true := by
  obtain ⟨reply, hreply⟩ := Plan.mem_requests_iff.1 hr
  exact ⟨reply, h.calls _ hreply⟩

theorem Inquires.inTurn (h : Inquires asked) : InTurn asked := by
  obtain ⟨snapshot, services, attributes, regions, rfl, ⟨_, hattributes⟩, _, hregions⟩ := h
  have ha := tried hattributes
  have hr := chained hregions
  have hother {r : Request} (hattribute : r.isAttribute = false)
      (hregional : ∀ reply, (Step.asked r reply).isRegional = false) :
      r ∉ requests (attributes ++ regions) := by
    rw [Plan.requests_append, List.mem_append, not_or]
    refine ⟨fun hmem ↦ ?_, fun hmem ↦ ?_⟩
    · exact Bool.false_ne_true (hattribute.symm.trans (ha.isAttribute hmem))
    · obtain ⟨reply, hreply⟩ := hr.isRegional hmem
      exact Bool.false_ne_true ((hregional reply).symm.trans hreply)
  have hapart : ∀ r ∈ requests attributes, r ∉ requests regions := by
    intro r hattribute hregion
    have hr' := ha.isAttribute hattribute
    obtain ⟨reply, hregional⟩ := hr.isRegional hregion
    cases r with
    | attributeValues => cases hregional
    | _ => cases hr'
  have hsnapshot : Request.snapshot ∉ requests (attributes ++ regions) := hother rfl fun _ ↦ rfl
  have hservices : Request.services ∉ requests (attributes ++ regions) := hother rfl fun _ ↦ rfl
  have hrequests : requests (.asked .snapshot snapshot :: .asked .services services :: (attributes ++ regions)) =
      .snapshot :: .services :: requests (attributes ++ regions) := rfl
  exact
    { phases := ⟨snapshot, services, attributes, regions, rfl, ha, hr⟩
      snapshot_once := by
        rw [hrequests, List.count_cons_self, List.count_cons_of_ne (by decide), List.count_eq_zero.2 hsnapshot]
      services_once := by
        rw [hrequests, List.count_cons_of_ne (by decide), List.count_cons_self, List.count_eq_zero.2 hservices]
      withoutPrices := fun region hmem ↦ by
        have hprices : Request.currentPrices region ∉ requests (attributes ++ regions) := hother rfl fun _ ↦ rfl
        simp [hrequests, hprices] at hmem
      notRetried := by
        have hrest := ha.ends.notRetried.append hr.ends.notRetried hapart
        refine (hrest.cons hservices).cons ?_
        exact List.not_mem_cons_of_ne_of_not_mem nofun hsnapshot }

end FullRefresh

namespace PriceRefresh

/-- The calls of a price cycle: the listing, and then each region that is listed, in any order. -/
structure FetchesOnce (asked : List Step) : Prop where
  calls : ∃ (listing : Listing) (fetched : List Step),
    asked = .asked (.regions compute) listing :: fetched ∧
      (∀ x ∈ fetched, ∃ region reply, x = .asked (.currentPrices region) reply) ∧
      (requests fetched).Nodup ∧
      ∀ region, .currentPrices region ∈ requests fetched ↔
        ∃ ids : Dict String String, listing = .ok ids ∧ region ∈ ids.values

theorem mem_visited_iff {listing : Listing} {region : String} :
    region ∈ visited listing ↔ ∃ ids : Dict String String, listing = .ok ids ∧ region ∈ ids.values := by
  cases listing with
  | ok ids =>
    constructor
    · exact fun h ↦ ⟨ids, rfl, mem_visited_ok.1 h⟩
    · rintro ⟨_, hids, h⟩
      cases hids
      exact mem_visited_ok.2 h
  | error e =>
    constructor
    · exact fun h ↦ absurd h List.not_mem_nil
    · rintro ⟨_, hids, -⟩
      cases hids

theorem Settled.fetchesOnce {provider : String} {listing : Listing} {outcome : Outcome} {steps : List Step}
    (h : Settled provider listing outcome steps) : FetchesOnce (inquiries steps) := by
  obtain ⟨fetched, hasked, hfetched⟩ := h.asked
  have hfetch : requests ((visited listing).map (fetch outcome)) = (visited listing).map .currentPrices := by
    rw [requests, List.filterMap_map]
    exact congrFun (List.filterMap_eq_map (f := Request.currentPrices)) _
  have hrequests : (requests fetched).Perm ((visited listing).map .currentPrices) :=
    hfetch ▸ hfetched.filterMap Step.request?
  refine ⟨listing, fetched, hasked, fun x hx ↦ ?_, ?_, fun region ↦ ?_⟩
  · obtain ⟨region, -, rfl⟩ := List.mem_map.1 (hfetched.subset hx)
    exact ⟨region, outcome region, rfl⟩
  · refine hrequests.nodup_iff.2 ((visited_nodup listing).map fun region region' heq ↦ ?_)
    cases heq
    rfl
  · rw [hrequests.mem_iff, ← mem_visited_iff, List.mem_map]
    simp

end PriceRefresh

namespace Course

variable {σ : Type} (src : Source σ) (time : σ → Nat) (beside : σ → σ → Prop) (provider : String)

/-- What the calls of a cycle are like when it has ended. -/
def Disciplined : Cycle → List Step → Prop
  | .full => FullRefresh.InTurn
  | .prices => PriceRefresh.FetchesOnce

variable {src time beside provider} in
theorem disciplined_of_runs {c : Cycle} {s t : σ} {steps : List Step}
    (h : Runs src time beside provider (start provider c) s steps (ended c) t) :
    Disciplined c (inquiries steps) := by
  cases c with
  | full =>
    have hensures : (start provider .full).Ensures provider (fun steps ↦
        ∃ text, FullRefresh.Completed provider text steps) := FullRefresh.plan_ensures provider
    obtain ⟨text, hcompleted⟩ := hensures.of_ended h
    exact hcompleted.of_withoutLogs.inquires.inTurn
  | prices =>
    obtain ⟨listing, outcome, hs⟩ := PriceRefresh.settled_of_runs h
    exact hs.fetchesOnce

/-- Cycles of either kind come to their end, whatever the source makes of its calls. Their calls are then
in the order that a source may rely on; the regions that are listed are taken in ascending order, each once. -/
theorem calls_disciplined (c : Cycle) (s : σ) :
    (∀ steps d t, Runs src time beside provider (start provider c) s steps d t →
      ∃ rest u, Runs src time beside provider (start provider c) s (steps ++ rest) (ended c) u) ∧
    (∀ steps t, Runs src time beside provider (start provider c) s steps (ended c) t →
      src.Dialogue beside s (inquiries steps) t ∧ Disciplined c (inquiries steps)) ∧
    ∀ ids : Dict String String, (regionIds ids).Pairwise (· < ·) ∧
      ∀ region, region ∈ regionIds ids ↔ region ∈ ids.values := by
  refine ⟨fun steps d t h ↦ ?_, fun steps t h ↦ ⟨h.dialogue, disciplined_of_runs h⟩, fun ids ↦ ?_⟩
  · have hrest := runs_rest src time beside provider d t
    rw [h.cycle, cycle_start] at hrest
    exact ⟨_, _, h.trans hrest⟩
  · exact ⟨ascending_pairwise ids.values, fun _ ↦ mem_ascending⟩

/-- A source that goes by how often it was asked: it fails at its first, fourth and twelfth call. -/
def fickleSource : Source Nat where
  answer r n := (if n ∈ [0, 3, 11] then .error (.unavailable "") else
    match r with
    | .services => .ok [⟨"a"⟩, ⟨"a"⟩]
    | .regions _ => .ok (Dict.ofList [("E", "f"), ("F", "e"), ("G", "f")])
    | .attributeValues .. => .ok ⟨[]⟩
    | .products .. | .images .. | .versions .. => .ok []
    | .snapshot | .currentPrices _ => .ok .empty, n + 1)
  notes _ _ := []
  offersImages n := n % 2 = 0
  offersCurrentPrices _ := true

theorem calls_disciplined_fickleSource :
    let run := (FullRefresh.plan "p").run fickleSource (fun _ ↦ 7) 0
    Runs fickleSource (fun _ ↦ 7) (fun _ _ ↦ False) "p" (start "p" .full) 0 run.steps (ended .full) run.state ∧
      Disciplined .full (inquiries run.steps) ∧
      requests (inquiries run.steps) = [.snapshot, .services, .attributeValues "a" "cpu",
        .attributeValues "a" "memory", .regions "a", .products "a" "e", .images "a" "e", .versions "a" "e",
        .products "a" "f", .versions "a" "f", .regions "a", .products "a" "e"] := by
  intro run
  have hrun : Runs fickleSource (fun _ ↦ 7) (fun _ _ ↦ False) "p" (start "p" .full) 0 run.steps (ended .full)
      run.state := runs_plan fickleSource (fun _ ↦ 7) _ "p" .full 0
  exact ⟨hrun, ((calls_disciplined _ _ _ _ .full 0).2.1 _ _ hrun).2, by decide +kernel⟩

end Course

end CloudOffers
