import CloudOffers.Proofs.Refresh.FullCycle
import CloudOffers.Source.Script
/-!
What a full refresh reports under any failures: every call that fails, every visit of a region that
comes to its end, every price that it is told, and at last that it is done.
-/

namespace CloudOffers

open Plan (Step inquiries reports)
open Metrics (Event)

namespace Metrics.Event

def isPrice : Event → Bool
  | .price .. => true
  | _ => false

def isFailure : Event → Bool
  | .failure .. => true
  | _ => false

def isRegion : Event → Bool
  | .regionCompleted .. => true
  | _ => false

theorem isRegion_untimed (e : Event) : e.untimed.isRegion = e.isRegion := by cases e <;> rfl

theorem filter_map_untimed {p : Event → Bool} (h : ∀ e, p e.untimed = p e) (l : List Event) :
    (l.map untimed).filter p = (l.filter p).map untimed := by
  rw [List.filter_map]
  exact congrArg (List.map untimed) (List.filter_congr fun e _ ↦ h e)

theorem filter_untimed {p : Event → Bool} (h : ∀ e, p e.untimed = p e)
    (hsame : ∀ e, p e = true → e.untimed = e) (l : List Event) :
    (l.map untimed).filter p = l.filter p := by
  rw [filter_map_untimed h]
  have hmap : (l.filter p).map untimed = (l.filter p).map id :=
    List.map_congr_left fun e he ↦ hsame e (List.mem_filter.1 he).2
  rw [hmap, List.map_id]

theorem filter_isPrice_untimed (l : List Event) :
    (l.map untimed).filter isPrice = l.filter isPrice := by
  refine filter_untimed (fun e ↦ ?_) (fun e he ↦ ?_) l
  · cases e <;> rfl
  · cases e <;> first | rfl | cases he

theorem filter_isFailure_untimed (l : List Event) :
    (l.map untimed).filter isFailure = l.filter isFailure := by
  refine filter_untimed (fun e ↦ ?_) (fun e he ↦ ?_) l
  · cases e <;> rfl
  · cases e <;> first | rfl | cases he

theorem providerCompleted_of_untimed {e : Event} {provider : String}
    (h : e.untimed = .providerCompleted provider 0) :
    ∃ elapsed, e = .providerCompleted provider elapsed := by
  cases e with
  | providerCompleted p elapsed =>
    cases h
    exact ⟨elapsed, rfl⟩
  | _ => cases h

theorem eq_append_of_untimed {l before : List Event} {provider : String}
    (h : l.map untimed = before ++ [.providerCompleted provider 0])
    (hbefore : ∀ p n, .providerCompleted p n ∉ before) :
    ∃ first elapsed, l = first ++ [.providerCompleted provider elapsed] ∧
      ∀ p n, .providerCompleted p n ∉ first := by
  obtain ⟨first, rest, rfl, rfl, hrest⟩ := List.map_eq_append_iff.1 h
  obtain ⟨e, rfl, he⟩ := List.map_eq_singleton_iff.1 hrest
  obtain ⟨elapsed, rfl⟩ := providerCompleted_of_untimed he
  refine ⟨first, elapsed, rfl, fun p n hmem ↦ ?_⟩
  exact hbefore p 0 (List.mem_map_of_mem (f := untimed) hmem)

end Metrics.Event

namespace Plan.Step

/-- What is reported of a call that fails. -/
def failures (provider : String) : Step → List Event
  | .asked r (.error _) => r.failures provider
  | _ => []

/-- The prices that an answer tells: all of a snapshot, and of products those that are positive. -/
def prices (provider : String) : Step → List Event
  | .asked .snapshot (.ok (prices : PriceSnapshot)) => prices.entries.flatMap (fun x ↦
      x.2.entries.map (fun y ↦ .price provider x.1 y.1 y.2.onDemand))
  | .asked (.products _ region) (.ok (l : List Product)) =>
    (l.filter (·.onDemandPrice.isPositive)).map (fun p ↦
      .price provider region p.instanceType p.onDemandPrice)
  | _ => []

/-- Whether a visit of a region asks this. -/
def isVisiting : Step → Bool
  | .asked (.products ..) _ | .asked (.images ..) _ | .asked (.versions ..) _ | .askedImages _ => true
  | _ => false

variable (provider : String)

theorem filter_isFailure_accounts (x : Step) :
    (x.accounts provider).filter Event.isFailure = x.failures provider := by
  cases x with
  | asked r reply =>
    cases reply with
    | ok a =>
      refine List.filter_eq_nil_iff.2 fun e he hfailure ↦ ?_
      cases e with
      | failure p service region => exact Request.failure_not_mem_accounts provider r a _ _ _ he
      | _ => cases hfailure
    | error e => cases r <;> rfl
  | askedImages offered => rfl
  | acted time a => rfl

theorem filter_isPrice_accounts (x : Step) :
    (x.accounts provider).filter Event.isPrice = x.prices provider := by
  cases x with
  | asked r reply =>
    cases reply with
    | ok a =>
      cases r with
      | snapshot =>
        refine List.filter_eq_self.2 fun e he ↦ ?_
        obtain ⟨x, -, he⟩ := List.mem_flatMap.1 he
        obtain ⟨y, -, rfl⟩ := List.mem_map.1 he
        rfl
      | products service region =>
        refine List.filter_eq_self.2 fun e he ↦ ?_
        obtain ⟨p, -, rfl⟩ := List.mem_map.1 he
        rfl
      | _ => rfl
    | error e => cases r <;> rfl
  | askedImages offered => rfl
  | acted time a => rfl

theorem filter_isRegion_accounts {x : Step} (h : x.isVisiting = false) :
    (x.accounts provider).filter Event.isRegion = [] := by
  refine List.filter_eq_nil_iff.2 fun e he hregion ↦ ?_
  cases x with
  | asked r reply =>
    cases reply with
    | ok a =>
      cases r with
      | snapshot =>
        obtain ⟨x, -, he⟩ := List.mem_flatMap.1 he
        obtain ⟨y, -, rfl⟩ := List.mem_map.1 he
        cases hregion
      | products | images | versions => cases h
      | _ => cases he
    | error error =>
      cases e with
      | regionCompleted => cases r <;> simp [accounts, Request.failures] at he
      | _ => cases hregion
  | _ => cases he

/-- Only visits report regions. -/
theorem filter_isRegion_flatMap (asked : List Step) :
    (asked.flatMap (accounts provider)).filter Event.isRegion =
      ((asked.filter isVisiting).flatMap (accounts provider)).filter Event.isRegion := by
  induction asked with
  | nil => rfl
  | cons x asked ih =>
    rw [List.flatMap_cons, List.filter_append, ih]
    cases h : x.isVisiting with
    | true => rw [List.filter_cons_of_pos h, List.flatMap_cons, List.filter_append]
    | false =>
      rw [List.filter_cons_of_neg (ne_true_of_eq_false h), filter_isRegion_accounts provider h,
        List.nil_append]

theorem providerCompleted_not_mem_accounts (x : Step) (p : String) (elapsed : Nat) :
    .providerCompleted p elapsed ∉ x.accounts provider := by
  cases x with
  | asked r reply =>
    cases reply with
    | ok a => cases r <;> simp [accounts, Request.accounts]
    | error e => cases r <;> simp [accounts, Request.failures]
  | askedImages offered => exact List.not_mem_nil
  | acted time a => exact List.not_mem_nil

end Plan.Step

namespace WorkedOff

variable {agenda l later : List Request} {asked : List Step} {whole : Bool} {service region : String}

/-- Of two agendas the second is only begun when the first is worked off. -/
theorem of_append (h : WorkedOff (l ++ later) asked whole) :
    (whole = false ∧ WorkedOff l asked false) ∨
      ∃ first rest, asked = first ++ rest ∧ WorkedOff l first true ∧ WorkedOff later rest whole := by
  generalize hagenda : l ++ later = agenda at h
  induction h generalizing l with
  | done =>
    obtain ⟨rfl, rfl⟩ := List.append_eq_nil_iff.1 hagenda
    exact .inr ⟨[], [], rfl, .done, .done⟩
  | @failed r rest e =>
    cases l with
    | nil =>
      subst hagenda
      exact .inr ⟨[], _, rfl, .done, .failed e⟩
    | cons r' l =>
      cases hagenda
      exact .inl ⟨rfl, .failed e⟩
  | @answered r rest asked whole a h ih =>
    cases l with
    | nil =>
      subst hagenda
      exact .inr ⟨[], _, rfl, .done, .answered a h⟩
    | cons r' l =>
      cases hagenda
      obtain ⟨hwhole, hstopped⟩ | ⟨first, rest, rfl, hfirst, hrest⟩ :=
        ih (List.append_assoc (r.followUps a) l later)
      · exact .inl ⟨hwhole, .answered a hstopped⟩
      · exact .inr ⟨_, rest, by rw [List.append_assoc, List.cons_append], .answered a hfirst, hrest⟩
  | @withoutImages service region rest asked whole h ih =>
    cases l with
    | nil =>
      subst hagenda
      exact .inr ⟨[], _, rfl, .done, .withoutImages h⟩
    | cons r' l =>
      cases hagenda
      obtain ⟨hwhole, hstopped⟩ | ⟨first, rest, rfl, hfirst, hrest⟩ := ih rfl
      · exact .inl ⟨hwhole, .withoutImages hstopped⟩
      · exact .inr ⟨_, rest, rfl, .withoutImages hfirst, hrest⟩

theorem failures_ahead (provider : String) (r : Request) :
    r.ahead.flatMap (Step.failures provider) = [] := by
  cases r <;> rfl

/-- The first failure is the last thing that happens. -/
theorem length_failures_le (h : WorkedOff agenda asked whole) (provider : String) :
    (asked.flatMap (Step.failures provider)).length ≤ 1 := by
  induction h with
  | done => exact Nat.zero_le 1
  | @failed r rest e =>
    rw [List.flatMap_append, failures_ahead, List.nil_append, List.flatMap_singleton]
    cases r <;> simp [Step.failures, Request.failures]
  | @answered r rest asked whole a h ih =>
    rw [List.flatMap_append, failures_ahead, List.nil_append, List.flatMap_cons]
    exact ih
  | withoutImages h ih => exact ih

theorem filter_isVisiting_eq_nil (h : WorkedOff agenda asked whole)
    (hagenda : ∀ r ∈ agenda, ∃ service name, r = .attributeValues service name) :
    asked.filter Step.isVisiting = [] := by
  induction h with
  | done => rfl
  | failed e =>
    obtain ⟨service, name, rfl⟩ := hagenda _ List.mem_cons_self
    rfl
  | answered a h ih =>
    obtain ⟨service, name, rfl⟩ := hagenda _ List.mem_cons_self
    exact ih (List.forall_mem_cons.1 hagenda).2
  | withoutImages h ih =>
    obtain ⟨service, name, heq⟩ := hagenda _ List.mem_cons_self
    cases heq

end WorkedOff

namespace FullRefresh

/-- Images are asked for if they are offered. -/
def AsksImages (service region : String) (asked : List Step) : Prop :=
  asked = [.askedImages false] ∨
    ∃ images, asked = [.askedImages true, .asked (.images service region) (.ok images)]

/-- Visits of regions one after the other, those that come to their end, and whether all do. One does
when products, images if they are offered, and versions are answered; one that fails is the last. -/
inductive Visited : List Step → List (String × String) → Bool → Prop
  | nil : Visited [] [] true
  | withoutProducts {service region : String} (e : SourceError) :
      Visited [.asked (.products service region) (.error e)] [] false
  | withoutImages {service region : String} (products : List Product) (e : SourceError) :
      Visited [.asked (.products service region) (.ok products), .askedImages true,
        .asked (.images service region) (.error e)] [] false
  | withoutVersions {service region : String} {images : List Step} (products : List Product)
      (e : SourceError) : AsksImages service region images →
      Visited (.asked (.products service region) (.ok products) ::
        (images ++ [.asked (.versions service region) (.error e)])) [] false
  | completed {service region : String} {images rest : List Step} {done : List (String × String)}
      {whole : Bool} (products : List Product) (versions : List String) :
      AsksImages service region images → Visited rest done whole →
      Visited (.asked (.products service region) (.ok products) ::
        (images ++ .asked (.versions service region) (.ok versions) :: rest))
        ((service, region) :: done) whole

namespace Visited

variable {service : String} {later : List Request} {asked rest : List Step}
  {done done' : List (String × String)} {whole : Bool}

theorem append (h : Visited asked done true) (h' : Visited rest done' whole) :
    Visited (asked ++ rest) (done ++ done') whole := by
  generalize hall : true = all at h
  induction h with
  | nil => exact h'
  | completed products versions himages _ ih =>
    rw [List.cons_append, List.append_assoc, List.cons_append]
    exact .completed products versions himages (ih hall)
  | withoutProducts | withoutImages | withoutVersions => cases hall

theorem filter_isVisiting (h : Visited asked done whole) : asked.filter Step.isVisiting = asked := by
  refine List.filter_eq_self.2 ?_
  induction h with
  | nil => exact List.forall_mem_nil _
  | withoutProducts e => simp [Step.isVisiting]
  | withoutImages products e => simp [Step.isVisiting]
  | withoutVersions products e himages =>
    obtain rfl | ⟨images, rfl⟩ := himages <;> simp [Step.isVisiting]
  | completed products versions himages _ ih =>
    obtain rfl | ⟨images, rfl⟩ := himages <;> simpa [Step.isVisiting] using ih

/-- Products report prices only. -/
theorem filter_isRegion_products (provider service region : String) (products : List Product)
    (later : List Event) :
    (Request.accounts provider (.products service region) products ++ later).filter Event.isRegion =
      later.filter Event.isRegion := by
  have hnone : (Request.accounts provider (.products service region) products).filter
      Event.isRegion = [] := by
    refine List.filter_eq_nil_iff.2 fun e he ↦ ?_
    obtain ⟨p, -, rfl⟩ := List.mem_map.1 he
    exact Bool.false_ne_true
  rw [List.filter_append, hnone, List.nil_append]

/-- A visit is reported when it comes to its end. -/
theorem filter_isRegion (h : Visited asked done whole) (provider : String) :
    (asked.flatMap (Step.accounts provider)).filter Event.isRegion =
      done.map (fun v ↦ .regionCompleted provider v.1 v.2 0) := by
  induction h with
  | nil => rfl
  | withoutProducts e => rfl
  | @withoutImages service region products e => exact filter_isRegion_products provider service region products _
  | @withoutVersions service region images products e himages =>
    obtain rfl | ⟨images, rfl⟩ := himages
    · exact filter_isRegion_products provider service region products _
    · exact filter_isRegion_products provider service region products _
  | @completed service region images rest done whole products versions himages _ ih =>
    rw [List.map_cons, ← ih]
    obtain rfl | ⟨images, rfl⟩ := himages
    · exact filter_isRegion_products provider service region products _
    · exact filter_isRegion_products provider service region products _

theorem versions_cases {region : String}
    (h : WorkedOff (.versions service region :: later) asked whole) :
    (∃ e, whole = false ∧ asked = [.asked (.versions service region) (.error e)]) ∨
      ∃ versions rest, asked = .asked (.versions service region) (.ok versions) :: rest ∧
        WorkedOff later rest whole := by
  cases h with
  | failed e => exact .inl ⟨e, rfl, rfl⟩
  | answered versions h => exact .inr ⟨versions, _, rfl, h⟩

theorem images_cases {region : String}
    (h : WorkedOff (.images service region :: later) asked whole) :
    (∃ e, whole = false ∧
      asked = [.askedImages true, .asked (.images service region) (.error e)]) ∨
    ∃ images rest, AsksImages service region images ∧ asked = images ++ rest ∧
      WorkedOff later rest whole := by
  cases h with
  | failed e => exact .inl ⟨e, rfl, rfl⟩
  | answered images h => exact .inr ⟨_, _, .inr ⟨images, rfl⟩, rfl, h⟩
  | withoutImages h => exact .inr ⟨_, _, .inl rfl, rfl, h⟩

theorem of_workedOff {regions : List String}
    (h : WorkedOff (regions.flatMap (Request.visit service)) asked whole) :
    ∃ done, Visited asked done whole := by
  induction regions generalizing asked with
  | nil =>
    cases h
    exact ⟨[], .nil⟩
  | cons region regions ih =>
    cases h with
    | failed e => exact ⟨[], .withoutProducts e⟩
    | answered products hproducts =>
      obtain ⟨e, rfl, rfl⟩ | ⟨images, rest, himages, rfl, hrest⟩ := images_cases hproducts
      · exact ⟨[], .withoutImages products e⟩
      obtain ⟨e, rfl, rfl⟩ | ⟨versions, rest, rfl, hlater⟩ := versions_cases hrest
      · exact ⟨[], .withoutVersions products e himages⟩
      obtain ⟨done, hdone⟩ := ih hlater
      exact ⟨_, .completed products versions himages hdone⟩

/-- The regions of one service after the other are listed and visited. -/
theorem of_regionAgenda {services : List Service}
    (h : WorkedOff (regionAgenda services) asked whole) :
    ∃ done all, Visited (asked.filter Step.isVisiting) done all := by
  induction services generalizing asked with
  | nil =>
    cases h
    exact ⟨[], true, .nil⟩
  | cons s services ih =>
    cases h with
    | failed e => exact ⟨[], true, .nil⟩
    | @answered _ _ asked _ regions h =>
      change ∃ done all, Visited (asked.filter Step.isVisiting) done all
      obtain ⟨-, hvisits⟩ | ⟨first, rest, rfl, hvisits, hrest⟩ := h.of_append
      · obtain ⟨done, hdone⟩ := of_workedOff hvisits
        rw [hdone.filter_isVisiting]
        exact ⟨done, false, hdone⟩
      · obtain ⟨done, hdone⟩ := of_workedOff hvisits
        obtain ⟨done', all, hdone'⟩ := ih hrest
        rw [List.filter_append, hdone.filter_isVisiting]
        exact ⟨done ++ done', all, hdone.append hdone'⟩

end Visited

/-- What a full refresh reports for what it asks and is answered. -/
structure Accounted (provider : String) (steps : List Step) : Prop where
  completed : ∃ before elapsed, reports steps = before ++ [.providerCompleted provider elapsed] ∧
    ∀ p n, .providerCompleted p n ∉ before
  /-- Every call that fails is reported, besides that for the snapshot. -/
  failures : (reports steps).filter Event.isFailure =
    (inquiries steps).flatMap (Step.failures provider)
  failures_le : ((reports steps).filter Event.isFailure).length ≤ 2
  failures_le_of_services : ∀ e, .asked .services (.error e) ∈ inquiries steps →
    ((reports steps).filter Event.isFailure).length ≤ 1
  regions : ∃ done whole, Visited ((inquiries steps).filter Step.isVisiting) done whole ∧
    ((reports steps).filter Event.isRegion).map Event.untimed =
      done.map (fun v ↦ .regionCompleted provider v.1 v.2 0)
  prices : (reports steps).filter Event.isPrice = (inquiries steps).flatMap (Step.prices provider)

variable {provider : String}

theorem ne_services_of_mem_followUps {r r' : Request} {a : r.Answer} (h : r' ∈ r.followUps a) :
    r' ≠ .services := by
  cases r with
  | regions service =>
    obtain ⟨region, -, hr'⟩ := List.mem_flatMap.1 h
    rintro rfl
    simp [Request.visit] at hr'
  | _ => cases h

/-- The services are asked for once. -/
theorem services_not_mem {services : List Service} {attributes regions : List Step}
    {whole whole' : Bool} (hattributes : WorkedOff (attributeAgenda services) attributes whole)
    (hregions : WorkedOff (regionAgenda services) regions whole')
    (reply : Request.services.Reply) : .asked .services reply ∉ attributes ++ regions := by
  intro hmem
  obtain hmem | hmem := List.mem_append.1 hmem
  · refine hattributes.requests (P := (· ≠ .services)) ?_
      (fun _ _ _ _ ↦ ne_services_of_mem_followUps) _ reply hmem rfl
    intro r hr
    obtain ⟨s, -, name, -, rfl⟩ := mem_attributeAgenda_iff.1 hr
    exact Request.noConfusion
  · refine hregions.requests (P := (· ≠ .services)) ?_
      (fun _ _ _ _ ↦ ne_services_of_mem_followUps) _ reply hmem rfl
    intro r hr
    obtain ⟨s, -, rfl⟩ := List.mem_map.1 hr
    exact Request.noConfusion

theorem Inquires.length_failures_le {asked : List Step} (h : Inquires asked) (provider : String) :
    (asked.flatMap (Step.failures provider)).length ≤ 2 ∧
      ∀ e, .asked .services (.error e) ∈ asked →
        (asked.flatMap (Step.failures provider)).length ≤ 1 := by
  obtain ⟨snapshot, services, attributes, regions, rfl, ⟨_, hattributes⟩, _, hregions⟩ := h
  have hsnapshot : Step.failures provider (.asked .snapshot snapshot) = [] := by
    cases snapshot <;> rfl
  rw [List.flatMap_cons, hsnapshot, List.nil_append, List.flatMap_cons]
  cases services with
  | ok services =>
    have hattributes' := hattributes.length_failures_le provider
    have hregions' := hregions.length_failures_le provider
    constructor
    · change (List.flatMap _ (attributes ++ regions)).length ≤ 2
      rw [List.flatMap_append, List.length_append]
      omega
    · intro e hmem
      have hrest : .asked .services (.error e) ∈ attributes ++ regions := by simpa using hmem
      exact absurd hrest (services_not_mem hattributes hregions _)
  | error e =>
    -- nothing is listed, so nothing more is asked
    cases hattributes
    cases hregions
    exact ⟨Nat.le_succ 1, fun _ _ ↦ Nat.le_refl 1⟩

theorem Inquires.visited {asked : List Step} (h : Inquires asked) :
    ∃ done all, Visited (asked.filter Step.isVisiting) done all := by
  obtain ⟨snapshot, services, attributes, regions, rfl, ⟨_, hattributes⟩, _, hregions⟩ := h
  have hnames : ∀ r ∈ attributeAgenda (listed services), ∃ service name,
      r = .attributeValues service name := by
    intro r hr
    obtain ⟨s, -, name, -, rfl⟩ := mem_attributeAgenda_iff.1 hr
    exact ⟨s.name, name, rfl⟩
  change ∃ done all, Visited ((attributes ++ regions).filter Step.isVisiting) done all
  rw [List.filter_append, hattributes.filter_isVisiting_eq_nil hnames]
  exact Visited.of_regionAgenda hregions

variable {σ : Type} {src : Source σ} {time : σ → Nat} {beside : σ → σ → Prop} {s t : σ}
  {steps : List Step}

theorem accounted_of_advances
    (h : Plan.Advances src time beside (plan provider) s steps (.done ()) t) :
    Accounted provider steps := by
  obtain ⟨text, hcompleted⟩ := completed_of_advances h
  have hreports := hcompleted.reported
  have hfailures : (reports steps).filter Event.isFailure =
      (inquiries steps).flatMap (Step.failures provider) := by
    rw [← Event.filter_isFailure_untimed, hreports, List.filter_append, List.filter_flatMap]
    simp only [Step.filter_isFailure_accounts]
    exact List.append_nil _
  have hprices : (reports steps).filter Event.isPrice =
      (inquiries steps).flatMap (Step.prices provider) := by
    rw [← Event.filter_isPrice_untimed, hreports, List.filter_append, List.filter_flatMap]
    simp only [Step.filter_isPrice_accounts]
    exact List.append_nil _
  obtain ⟨done, all, hdone⟩ := hcompleted.inquires.visited
  have hregions : ((reports steps).filter Event.isRegion).map Event.untimed =
      done.map (fun v ↦ .regionCompleted provider v.1 v.2 0) := by
    rw [← Event.filter_map_untimed Event.isRegion_untimed, hreports, List.filter_append,
      Step.filter_isRegion_flatMap, hdone.filter_isRegion]
    exact List.append_nil _
  have hnone (p : String) (n : Nat) :
      .providerCompleted p n ∉ (inquiries steps).flatMap (Step.accounts provider) := by
    intro hmem
    obtain ⟨x, -, hx⟩ := List.mem_flatMap.1 hmem
    exact x.providerCompleted_not_mem_accounts provider p n hx
  obtain ⟨hle, hle'⟩ := hcompleted.inquires.length_failures_le provider
  rw [← hfailures] at hle hle'
  exact
    { completed := Event.eq_append_of_untimed hreports hnone
      failures := hfailures
      failures_le := hle
      failures_le_of_services := hle'
      regions := ⟨done, all, hdone, hregions⟩
      prices := hprices }

variable (src time beside s)

/-- Whatever fails, and whatever happens beside it, a full refresh comes to its end. It then has
reported what it asked and was answered, each thing once, and last that it is done. -/
theorem accounted :
    (∀ steps p t, Plan.Advances src time beside (plan provider) s steps p t →
      ∃ rest u, Plan.Advances src time beside (plan provider) s (steps ++ rest) (.done ()) u) ∧
    ∀ steps t, Plan.Advances src time beside (plan provider) s steps (.done ()) t →
      Accounted provider steps :=
  ⟨fun _ p t h ↦ ⟨_, _, h.trans (Plan.advances_run_unit p t)⟩, fun _ _ h ↦ accounted_of_advances h⟩

/-- Two regions, of which the second lists a product and then no images. -/
def haltingScript : Script where
  snapshot := Dict.ofList [("e", Dict.ofList [("t", ⟨.ofNat 3, .empty⟩)])]
  services := [⟨"a"⟩]
  attributeValues := .empty
  regions := Dict.ofList [("a", Dict.ofList [("E", "e"), ("F", "f"), ("G", "g")])]
  products := Dict.ofList [("a", Dict.ofList [("f", [
    ⟨"t", .ofNat 2, .empty, .ofNat 1, .ofNat 2, .zero, "", "", [], .empty, false⟩])])]
  offersImages := true
  images := .empty
  versions := .empty
  offersCurrentPrices := false
  currentPrices := .empty
  delay _ := 0
  rules := [(⟨.images, none, none, none, 1, none, .unreadable ""⟩, 0)]

theorem accounted_haltingScript :
    let run := (plan "p").run Script.source (fun _ ↦ 7) haltingScript
    Plan.Advances Script.source (fun _ ↦ 7) (fun _ _ ↦ False) (plan "p") haltingScript run.steps
        (.done ()) run.state ∧ Accounted "p" run.steps ∧
      reports run.steps = [.price "p" "e" "t" (.ofNat 3), .regionCompleted "p" "a" "e" 0,
        .price "p" "f" "t" (.ofNat 2), .failure "p" "a" "f", .providerCompleted "p" 0] := by
  intro run
  have hrun : Plan.Advances Script.source (fun _ ↦ 7) (fun _ _ ↦ False) (plan "p") haltingScript
      run.steps (.done ()) run.state := Plan.advances_run_unit (plan "p") _
  exact ⟨hrun, (accounted _ _ _ _).2 _ _ hrun, by decide +kernel⟩

end FullRefresh

end CloudOffers
