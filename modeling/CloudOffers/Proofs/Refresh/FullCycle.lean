import CloudOffers.Proofs.Dict
import CloudOffers.Proofs.Refresh.Execution
import CloudOffers.Refresh.Full
/-!
What a full refresh does under any failures. Its parts work agendas off: each request in turn, up to
the first that fails, an answer with what follows from it before the rest. All that is published and
reported is determined by the answers.
-/

namespace CloudOffers

open Plan (Step Amounts Ensures inquiries writes reports)
open Metrics (notApplicable)

namespace Request

variable (provider : String)

/-- What is published of an answer. -/
def publications : (r : Request) → r.Answer → List Publication
  | .snapshot, (prices : PriceSnapshot) => prices.entries.flatMap (fun x ↦
      x.2.entries.map (fun y ↦ ⟨.price provider x.1 y.1, y.2⟩))
  | .services, answer => [⟨.services provider, answer⟩]
  | .attributeValues service name, answer => [⟨.attributes provider service name, answer⟩]
  | .regions service, answer => [⟨.regions provider service, answer⟩]
  | .products service region, (l : List Product) =>
    (if l.flatMap (·.zones) = [] then [] else [⟨.zones provider region, inOrder (l.flatMap (·.zones))⟩]) ++
      [⟨.products provider service region, l⟩]
  | .images service region, answer => [⟨.images provider service region, answer⟩]
  | .versions service region, answer => [⟨.versions provider service region, answer⟩]
  | .currentPrices region, (prices : Dict String Price) =>
    prices.entries.map (fun x ↦ ⟨.price provider region x.1, x.2⟩)

def asksPrices : Request → Bool
  | .snapshot | .currentPrices _ => true
  | _ => false

theorem ne_snapshot {r : Request} (h : r.asksPrices = false) : r ≠ .snapshot := by
  rintro rfl
  cases h

theorem mem_snapshot_publications_iff {prices : PriceSnapshot} {x : Publication} :
    x ∈ Request.snapshot.publications provider prices ↔
      ∃ region, ∃ d : Dict String Price, ∃ instanceType price,
        prices.get? region = some d ∧ d.get? instanceType = some price ∧
          x = ⟨.price provider region instanceType, price⟩ := by
  rw [publications, List.mem_flatMap]
  constructor
  · rintro ⟨⟨region, d⟩, hregion, hx⟩
    obtain ⟨⟨instanceType, price⟩, hprice, rfl⟩ := List.mem_map.1 hx
    exact ⟨region, d, instanceType, price, Dict.mem_entries_iff.1 hregion,
      Dict.mem_entries_iff.1 hprice, rfl⟩
  · rintro ⟨region, d, instanceType, price, hregion, hprice, rfl⟩
    exact ⟨(region, d), Dict.mem_entries_iff.2 hregion,
      List.mem_map.2 ⟨(instanceType, price), Dict.mem_entries_iff.2 hprice, rfl⟩⟩

/-- What is published is under keys of the provider, and it is prices if they were asked for. -/
theorem key_of_mem_publications {r : Request} {a : r.Answer} {x : Publication}
    (h : x ∈ r.publications provider a) :
    x.1.provider = provider ∧ (x.1.category = .prices ↔ r.asksPrices = true) := by
  cases r with
  | snapshot =>
    obtain ⟨region, d, instanceType, price, -, -, rfl⟩ := (mem_snapshot_publications_iff provider).1 h
    exact ⟨rfl, by simp [Key.category, asksPrices]⟩
  | currentPrices region =>
    obtain ⟨_, -, rfl⟩ := List.mem_map.1 h
    exact ⟨rfl, by simp [Key.category, asksPrices]⟩
  | products service region =>
    rcases List.mem_append.1 h with hx | hx
    · split at hx
      · cases hx
      · rw [List.mem_singleton.1 hx]
        exact ⟨rfl, by simp [Key.category, asksPrices]⟩
    · rw [List.mem_singleton.1 hx]
      exact ⟨rfl, by simp [Key.category, asksPrices]⟩
  | _ =>
    rw [List.mem_singleton.1 h]
    exact ⟨rfl, by simp [Key.category, asksPrices]⟩

/-- What is reported of an answer, besides how long it took. -/
def accounts : (r : Request) → r.Answer → List Metrics.Event
  | .snapshot, (prices : PriceSnapshot) => prices.entries.flatMap (fun x ↦
      x.2.entries.map (fun y ↦ .price provider x.1 y.1 y.2.onDemand))
  | .products _ region, (l : List Product) =>
    (l.filter (·.onDemandPrice.isPositive)).map (fun p ↦
      .price provider region p.instanceType p.onDemandPrice)
  | .versions service region, _ => [.regionCompleted provider service region 0]
  | _, _ => []

theorem failure_not_mem_accounts (r : Request) (a : r.Answer) (p service region : String) :
    .failure p service region ∉ r.accounts provider a := by
  cases r <;> simp [accounts]

def failures : Request → List Metrics.Event
  | .services | .attributeValues .. => [.failure provider notApplicable notApplicable]
  | .regions service => [.failure provider service notApplicable]
  | .products service region | .images service region | .versions service region =>
    [.failure provider service region]
  | .snapshot | .currentPrices _ => []

def visit (service region : String) : List Request :=
  [.products service region, .images service region, .versions service region]

/-- What an answer gives cause to ask, before anything else: each region that a map names, once. -/
def followUps : (r : Request) → r.Answer → List Request
  | .regions service, (ids : Dict String String) => (inOrder (ids.entries.map (·.2))).flatMap (visit service)
  | _, _ => []

/-- What is asked before a request: images only if they are offered. -/
def ahead : Request → List Step
  | .images .. => [.askedImages true]
  | _ => []

end Request

namespace Plan.Step

variable (provider : String)

def publications : Step → List Publication
  | .asked r (.ok a) => r.publications provider a
  | _ => []

theorem provider_of_mem_publications {x : Step} {y : Publication} (h : y ∈ x.publications provider) :
    y.1.provider = provider := by
  cases x with
  | asked r reply =>
    cases reply with
    | ok a => exact (Request.key_of_mem_publications provider h).1
    | error e => cases h
  | askedImages offered => cases h
  | acted time a => cases h

def accounts : Step → List Metrics.Event
  | .asked r (.ok a) => r.accounts provider a
  | .asked r (.error _) => r.failures provider
  | _ => []

end Plan.Step

/-- An agenda as it is worked off by inquiries, and whether all of it is. -/
inductive WorkedOff : List Request → List Step → Bool → Prop
  | done : WorkedOff [] [] true
  | failed {r : Request} {rest : List Request} (e : SourceError) :
      WorkedOff (r :: rest) (r.ahead ++ [.asked r (.error e)]) false
  | answered {r : Request} {rest : List Request} {asked : List Step} {whole : Bool} (a : r.Answer) :
      WorkedOff (r.followUps a ++ rest) asked whole →
        WorkedOff (r :: rest) (r.ahead ++ .asked r (.ok a) :: asked) whole
  | withoutImages {service region : String} {rest : List Request} {asked : List Step} {whole : Bool} :
      WorkedOff rest asked whole →
        WorkedOff (.images service region :: rest) (.askedImages false :: asked) whole

namespace WorkedOff

variable {agenda later : List Request} {asked asked' : List Step} {whole : Bool}

/-- What comes later on an agenda is not asked once something failed. -/
theorem stopped (h : WorkedOff agenda asked false) (later : List Request) :
    WorkedOff (agenda ++ later) asked false := by
  generalize hw : false = w at h
  induction h with
  | done => cases hw
  | failed e => exact .failed e
  | answered a _ ih =>
    rw [List.cons_append]
    refine .answered a ?_
    rw [← List.append_assoc]
    exact ih hw
  | withoutImages _ ih => exact .withoutImages (ih hw)

theorem append (h : WorkedOff agenda asked true) (h' : WorkedOff later asked' whole) :
    WorkedOff (agenda ++ later) (asked ++ asked') whole := by
  generalize hw : true = w at h
  induction h with
  | done => exact h'
  | failed e => cases hw
  | answered a _ ih =>
    rw [List.cons_append, List.append_assoc, List.cons_append]
    refine .answered a ?_
    rw [← List.append_assoc]
    exact ih hw
  | withoutImages _ ih => exact .withoutImages (ih hw)

theorem requests {P : Request → Prop} (h : WorkedOff agenda asked whole) (ha : ∀ r ∈ agenda, P r)
    (hf : ∀ r a, P r → ∀ r' ∈ r.followUps a, P r') (r : Request) (reply : r.Reply)
    (hmem : .asked r reply ∈ asked) : P r := by
  have hahead (r r' : Request) (reply : r'.Reply) : Step.asked r' reply ∉ r.ahead := by
    cases r <;> simp [Request.ahead]
  induction h with
  | done => cases hmem
  | @failed r' rest e =>
    rcases List.mem_append.1 hmem with hmem | hmem
    · exact absurd hmem (hahead r' r reply)
    · cases List.mem_singleton.1 hmem
      exact ha r List.mem_cons_self
  | @answered r' rest asked whole a h ih =>
    obtain ⟨hr', hrest⟩ := List.forall_mem_cons.1 ha
    rcases List.mem_append.1 hmem with hmem | hmem
    · exact absurd hmem (hahead r' r reply)
    rcases List.mem_cons.1 hmem with heq | hmem
    · cases heq
      exact hr'
    · exact ih (List.forall_mem_append.2 ⟨hf r' a hr', hrest⟩) hmem
  | withoutImages h ih =>
    rcases List.mem_cons.1 hmem with heq | hmem
    · cases heq
    · exact ih (List.forall_mem_cons.1 ha).2 hmem

end WorkedOff

namespace FullRefresh

variable {α β : Type}

section Rules

variable {Q : List Step → Except RefreshError β → Prop}

theorem ensures_bind {part : Part α} {f : α → Part β}
    (h : part.run.Ensures (fun first x ↦
      match x with
      | .ok a => (f a).run.Ensures (fun rest y ↦ Q (first ++ rest) y)
      | .error e => Q first (.error e))) :
    (part >>= f).run.Ensures Q := by
  rw [ExceptT.run_bind]
  apply Ensures.bind
  apply h.mono
  intro first x hx
  cases x with
  | ok a => exact hx
  | error e =>
    change Q (first ++ []) (.error e)
    rwa [List.append_nil]

theorem ensures_lift {p : Plan α} {f : α → Part β}
    (h : p.Ensures (fun first a ↦ (f a).run.Ensures (fun rest y ↦ Q (first ++ rest) y))) :
    (liftM p >>= f : Part β).run.Ensures Q := by
  rw [ExceptT.run_bind, ExceptT.run_liftM, bind_map_left]
  exact Ensures.bind h

theorem ensures_liftM {p : Plan β} (h : p.Ensures (fun steps a ↦ Q steps (.ok a))) :
    (liftM p : Part β).run.Ensures Q := by
  rw [ExceptT.run_liftM, map_eq_pure_bind]
  apply Ensures.bind
  apply h.mono
  intro steps a ha
  change Q (steps ++ []) (.ok a)
  rwa [List.append_nil]

theorem ensures_now {f : Nat → Part β} (h : ∀ time, (f time).run.Ensures Q) :
    (liftM Plan.now >>= f : Part β).run.Ensures Q := ensures_lift h

theorem ensures_put {k : Key} {v : k.Payload} {f : Unit → Part β}
    (h : ∀ time, (f ()).run.Ensures (fun rest y ↦ Q (.acted time (.put k v) :: rest) y)) :
    (liftM (Plan.put k v) >>= f : Part β).run.Ensures Q := ensures_lift h

theorem ensures_log {e : Log.Event} {f : Unit → Part β} (h : (f ()).run.Ensures Q) :
    (liftM (Plan.log e) >>= f : Part β).run.Ensures Q := ensures_lift fun _ ↦ h

theorem ensures_imagesOffered {f : Bool → Part β}
    (h : ∀ offered, (f offered).run.Ensures (fun rest y ↦ Q (.askedImages offered :: rest) y)) :
    (liftM Plan.imagesOffered >>= f : Part β).run.Ensures Q := ensures_lift h

theorem ensures_need {r : Request} {failed : SourceError → RefreshError} {f : r.Answer → Part β}
    (hok : ∀ a, (f a).run.Ensures (fun rest y ↦ Q (.asked r (.ok a) :: rest) y))
    (hfail : ∀ e, Q [.asked r (.error e)] (.error (failed e))) :
    (need r failed >>= f).run.Ensures Q := by
  apply ensures_bind
  intro reply
  cases reply with
  | ok a => exact hok a
  | error e => exact hfail e

theorem ensures_reporting {event : Metrics.Event} {part : Part β}
    (h : part.run.Ensures (fun steps x ↦
      match x with
      | .ok a => Q steps (.ok a)
      | .error e => ∀ time, Q (steps ++ [.acted time (.report event)]) (.error e))) :
    (reporting event part).run.Ensures Q := by
  rw [reporting, ExceptT.run_tryCatch]
  apply Ensures.bind
  apply h.mono
  intro steps x hx
  cases x with
  | ok a =>
    change Q (steps ++ []) (.ok a)
    rwa [List.append_nil]
  | error e => exact ensures_lift fun time ↦ hx time

theorem ensures_reporting_need {event : Metrics.Event} {r : Request}
    {failed : SourceError → RefreshError} {f : r.Answer → Part β}
    (hok : ∀ a, (f a).run.Ensures (fun rest y ↦ Q (.asked r (.ok a) :: rest) y))
    (hfail : ∀ e time, Q [.asked r (.error e), .acted time (.report event)] (.error (failed e))) :
    (reporting event (need r failed) >>= f).run.Ensures Q := by
  apply ensures_bind
  apply ensures_reporting
  intro reply
  cases reply with
  | ok a => exact hok a
  | error e => exact hfail e

end Rules

variable (provider : String)

/-- Steps with some inquiries that publish and report what the answers call for, and nothing else. -/
def Heeds (asked steps : List Step) : Prop :=
  Amounts steps asked (asked.flatMap (Step.publications provider))
    (asked.flatMap (Step.accounts provider))

theorem Heeds.append {provider} {asked asked' steps steps' : List Step}
    (h : Heeds provider asked steps) (h' : Heeds provider asked' steps') :
    Heeds provider (asked ++ asked') (steps ++ steps') := by
  rw [Heeds, List.flatMap_append, List.flatMap_append]
  exact Amounts.append h h'

/-- Steps that work an agenda off and do what its answers call for. -/
def Settles (agenda : List Request) (steps : List Step) (whole : Bool) : Prop :=
  ∃ asked, WorkedOff agenda asked whole ∧ Heeds provider asked steps

namespace Settles

variable {provider} {agenda later : List Request} {steps done : List Step} {whole : Bool}

theorem nil : Settles provider [] [] true := ⟨[], .done, .nil⟩

theorem stopped (h : Settles provider agenda steps false) (later : List Request) :
    Settles provider (agenda ++ later) steps false := by
  obtain ⟨asked, hw, ha⟩ := h
  exact ⟨asked, hw.stopped later, ha⟩

theorem append (h : Settles provider agenda done true) (h' : Settles provider later steps whole) :
    Settles provider (agenda ++ later) (done ++ steps) whole := by
  obtain ⟨asked, hw, ha⟩ := h
  obtain ⟨asked', hw', ha'⟩ := h'
  exact ⟨asked ++ asked', hw.append hw', ha.append ha'⟩

theorem amounts_ahead (r : Request) : Amounts r.ahead r.ahead [] [] := by
  cases r <;> exact ⟨rfl, rfl, rfl⟩

theorem accounts_ahead (r : Request) : r.ahead.flatMap (Step.accounts provider) = [] := by
  cases r <;> rfl

theorem publications_ahead (r : Request) : r.ahead.flatMap (Step.publications provider) = [] := by
  cases r <;> rfl

theorem failed {r : Request} (e : SourceError) (later : List Request)
    (hd : Amounts done [] [] (r.failures provider)) :
    Settles provider (r :: later) (r.ahead ++ .asked r (.error e) :: done) false := by
  refine ⟨_, .failed e, ?_⟩
  rw [Heeds, List.flatMap_append, List.flatMap_append, publications_ahead, accounts_ahead]
  have h := (amounts_ahead r).append (hd.asked_cons r (.error e))
  simpa [Step.publications, Step.accounts] using h

theorem answered {r : Request} (a : r.Answer)
    (hd : Amounts done [] (r.publications provider a) (r.accounts provider a))
    (h : Settles provider (r.followUps a ++ later) steps whole) :
    Settles provider (r :: later) (r.ahead ++ .asked r (.ok a) :: (done ++ steps)) whole := by
  obtain ⟨asked, hw, ha⟩ := h
  refine ⟨_, .answered a hw, ?_⟩
  rw [Heeds, List.flatMap_append, List.flatMap_append, publications_ahead, accounts_ahead]
  exact (amounts_ahead r).append (Amounts.asked_cons (hd.append ha) r (.ok a))

theorem single {r : Request} (a : r.Answer)
    (hd : Amounts done [] (r.publications provider a) (r.accounts provider a))
    (hf : r.followUps a = []) :
    Settles provider [r] (r.ahead ++ .asked r (.ok a) :: done) true := by
  have hn : Settles provider (r.followUps a ++ []) [] true := by
    rw [hf]
    exact .nil
  have h := answered a hd hn
  rwa [List.append_nil] at h

theorem withoutImages (service region : String) (h : Settles provider later steps whole) :
    Settles provider (.images service region :: later) (.askedImages false :: steps) whole := by
  obtain ⟨asked, hw, ha⟩ := h
  exact ⟨_, .withoutImages hw, Amounts.askedImages_cons ha false⟩

end Settles

/-- A part that works an agenda off, and succeeds if it comes to its end. -/
def Covers (part : Part Unit) (agenda : List Request) : Prop :=
  part.run.Ensures (fun steps x ↦ Settles provider agenda steps x.isOk)

theorem covers_forM {f : α → Part Unit} {agenda : α → List Request}
    (h : ∀ x, Covers provider (f x) (agenda x)) (l : List α) :
    Covers provider (l.forM f) (l.flatMap agenda) := by
  induction l with
  | nil => exact Settles.nil
  | cons x l ih =>
    change (f x >>= fun _ ↦ l.forM f).run.Ensures _
    apply ensures_bind
    apply (h x).mono
    intro first y hx
    cases y with
    | ok _ => exact ih.mono fun rest z hl ↦ hx.append hl
    | error e => exact hx.stopped _

def attributeAgenda (services : List Service) : List Request :=
  services.flatMap (fun s ↦ [.attributeValues s.name "cpu", .attributeValues s.name "memory"])

theorem mem_attributeAgenda_iff {services : List Service} {r : Request} : r ∈ attributeAgenda services ↔
    ∃ s ∈ services, ∃ name ∈ ["cpu", "memory"], r = .attributeValues s.name name := by
  simp [attributeAgenda]

/-- The regions of each service; what there is to ask about a region follows from the answer. -/
def regionAgenda (services : List Service) : List Request := services.map (fun s ↦ .regions s.name)

variable (service region : String)

theorem publishAttribute_covers (name : String) :
    Covers provider (publishAttribute provider service name) [.attributeValues service name] := by
  apply ensures_reporting_need
  case hok =>
    intro values
    apply ensures_liftM
    intro time
    exact Settles.single values (.put time (.attributes provider service name) values) rfl
  case hfail =>
    intro e time
    exact Settles.failed e [] (.report time _)

theorem publishAttributes_covers (services : List Service) :
    Covers provider (publishAttributes provider services) (attributeAgenda services) := by
  apply covers_forM
  intro s
  exact covers_forM provider (publishAttribute_covers provider s.name) Attribute.all

theorem zonesOf_eq_inOrder (l : List Product) : zonesOf l = inOrder (l.flatMap (·.zones)) :=
  ascending_eq_inOrder _

theorem isEmpty_zonesOf {l : List Product} : (zonesOf l).isEmpty = true ↔ l.flatMap (·.zones) = [] := by
  simp only [List.isEmpty_iff, List.eq_nil_iff_forall_not_mem, zonesOf, mem_ascending]

theorem publishProducts_ensures (l : List Product) :
    (publishProducts provider service region l).Ensures (fun steps _ ↦
      Amounts steps [] ((Request.products service region).publications provider l)
        ((Request.products service region).accounts provider l)) := by
  let price (p : Product) : Metrics.Event := .price provider region p.instanceType p.onDemandPrice
  have hprices := Ensures.forM (f := fun p ↦ Plan.report (price p))
    (fun p time ↦ Amounts.report time (price p))
  apply Ensures.bind
  apply (hprices _).mono
  intro first _ hfirst
  rw [List.flatMap_eq_nil_iff.2 (fun _ _ ↦ rfl), ← List.map_eq_flatMap] at hfirst
  have hproducts (time : Nat) := Amounts.put time (.products provider service region) l
  have hzones (time : Nat) := Amounts.put time (.zones provider region) (zonesOf l)
  simp only [Request.publications]
  by_cases hz : l.flatMap (·.zones) = []
  · rw [isEmpty_zonesOf.2 hz, if_neg (by simp), if_pos hz]
    intro time
    have h := hfirst.append (hproducts time)
    simp only [List.append_nil] at h
    exact h
  · have hsome : (zonesOf l).isEmpty = false := Bool.eq_false_iff.2 (mt isEmpty_zonesOf.1 hz)
    rw [hsome, if_pos (by simp), if_neg hz, ← zonesOf_eq_inOrder]
    intro time time'
    have h := hfirst.append ((hzones time).append (hproducts time'))
    simp only [List.append_nil] at h
    exact h

/-- Steps that work a region's agenda off, but for the report of how they ended. -/
def Concludes (agenda : List Request) (steps : List Step) : Except RefreshError Unit → Prop
  | .ok _ => ∀ time elapsed, Settles provider agenda
      (steps ++ [.acted time (.report (.regionCompleted provider service region elapsed))]) true
  | .error _ => ∀ time, Settles provider agenda
      (steps ++ [.acted time (.report (.failure provider service region))]) false

theorem Concludes.answered {provider service region} {r : Request} {later : List Request}
    {done steps : List Step} {x : Except RefreshError Unit} (a : r.Answer)
    (hd : Amounts done [] (r.publications provider a) (r.accounts provider a))
    (h : Concludes provider service region (r.followUps a ++ later) steps x) :
    Concludes provider service region (r :: later)
      (r.ahead ++ .asked r (.ok a) :: (done ++ steps)) x := by
  cases x with
  | ok _ =>
    intro time elapsed
    rw [List.append_assoc, List.cons_append, List.append_assoc]
    exact Settles.answered a hd (h time elapsed)
  | error _ =>
    intro time
    rw [List.append_assoc, List.cons_append, List.append_assoc]
    exact Settles.answered a hd (h time)

theorem Concludes.withoutImages {provider service region} {later : List Request} {steps : List Step}
    {x : Except RefreshError Unit} (h : Concludes provider service region later steps x) :
    Concludes provider service region (.images service region :: later)
      (.askedImages false :: steps) x := by
  cases x with
  | ok _ => exact fun time elapsed ↦ (h time elapsed).withoutImages service region
  | error _ => exact fun time ↦ (h time).withoutImages service region

theorem publishVersions_ensures (failed : SourceError → RefreshError) :
    (do
      let versions ← need (.versions service region) failed
      liftM (Plan.put (.versions provider service region) versions) : Part Unit).run.Ensures
        (Concludes provider service region [.versions service region]) := by
  apply ensures_need
  case hok =>
    intro versions
    apply ensures_liftM
    intro time time' elapsed
    have hput := Amounts.put time (.versions provider service region) versions
    exact Settles.single versions (hput.append (.report time' _)) rfl
  case hfail =>
    intro e time
    exact Settles.failed e [] (.report time _)

theorem publishRegion_ensures :
    (publishRegion provider service region).run.Ensures
      (Concludes provider service region (Request.visit service region)) := by
  apply ensures_log
  apply ensures_need
  case hfail =>
    intro e time
    exact Settles.failed e _ (.report time _)
  intro l
  apply ensures_lift
  apply (publishProducts_ensures provider service region l).mono
  intro done _ hdone
  apply ensures_imagesOffered
  intro offered
  cases offered with
  | false =>
    apply (publishVersions_ensures provider service region _).mono
    intro steps x hx
    exact Concludes.answered l hdone hx.withoutImages
  | true =>
    apply ensures_need
    case hok =>
      intro images
      apply ensures_put
      intro time
      apply (publishVersions_ensures provider service region _).mono
      intro steps x hx
      have hput := Amounts.put time (.images provider service region) images
      exact Concludes.answered l hdone (Concludes.answered images hput hx)
    case hfail =>
      intro e
      have himages (time : Nat) : Settles provider [.images service region, .versions service region]
          [.askedImages true, .asked (.images service region) (.error e),
            .acted time (.report (.failure provider service region))] false :=
        Settles.failed e _ (.report time _)
      exact Concludes.answered l hdone himages

theorem visitRegion_covers :
    Covers provider (visitRegion provider service region) (Request.visit service region) := by
  apply ensures_now
  intro started
  apply ensures_bind
  apply ensures_reporting
  apply (publishRegion_ensures provider service region).mono
  intro steps x hx
  cases x with
  | ok _ =>
    apply ensures_now
    intro ended
    apply ensures_liftM
    intro time
    exact hx time (ended - started)
  | error e => exact hx

theorem publishRegions_covers (services : List Service) :
    Covers provider (publishRegions provider services) (regionAgenda services) := by
  rw [regionAgenda, List.map_eq_flatMap]
  apply covers_forM
  intro s
  apply ensures_reporting_need
  case hok =>
    intro regions
    apply ensures_put
    intro time
    have hids : regionIds regions = inOrder (Dict.values regions) := ascending_eq_inOrder _
    have hvisits := covers_forM provider (visitRegion_covers provider s.name) (regionIds regions)
    apply Ensures.mono hvisits
    intro steps x hx
    have hput := Amounts.put time (.regions provider s.name) regions
    apply Settles.answered regions hput
    rw [hids] at hx
    rwa [List.append_nil]
  case hfail =>
    intro e time
    exact Settles.failed e [] (.report time _)

/-- The services that a reply lists; a failure lists none. -/
def listed : Except SourceError (List Service) → List Service
  | .ok services => services
  | .error _ => []

theorem publishServices_ensures :
    (publishServices provider).Ensures (fun steps services ↦ ∃ reply : Request.services.Reply,
      services = listed reply ∧ Heeds provider [.asked .services reply] steps) := by
  apply Ensures.request
  intro reply
  cases reply with
  | ok services =>
    intro time
    refine ⟨.ok services, rfl, ?_⟩
    exact (Amounts.put time (.services provider) services).asked_cons .services (.ok services)
  | error e =>
    intro time _
    refine ⟨.error e, rfl, ?_⟩
    exact (Amounts.report time _).asked_cons .services (.error e)

theorem publishSnapshot_ensures :
    (publishSnapshot provider).Ensures (fun steps _ ↦ ∃ reply : Request.snapshot.Reply,
      Heeds provider [.asked .snapshot reply] steps) := by
  apply Ensures.request
  intro reply
  cases reply with
  | ok prices =>
    have hprice (region : String) (y : String × Price) :
        (do
          Plan.report (.price provider region y.1 y.2.onDemand)
          Plan.put (.price provider region y.1) y.2 : Plan Unit).Ensures (fun steps _ ↦
            Amounts steps [] [⟨.price provider region y.1, y.2⟩]
              [.price provider region y.1 y.2.onDemand]) :=
      fun time time' ↦ (Amounts.report time _).append (.put time' (.price provider region y.1) y.2)
    have hall := Ensures.forM (fun (x : String × Dict String Price) ↦
      Ensures.forM (hprice x.1) x.2.entries) prices.entries
    refine Ensures.mono hall fun steps _ h ↦ ⟨.ok prices, ?_⟩
    simp only [← List.map_eq_flatMap] at h
    rw [Heeds, List.flatMap_singleton, List.flatMap_singleton]
    exact h.asked_cons .snapshot (.ok prices)
  | error e => exact fun _ ↦ ⟨.error e, Amounts.nil.asked_cons .snapshot (.error e)⟩

theorem contained_ensures {agenda : List Request} {part : Part Unit} (message : String)
    (h : Covers provider part agenda) :
    (contained message part).Ensures (fun steps _ ↦ ∃ whole, Settles provider agenda steps whole) := by
  apply Ensures.bind
  apply Ensures.mono h
  intro steps x hx
  cases x with
  | ok _ =>
    change ∃ whole, Settles provider agenda (steps ++ []) whole
    rw [List.append_nil]
    exact ⟨_, hx⟩
  | error e =>
    intro _
    change ∃ whole, Settles provider agenda (steps ++ []) whole
    rw [List.append_nil]
    exact ⟨_, hx⟩

/-- The inquiries of a full refresh: for the snapshot, for the services, and two agendas for the
services that are listed. How far one of them gets does not concern the other. -/
def Inquires (asked : List Step) : Prop :=
  ∃ (snapshot : Request.snapshot.Reply) (services : Request.services.Reply)
    (attributes regions : List Step),
    asked = .asked .snapshot snapshot :: .asked .services services :: (attributes ++ regions) ∧
    (∃ whole, WorkedOff (attributeAgenda (listed services)) attributes whole) ∧
    ∃ whole, WorkedOff (regionAgenda (listed services)) regions whole

theorem asksPrices_followUps {r r' : Request} {a : r.Answer} (h : r' ∈ r.followUps a) :
    r'.asksPrices = false := by
  cases r with
  | regions service =>
    obtain ⟨region, -, hr'⟩ := List.mem_flatMap.1 h
    simp only [Request.visit, List.mem_cons, List.not_mem_nil, or_false] at hr'
    rcases hr' with rfl | rfl | rfl <;> rfl
  | _ => cases h

/-- Prices are asked for once, at the beginning. -/
theorem Inquires.snapshot {asked : List Step} (h : Inquires asked) :
    ∃ snapshot rest, asked = .asked .snapshot snapshot :: rest ∧
      ∀ r reply, .asked r reply ∈ rest → r.asksPrices = false := by
  obtain ⟨snapshot, services, attributes, regions, rfl, ⟨_, hattributes⟩, _, hregions⟩ := h
  refine ⟨snapshot, _, rfl, fun r reply hmem ↦ ?_⟩
  have ha : ∀ r ∈ attributeAgenda (listed services), r.asksPrices = false := by
    intro r hr
    obtain ⟨s, -, name, -, rfl⟩ := mem_attributeAgenda_iff.1 hr
    rfl
  have hr : ∀ r ∈ regionAgenda (listed services), r.asksPrices = false := by
    intro r hr
    obtain ⟨s, -, rfl⟩ := List.mem_map.1 hr
    rfl
  rcases List.mem_cons.1 hmem with heq | hmem
  · cases heq
    rfl
  rcases List.mem_append.1 hmem with hmem | hmem
  · exact hattributes.requests ha (fun _ _ _ _ ↦ asksPrices_followUps) r reply hmem
  · exact hregions.requests hr (fun _ _ _ _ ↦ asksPrices_followUps) r reply hmem

def body : Plan Nat := do
  Plan.log (Log.info "start scraping provider information" [])
  let started ← Plan.now
  publishSnapshot provider
  let services ← publishServices provider
  contained "failed to scrape service attributes" (publishAttributes provider services)
  contained "failed to scrape service region information" (publishRegions provider services)
  return started

def ending (started : Nat) : Plan Unit := do
  publishStatus provider
  let ended ← Plan.now
  Plan.report (.providerCompleted provider (ended - started))
  Plan.log (Log.info "finished scraping provider information"
    [("elapsed_ms", toString ((ended - started) / 1000000))])

theorem plan_eq : plan provider = body provider >>= ending provider := by
  simp only [plan, body, ending, bind_assoc, pure_bind]

theorem body_ensures :
    (body provider).Ensures (fun steps _ ↦ ∃ asked, Inquires asked ∧ Heeds provider asked steps) := by
  apply Ensures.log
  apply Ensures.now
  intro started
  apply Ensures.bind
  apply (publishSnapshot_ensures provider).mono
  intro first _ hfirst
  obtain ⟨snapshot, hfirst⟩ := hfirst
  apply Ensures.bind
  apply (publishServices_ensures provider).mono
  intro second services hsecond
  obtain ⟨reply, rfl, hsecond⟩ := hsecond
  have hattributes := contained_ensures provider "failed to scrape service attributes"
    (publishAttributes_covers provider (listed reply))
  have hregions := contained_ensures provider "failed to scrape service region information"
    (publishRegions_covers provider (listed reply))
  apply Ensures.bind
  apply hattributes.mono
  intro third _ hthird
  apply Ensures.bind
  apply hregions.mono
  intro fourth _ hfourth
  obtain ⟨whole, attributes, hwa, ha⟩ := hthird
  obtain ⟨whole', regions, hwr, hr⟩ := hfourth
  refine ⟨_, ⟨snapshot, reply, attributes, regions, rfl, ⟨whole, hwa⟩, whole', hwr⟩, ?_⟩
  simpa using hfirst.append (hsecond.append (ha.append hr))

/-- What a full refresh has done when it is over: what its answers call for, and last its status. -/
structure Completed (text : String) (steps : List Step) : Prop where
  inquires : Inquires (inquiries steps)
  published : (writes steps).map Write.publication =
    (inquiries steps).flatMap (Step.publications provider) ++ [⟨.status provider, text⟩]
  reported : (reports steps).map Metrics.Event.untimed =
    (inquiries steps).flatMap (Step.accounts provider) ++ [.providerCompleted provider 0]

namespace Completed

variable {provider} {text : String} {steps : List Step}

theorem of_withoutLogs (h : Completed provider text (Plan.withoutLogs steps)) :
    Completed provider text steps where
  inquires := Plan.inquiries_withoutLogs steps ▸ h.inquires
  published := Plan.writes_withoutLogs steps ▸ Plan.inquiries_withoutLogs steps ▸ h.published
  reported := Plan.reports_withoutLogs steps ▸ Plan.inquiries_withoutLogs steps ▸ h.reported

theorem mem_published_iff (h : Completed provider text steps) {x : Publication}
    (hx : x.1.category ≠ .status) : x ∈ (writes steps).map Write.publication ↔
      x ∈ (inquiries steps).flatMap (Step.publications provider) := by
  rw [h.published, List.mem_append]
  refine or_iff_left fun hlast ↦ hx ?_
  rw [List.mem_singleton.1 hlast]
  rfl

end Completed

theorem plan_ensures :
    (plan provider).Ensures (fun steps _ ↦ ∃ text, Completed provider text steps) := by
  rw [plan_eq]
  apply Ensures.bind
  apply (body_ensures provider).mono
  intro steps started h
  obtain ⟨asked, hin, hheeds⟩ := h
  intro now time _ ended time' _
  have hlast := (Amounts.put time (.status provider) (toString (now / 1000000))).append
    (Amounts.report time' (.providerCompleted provider (ended - started)))
  have h := Amounts.append hheeds hlast
  simp only [List.append_nil] at h
  obtain ⟨rfl, hpublished, hreported⟩ := h
  exact ⟨toString (now / 1000000), hin, hpublished, hreported⟩

section Run

variable {σ : Type} {src : Source σ} {time : σ → Nat} {beside : σ → σ → Prop} {s t : σ}
  {steps : List Step}

variable {provider} in
theorem completed_of_advances
    (h : Plan.Advances src time beside (plan provider) s steps (.done ()) t) :
    ∃ text, Completed provider text steps := by
  obtain ⟨text, hcompleted⟩ := (plan_ensures provider).of_advances h
  exact ⟨text, hcompleted.of_withoutLogs⟩

theorem ending_advances {started : Nat} (hbeside : ∀ s t, beside s t → time s ≤ time t)
    (hanswer : ∀ r s, time (src.answer r s).2 = time s)
    (h : Plan.Advances src time beside (ending provider started) s steps (.done ()) t) :
    ∃ now later, time s ≤ now ∧ now ≤ later ∧ later ≤ time t ∧
      writes steps = [⟨later, .status provider, toString (now / 1000000)⟩] := by
  obtain ⟨u, hu, hput⟩ := h.of_clock
  obtain ⟨v, rest, hv, rfl, hrest⟩ := hput.of_act
  have hnone : writes (Plan.withoutLogs rest) = [] := by
    refine Ensures.of_advances (Q := fun steps _ ↦ writes steps = []) ?_ hrest
    exact fun _ _ _ _ ↦ rfl
  rw [Plan.writes_withoutLogs] at hnone
  refine ⟨time u, time v, Plan.time_le_of_star hbeside hu, Plan.time_le_of_star hbeside hv,
    (hrest.times hbeside hanswer).1, ?_⟩
  exact congrArg (List.cons _) hnone

/-- Whatever happens beside a full refresh, it publishes what its answers call for and then its
status, all of it between its ends. -/
theorem plan_advances (hbeside : ∀ s t, beside s t → time s ≤ time t)
    (hanswer : ∀ r s, time (src.answer r s).2 = time s)
    (h : Plan.Advances src time beside (plan provider) s steps (.done ()) t) :
    ∃ asked l now later, Inquires asked ∧ inquiries steps = asked ∧
      writes steps = l ++ [⟨later, .status provider, toString (now / 1000000)⟩] ∧
      l.map Write.publication = asked.flatMap (Step.publications provider) ∧
      time s ≤ now ∧ now ≤ time t ∧ ∀ w ∈ writes steps, time s ≤ w.time ∧ w.time ≤ time t := by
  have htimes := (h.times hbeside hanswer).2
  rw [plan_eq] at h
  obtain ⟨first, started, u, rest, hbody, hending, rfl⟩ := h.of_bind
  obtain ⟨asked, hin, hheeds⟩ := (body_ensures provider).of_advances hbody
  obtain ⟨now, later, hu, hlater, ht, hstatus⟩ := ending_advances provider hbeside hanswer hending
  have hnone : inquiries (Plan.withoutLogs rest) = [] := by
    refine Ensures.of_advances (Q := fun steps _ ↦ inquiries steps = []) ?_ hending
    exact fun _ _ _ _ _ _ ↦ rfl
  have hasked := hheeds.inquiries
  have hpublications := hheeds.publications
  rw [Plan.inquiries_withoutLogs] at hasked hnone
  rw [Plan.writes_withoutLogs] at hpublications
  have hs := (hbody.times hbeside hanswer).1
  refine ⟨asked, _, now, later, hin, ?_, ?_, hpublications, Nat.le_trans hs hu,
    Nat.le_trans hlater ht, htimes⟩
  · rw [Plan.inquiries_append, hasked, hnone, List.append_nil]
  · rw [Plan.writes_append, hstatus]

end Run

section RunAlone

variable {σ : Type} (src : Source σ) (time : σ → Nat) (s : σ)

theorem ending_run (started : Nat) :
    ∃ steps, (ending provider started).run src time s = ⟨(), steps, s⟩ ∧ inquiries steps = [] ∧
      writes steps = [⟨time s, .status provider, toString (time s / 1000000)⟩] :=
  ⟨_, rfl, rfl, rfl⟩

/-- A full refresh under any failures, against any source: its inquiries are the prescribed ones, up
to the first failure of an agenda, and it leaves the store as it was but for the writes that the
answers call for, in their order, and the status. Regions and zones are taken in ascending order, each
once. -/
theorem replay_plan (store : Store) :
    let run := (plan provider).run src time s
    let asked := inquiries run.steps
    Inquires asked ∧ src.Dialogue (fun _ _ ↦ False) s asked run.state ∧
    (∃ l, l.map Write.publication = asked.flatMap (Step.publications provider) ∧
      writes run.steps = l ++ [⟨time run.state, .status provider, toString (time run.state / 1000000)⟩]) ∧
    store.replay run.steps = store.writeAll (writes run.steps) ∧
    (store.replay run.steps).ttl = store.ttl ∧
    (∀ k, (store.replay run.steps).kept? k = (Write.latest k (writes run.steps)).or (store.kept? k)) ∧
    ∀ texts, (inOrder texts).Pairwise (· < ·) ∧ ∀ text, text ∈ inOrder texts ↔ text ∈ texts := by
  intro run asked
  have hadvances : Plan.Advances src time (fun _ _ ↦ False) (plan provider) s run.steps _ run.state :=
    Plan.advances_run (plan provider) s
  let before := (body provider).run src time s
  obtain ⟨a, ha, hheeds⟩ := (body_ensures provider).of_run src time s
  obtain ⟨last, hlast, hnone, hstatus⟩ := ending_run provider src time before.state before.result
  have hrun : run = ⟨(), before.steps ++ last, before.state⟩ := by
    change (plan provider).run src time s = _
    rw [plan_eq, Plan.run_bind, hlast]
    rfl
  have hasked : asked = a := by
    change inquiries run.steps = a
    rw [hrun, Plan.inquiries_append, hnone, List.append_nil, ← hheeds.inquiries,
      Plan.inquiries_withoutLogs]
  have hwrites : writes run.steps = writes before.steps ++
      [⟨time run.state, .status provider, toString (time run.state / 1000000)⟩] := by
    rw [hrun, Plan.writes_append, hstatus]
  have hreplay : store.replay run.steps = store.writeAll (writes run.steps) :=
    Plan.replay_eq_writeAll run.steps store
  -- the status is the last thing written, so the body accounts for all the rest
  refine ⟨hasked ▸ ha, hadvances.dialogue, ⟨_, ?_, hwrites⟩, hreplay, ?_, fun k ↦ ?_,
    fun texts ↦ ⟨inOrder_pairwise texts, fun _ ↦ mem_inOrder⟩⟩
  · rw [hasked, ← hheeds.publications, Plan.writes_withoutLogs]
  · rw [hreplay, Store.ttl_writeAll]
  · rw [hreplay, Store.kept?_writeAll]

end RunAlone

end FullRefresh

end CloudOffers
