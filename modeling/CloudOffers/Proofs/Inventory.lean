import CloudOffers.Inventory
/-!
Questions about one provider. Each is answered from one entry, and products also from the prices of
that provider.
-/

namespace CloudOffers.Inventory

inductive Question where
  | provider
  | services
  | attributeValues (service name : String)
  | zones (region : String)
  | regions (service : String)
  | products (service region : String)
  | status
  | images (service region : String)
  | versions (service region : String)

namespace Question

def Answer : Question → Type
  | .provider => Provider
  | .services => List Service
  | .attributeValues .. => List Binary64
  | .zones .. => List String
  | .regions .. => Dict String String
  | .products .. => List ProductDetails
  | .status => String
  | .images .. => List Image
  | .versions .. => List String

/-- The key of the entry that answers a question. -/
def key (about : String) : Question → Key
  | .provider | .services => .services about
  | .attributeValues service name => .attributes about service name
  | .zones region => .zones about region
  | .regions service => .regions about service
  | .products service region => .products about service region
  | .status => .status about
  | .images service region => .images about service region
  | .versions service region => .versions about service region

/-- The answer that an entry gives. Products come with the prices that are held for them. -/
def answerOf (held : Lookup) (about : String) : (q : Question) → (q.key about).Payload → q.Answer
  | .provider, (l : List Service) => (⟨about, l⟩ : Provider)
  | .services, l => l
  | .attributeValues .., (s : AttributeValues) => s.floats
  | .zones _, l => l
  | .regions _, d => d
  | .products _ region, (l : List Product) => l.map (details held about region)
  | .status, text => text
  | .images .., l => l
  | .versions .., l => l

/-- The reason not to look for an answer: an attribute that is not collected. -/
def fault? : Question → Option String
  | .attributeValues _ name =>
    if name ∈ Attribute.all then none else some ("unsupported attribute: " ++ name)
  | _ => none

theorem provider_key (about : String) (q : Question) : (q.key about).provider = about := by
  cases q <;> rfl

theorem key_ne_price (about : String) (q : Question) (provider region instanceType : String) :
    q.key about ≠ .price provider region instanceType := by
  cases q <;> nofun

end Question

variable (inv : Inventory)

def answer (held : Lookup) (about : String) : (q : Question) → Except Refusal q.Answer
  | .provider => inv.provider held about
  | .services => inv.services held about
  | .attributeValues service name => inv.attributeValues held about service name
  | .zones region => inv.zones held about region
  | .regions service => inv.regions held about service
  | .products service region => inv.products held about service region
  | .status => inv.status held about
  | .images service region => inv.images held about service region
  | .versions service region => inv.versions held about service region

variable {inv} {held held' : Lookup} {about : String} {q : Question}

theorem ask_congr {k : Key} (h : held k = held' k) : inv.ask held k = inv.ask held' k := by
  rw [ask, ask, h]

theorem ask_of_not_mem {k : Key} (hk : k.provider ∉ inv.names) :
    inv.ask held k = .error (.unsupportedProvider k.provider) := if_neg hk

theorem ask_eq {k : Key} {v : k.Payload} (hinv : k.provider ∈ inv.names) (h : held k = some v) :
    inv.ask held k = .ok v := by
  rw [ask, if_pos hinv, h]

theorem ask_of_missing {k : Key} (hk : k.provider ∈ inv.names) (hv : held k = none) :
    inv.ask held k = .error (.notCached k) := by
  rw [ask, if_pos hk, hv]

theorem ask_eq_ok_iff {k : Key} {v : k.Payload} : inv.ask held k = .ok v ↔ k.provider ∈ inv.names ∧ held k = some v := by
  refine ⟨fun h ↦ ?_, fun ⟨hk, hv⟩ ↦ ask_eq hk hv⟩
  by_cases hk : k.provider ∈ inv.names
  · cases hv : held k with
    | none =>
      rw [ask_of_missing hk hv] at h
      cases h
    | some w =>
      rw [ask_eq hk hv] at h
      cases h
      exact ⟨hk, rfl⟩
  · rw [ask_of_not_mem hk] at h
    cases h

theorem Question.mem_of_fault? {service name : String}
    (h : (Question.attributeValues service name).fault? = none) : name ∈ Attribute.all := by
  by_cases hname : name ∈ Attribute.all
  · exact hname
  · rw [fault?, if_neg hname] at h
    cases h

/-- A question without a fault is put to the entry of its key. -/
theorem answer_eq_map (hq : q.fault? = none) :
    inv.answer held about q = (inv.ask held (q.key about)).map (q.answerOf held about) := by
  cases q with
  | attributeValues service name => exact if_neg fun h ↦ h.2 (Question.mem_of_fault? hq)
  | provider => exact bind_pure_comp (Provider.mk about) (inv.ask held (.services about))
  | products service region => rfl
  | _ => exact (congrFun Except.map_id _).symm

theorem answer_of_not_mem (h : about ∉ inv.names) (q : Question) :
    inv.answer held about q = .error (.unsupportedProvider about) := by
  have hask {k : Key} (hk : k.provider = about) : inv.ask held k = .error (.unsupportedProvider about) :=
    hk ▸ ask_of_not_mem (hk ▸ h)
  cases q with
  | attributeValues service name =>
    have hvalues := hask (k := .attributes about service name) rfl
    exact (if_neg fun hand ↦ h hand.1).trans (congrArg (Except.map AttributeValues.floats) hvalues)
  | _ => rw [answer_eq_map rfl, hask (Question.provider_key about _)]; rfl

theorem answer_of_fault {reason : String} (h : about ∈ inv.names) (hq : q.fault? = some reason) :
    inv.answer held about q = .error (.invalidInput reason) := by
  cases q with
  | attributeValues service name =>
    by_cases hname : name ∈ Attribute.all
    · rw [Question.fault?, if_pos hname] at hq
      cases hq
    · rw [Question.fault?, if_neg hname, Option.some_inj] at hq
      exact hq ▸ if_pos ⟨h, hname⟩
  | _ => cases hq

theorem answer_of_held (h : about ∈ inv.names) (hq : q.fault? = none) {v : (q.key about).Payload}
    (hv : held (q.key about) = some v) : inv.answer held about q = .ok (q.answerOf held about v) := by
  rw [answer_eq_map hq, ask_eq ((q.provider_key about).symm ▸ h) hv]
  rfl

theorem answer_of_missing (h : about ∈ inv.names) (hq : q.fault? = none)
    (hv : held (q.key about) = none) : inv.answer held about q = .error (.notCached (q.key about)) := by
  rw [answer_eq_map hq, ask_of_missing ((q.provider_key about).symm ▸ h) hv]
  rfl

/-- The price of a product is looked up for the provider that is asked about. -/
theorem answerOf_congr (h : ∀ region instanceType,
    held (.price about region instanceType) = held' (.price about region instanceType)) (q : Question) :
    q.answerOf held about = q.answerOf held' about := by
  cases q with
  | products service region =>
    have hdetails : details held about region = details held' about region := by
      funext p
      rw [details, details, h]
    exact congrArg (fun f (l : List Product) ↦ l.map f) hdetails
  | _ => rfl

theorem answer_congr (inv : Inventory) (h : ∀ k, k.provider = about → held k = held' k) (q : Question) :
    inv.answer held about q = inv.answer held' about q := by
  by_cases habout : about ∈ inv.names
  · cases hq : q.fault? with
    | none =>
      rw [answer_eq_map hq, answer_eq_map hq, ask_congr (h (q.key about) (q.provider_key about)),
        answerOf_congr (fun region instanceType ↦ h (.price about region instanceType) rfl)]
    | some reason => rw [answer_of_fault habout hq, answer_of_fault habout hq]
  · rw [answer_of_not_mem habout, answer_of_not_mem habout]

end CloudOffers.Inventory
