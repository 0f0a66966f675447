import CloudOffers.Offer.Document
import CloudOffers.Proofs.Json.Extended
/-!
What providers offer is read back from its JSON form.
-/

namespace CloudOffers

open Json Json.Document Json.LawfulDocument

theorem Price.ofJson?_eq_some_iff {w : Json} {p : Price} : ofJson? w = some p ↔
    ∃ onDemand spot, w = .obj [("onDemandPrice", onDemand), ("spotPrice", spot)] ∧
      ofJson? onDemand = some p.onDemand ∧ ofJson? spot = some p.spot := by
  constructor
  · intro h
    unfold ofJson? instDocumentPrice at h
    dsimp only at h
    split at h
    · simp only [Option.bind_eq_bind, Option.bind_eq_some_iff, Option.some.injEq] at h
      obtain ⟨_, hdemand, _, hspot, rfl⟩ := h
      exact ⟨_, _, rfl, hdemand, hspot⟩
    · cases h
  · rintro ⟨onDemand, spot, rfl, hdemand, hspot⟩
    exact Option.bind_eq_some_iff.2 ⟨_, hdemand, Option.bind_eq_some_iff.2 ⟨_, hspot, rfl⟩⟩

theorem Price.sound : Sound [field "onDemandPrice" Binary64, fieldWith "spotPrice" (Dict.empty : SpotPrices)] where
  nodup := by decide
  defaults := List.forall_mem_cons.2
    ⟨defaultFits_field _ _, List.forall_mem_singleton.2 (defaultFits_fieldWith _ (fits_obj_nil _))⟩

instance : LawfulDocument Price where
  depth := 2
  canonical p := .obj [("onDemandPrice", canonical p.onDemand), ("spotPrice", canonical p.spot)]
  Proper p := Proper p.onDemand ∧ Proper p.spot
  ofJson?_canonical p := Price.ofJson?_eq_some_iff.2 ⟨_, _, rfl, ofJson?_canonical _, ofJson?_canonical _⟩
  written hp := Aligned.written
    (.present (written hp.1) (by decide) <| .present (written hp.2) (by decide) .nil) Price.sound.nodup
  proper_of_fits {w p} hw hp := by
    obtain ⟨_, _, rfl, hdemand, hspot⟩ := Price.ofJson?_eq_some_iff.1 hp
    cases hw with
    | record h =>
      simp only [List.forall_mem_cons] at h
      obtain ⟨fdemand, fspot, _⟩ := h
      exact ⟨proper_of_fits (fdemand.fits Price.sound rfl) hdemand, proper_of_fits (fspot.fits Price.sound rfl) hspot⟩

theorem Product.ofMembers?_eq_some_iff {members : List (String × Json)} {p : Product} : ofMembers? members = some p ↔
    ∃ instanceType onDemand spot cpus memory gpus network category zones attributes current,
      members = [("type", instanceType), ("onDemandPrice", onDemand), ("spotPrice", spot), ("cpusPerVm", cpus),
        ("memPerVm", memory), ("gpusPerVm", gpus), ("ntwPerf", network), ("ntwPerfCategory", category),
        ("zones", zones), ("attributes", attributes), ("currentGen", current)] ∧
      ofJson? instanceType = some p.instanceType ∧ ofJson? onDemand = some p.onDemandPrice ∧
      ofJson? spot = some p.spotPrices ∧ ofJson? cpus = some p.cpus ∧ ofJson? memory = some p.memory ∧
      ofJson? gpus = some p.gpus ∧ ofJson? network = some p.network ∧ ofJson? category = some p.networkCategory ∧
      ofJson? zones = some p.zones ∧ ofJson? attributes = some p.attributes ∧
      ofJson? current = some p.currentGeneration := by
  constructor
  · intro h
    unfold ofMembers? at h
    split at h
    · simp only [Option.bind_eq_bind, Option.bind_eq_some_iff, Option.some.injEq] at h
      obtain ⟨_, htype, _, hdemand, _, hspot, _, hcpus, _, hmemory, _, hgpus, _, hnetwork, _, hcategory, _, hzones, _,
        hattributes, _, hcurrent, rfl⟩ := h
      exact ⟨_, _, _, _, _, _, _, _, _, _, _, rfl, htype, hdemand, hspot, hcpus, hmemory, hgpus, hnetwork, hcategory,
        hzones, hattributes, hcurrent⟩
    · cases h
  · rintro ⟨_, _, _, _, _, _, _, _, _, _, _, rfl, htype, hdemand, hspot, hcpus, hmemory, hgpus, hnetwork, hcategory,
      hzones, hattributes, hcurrent⟩
    simp only [ofMembers?, Option.bind_eq_bind, htype, hdemand, hspot, hcpus, hmemory, hgpus, hnetwork, hcategory,
      hzones, hattributes, hcurrent, Option.bind_some]

theorem Product.sound : Sound Product.fields where
  nodup := by decide
  defaults := by
    simp only [Product.fields, List.forall_mem_cons]
    exact ⟨defaultFits_field _ _, defaultFits_fieldWith _ (.float rfl), defaultFits_fieldWith _ (fits_obj_nil _),
      defaultFits_field _ _, defaultFits_field _ _, defaultFits_fieldWith _ (.float rfl), defaultFits_fieldWith _ .text,
      defaultFits_fieldWith _ .text, defaultFits_fieldWith _ (.list nofun), defaultFits_fieldWith _ (fits_obj_nil _),
      defaultFits_fieldWith _ .bool, nofun⟩

/-- Only an empty map of spot prices is left out, and it is what stands for the map then. -/
theorem Product.absent_spotPrices {p : Product} (h : p.spotPrices.isEmpty = true) :
    toJson (Dict.empty : SpotPrices) = canonical p.spotPrices := by
  rw [show p.spotPrices = Dict.empty from Dict.ext_entries (List.isEmpty_iff.1 h)]
  rfl

/-- All fields of a product. -/
def Product.canonicalMembers (p : Product) : List (String × Json) :=
  [("type", canonical p.instanceType), ("onDemandPrice", canonical p.onDemandPrice),
    ("spotPrice", canonical p.spotPrices), ("cpusPerVm", canonical p.cpus), ("memPerVm", canonical p.memory),
    ("gpusPerVm", canonical p.gpus), ("ntwPerf", canonical p.network), ("ntwPerfCategory", canonical p.networkCategory),
    ("zones", canonical p.zones), ("attributes", canonical p.attributes), ("currentGen", canonical p.currentGeneration)]

theorem Product.ofMembers?_canonicalMembers (p : Product) : ofMembers? p.canonicalMembers = some p :=
  ofMembers?_eq_some_iff.2 ⟨_, _, _, _, _, _, _, _, _, _, _, rfl, ofJson?_canonical _, ofJson?_canonical _,
    ofJson?_canonical _, ofJson?_canonical _, ofJson?_canonical _, ofJson?_canonical _, ofJson?_canonical _,
    ofJson?_canonical _, ofJson?_canonical _, ofJson?_canonical _, ofJson?_canonical _⟩

instance : LawfulDocument Product where
  depth := 2
  canonical p := .obj p.canonicalMembers
  Proper p := Proper p.onDemandPrice ∧ Proper p.spotPrices ∧ Proper p.cpus ∧ Proper p.memory ∧ Proper p.gpus
  ofJson?_canonical p := p.ofMembers?_canonicalMembers
  written hp := by
    obtain ⟨hdemand, hspot, hcpus, hmemory, hgpus⟩ := hp
    refine Aligned.written ?_ Product.sound.nodup
    exact .present (written trivial) (by decide) <| .present (written hdemand) (by decide) <|
      .optional Product.absent_spotPrices (written hspot) (by decide) <| .present (written hcpus) (by decide) <|
      .present (written hmemory) (by decide) <| .present (written hgpus) (by decide) <|
      .present (written trivial) (by decide) <| .present (written trivial) (by decide) <|
      .present (written fun _ _ ↦ trivial) (by decide) <| .present (written fun _ _ ↦ trivial) (by decide) <|
      .present (written trivial) (by decide) .nil
  proper_of_fits {w p} hw hp := by
    cases hw with
    | record h =>
      obtain ⟨_, _, _, _, _, _, _, _, _, _, _, rfl, _, hdemand, hspot, hcpus, hmemory, hgpus, _⟩ :=
        Product.ofMembers?_eq_some_iff.1 hp
      simp only [List.forall_mem_cons] at h
      obtain ⟨_, fdemand, fspot, fcpus, fmemory, fgpus, _⟩ := h
      exact ⟨proper_of_fits (fdemand.fits Product.sound rfl) hdemand, proper_of_fits (fspot.fits Product.sound rfl) hspot,
        proper_of_fits (fcpus.fits Product.sound rfl) hcpus, proper_of_fits (fmemory.fits Product.sound rfl) hmemory,
        proper_of_fits (fgpus.fits Product.sound rfl) hgpus⟩

instance : LawfulDocument Service where
  depth := 1
  canonical s := .obj [("service", canonical s.name)]
  Proper _ := True
  ofJson?_canonical _ := rfl
  written _ := Aligned.written (.present (written trivial) (by decide) .nil) (by decide)
  proper_of_fits _ _ := trivial

instance : LawfulDocument Provider where
  depth := 3
  canonical p := .obj [("provider", canonical p.name), ("services", canonical p.services)]
  Proper _ := True
  ofJson?_canonical p := Option.bind_eq_some_iff.2
    ⟨_, ofJson?_canonical p.name, Option.bind_eq_some_iff.2 ⟨_, ofJson?_canonical p.services, rfl⟩⟩
  written _ := Aligned.written
    (.present (written trivial) (by decide) <| .present (written fun _ _ ↦ trivial) (by decide) .nil) (by decide)
  proper_of_fits _ _ := trivial

theorem AttributeValue.ofJson?_eq_some_iff {w : Json} {a : AttributeValue} : ofJson? w = some a ↔
    ∃ value display, w = .obj [("value", value), ("strValue", display)] ∧ ofJson? value = some a.value ∧
      ofJson? display = some a.display := by
  constructor
  · intro h
    unfold ofJson? instDocumentAttributeValue at h
    dsimp only at h
    split at h
    · simp only [Option.bind_eq_bind, Option.bind_eq_some_iff, Option.some.injEq] at h
      obtain ⟨_, hvalue, _, hdisplay, rfl⟩ := h
      exact ⟨_, _, rfl, hvalue, hdisplay⟩
    · cases h
  · rintro ⟨_, _, rfl, hvalue, hdisplay⟩
    exact Option.bind_eq_some_iff.2 ⟨_, hvalue, Option.bind_eq_some_iff.2 ⟨_, hdisplay, rfl⟩⟩

theorem AttributeValue.sound : Sound [field "value" Binary64, field "strValue" String] where
  nodup := by decide
  defaults := List.forall_mem_cons.2 ⟨defaultFits_field _ _, List.forall_mem_singleton.2 (defaultFits_field _ _)⟩

instance : LawfulDocument AttributeValue where
  depth := 1
  canonical a := .obj [("value", canonical a.value), ("strValue", canonical a.display)]
  Proper a := Proper a.value
  ofJson?_canonical a := AttributeValue.ofJson?_eq_some_iff.2 ⟨_, _, rfl, ofJson?_canonical _, ofJson?_canonical _⟩
  written ha := Aligned.written
    (.present (written ha) (by decide) <| .present (written trivial) (by decide) .nil) AttributeValue.sound.nodup
  proper_of_fits {w a} hw ha := by
    obtain ⟨_, _, rfl, hvalue, _⟩ := AttributeValue.ofJson?_eq_some_iff.1 ha
    cases hw with
    | record h => exact proper_of_fits ((List.forall_mem_cons.1 h).1.fits AttributeValue.sound rfl) hvalue

instance : LawfulDocument AttributeValues where
  depth := 2
  canonical s := canonical s.items
  Proper s := Proper s.items
  ofJson?_canonical s := congrArg (Option.map AttributeValues.mk) (ofJson?_canonical s.items)
  written {s} hs := written (v := s.items) hs
  proper_of_fits {w s} hw hs := by
    obtain ⟨items, hitems, rfl⟩ := Option.map_eq_some_iff.1 hs
    exact proper_of_fits hw hitems

instance : LawfulDocument Image where
  depth := 1
  canonical i := .obj [("name", canonical i.name), ("version", canonical i.version),
    ("gpuAvailable", canonical i.gpuAvailable)]
  Proper _ := True
  ofJson?_canonical _ := rfl
  written _ := Aligned.written (.present (written trivial) (by decide) <| .present (written trivial) (by decide) <|
    .present (written trivial) (by decide) .nil) (by decide)
  proper_of_fits _ _ := trivial

theorem ZonePrice.ofJson?_eq_some_iff {w : Json} {z : ZonePrice} : ofJson? w = some z ↔
    ∃ zone price, w = .obj [("zone", zone), ("price", price)] ∧ ofJson? zone = some z.zone ∧
      ofJson? price = some z.price := by
  constructor
  · intro h
    unfold ofJson? instDocumentZonePrice at h
    dsimp only at h
    split at h
    · simp only [Option.bind_eq_bind, Option.bind_eq_some_iff, Option.some.injEq] at h
      obtain ⟨_, hzone, _, hprice, rfl⟩ := h
      exact ⟨_, _, rfl, hzone, hprice⟩
    · cases h
  · rintro ⟨_, _, rfl, hzone, hprice⟩
    exact Option.bind_eq_some_iff.2 ⟨_, hzone, Option.bind_eq_some_iff.2 ⟨_, hprice, rfl⟩⟩

theorem ZonePrice.sound : Sound [field "zone" String, field "price" Binary64] where
  nodup := by decide
  defaults := List.forall_mem_cons.2 ⟨defaultFits_field _ _, List.forall_mem_singleton.2 (defaultFits_field _ _)⟩

instance : LawfulDocument ZonePrice where
  depth := 1
  canonical z := .obj [("zone", canonical z.zone), ("price", canonical z.price)]
  Proper z := Proper z.price
  ofJson?_canonical z := ZonePrice.ofJson?_eq_some_iff.2 ⟨_, _, rfl, ofJson?_canonical _, ofJson?_canonical _⟩
  written hz := Aligned.written
    (.present (written trivial) (by decide) <| .present (written hz) (by decide) .nil) ZonePrice.sound.nodup
  proper_of_fits {w z} hw hz := by
    obtain ⟨_, _, rfl, _, hprice⟩ := ZonePrice.ofJson?_eq_some_iff.1 hz
    cases hw with
    | record h =>
      simp only [List.forall_mem_cons] at h
      exact proper_of_fits (h.2.1.fits ZonePrice.sound rfl) hprice

section Details

theorem settle_text (s : String) : Shape.text.settle (toJson s) = .ok (canonical s) := by
  rw [show toJson s = .str s from rfl, Shape.settle]
  · rfl
  all_goals
    intro _ h
    cases h

theorem settle_bool (b : Bool) : Shape.bool.settle (toJson b) = .ok (canonical b) := by
  rw [show toJson b = .bool b from rfl, Shape.settle]
  · rfl
  all_goals
    intro _ h
    cases h

theorem settle_float {x : Binary64} (hx : Proper x) : Shape.float.settle (toJson x) = .ok (canonical x) := by
  rw [show toJson x = .num (.float x) from if_pos hx, Shape.settle]
  · rfl
  all_goals
    intro _ h
    cases h

theorem written_any_float {x : Binary64} (hx : Proper x) : Written 0 .any (toJson x) (toJson x) := by
  rw [show toJson x = .num (.float x) from if_pos hx]
  exact written_any_number hx

/-- What is written of a product without spot prices. -/
theorem Product.members_eq {p : Product} (h : p.spotPrices = Dict.empty) : p.members =
    [("type", toJson p.instanceType), ("onDemandPrice", toJson p.onDemandPrice), ("cpusPerVm", toJson p.cpus),
      ("memPerVm", toJson p.memory), ("gpusPerVm", toJson p.gpus), ("ntwPerf", toJson p.network),
      ("ntwPerfCategory", toJson p.networkCategory), ("zones", toJson p.zones), ("attributes", toJson p.attributes),
      ("currentGen", toJson p.currentGeneration)] := by
  rw [members, h]
  rfl

theorem Product.settles {p : Product} (hp : Proper p) (h : p.spotPrices = Dict.empty) :
    Settles Product.fields p.members p.canonicalMembers := by
  obtain ⟨hdemand, _, hcpus, hmemory, hgpus⟩ := hp
  rw [members_eq h, canonicalMembers, ← absent_spotPrices (by rw [h]; rfl)]
  exact .present (settle_text _) <| .present (settle_float hdemand) <| .omitted <| .present (settle_float hcpus) <|
    .present (settle_float hmemory) <| .present (settle_float hgpus) <| .present (settle_text _) <|
    .present (settle_text _) <| .present (settle_texts _) <| .present (settle_textMap _) <|
    .present (settle_bool _) .nil

theorem Product.written_members {p : Product} (hp : Proper p) (h : p.spotPrices = Dict.empty) :
    ∀ e ∈ p.members, Written 2 .any e.2 e.2 := by
  obtain ⟨hdemand, _, hcpus, hmemory, hgpus⟩ := hp
  rw [members_eq h]
  simp only [List.forall_mem_cons]
  exact ⟨(written_any_text _).weaken (by decide), (written_any_float hdemand).weaken (by decide),
    (written_any_float hcpus).weaken (by decide), (written_any_float hmemory).weaken (by decide),
    (written_any_float hgpus).weaken (by decide), (written_any_text _).weaken (by decide),
    (written_any_text _).weaken (by decide), (Written.any_list fun s _ ↦ written_any_text s).weaken (by decide),
    (Written.any_map p.attributes fun e _ ↦ written_any_text e.2).weaken (by decide),
    (written_any_bool _).weaken (by decide), nofun⟩

namespace ProductDetails

/-- Details as they are served: the spot prices are those of the list alone. -/
def Proper (d : ProductDetails) : Prop :=
  d.product.spotPrices = Dict.empty ∧ LawfulDocument.Proper d.product ∧ LawfulDocument.Proper d.spotPrices

def canonical (d : ProductDetails) : Json :=
  .obj (d.product.canonicalMembers ++
    [("burst", LawfulDocument.canonical d.burst), ("spotPrice", LawfulDocument.canonical d.spotPrices)])

theorem ofJson?_canonical (d : ProductDetails) : ofJson? d.canonical = some d := by
  refine Option.bind_eq_some_iff.2 ⟨d.product, d.product.ofMembers?_canonicalMembers, ?_⟩
  exact Option.bind_eq_some_iff.2 ⟨_, LawfulDocument.ofJson?_canonical d.burst,
    Option.bind_eq_some_iff.2 ⟨_, LawfulDocument.ofJson?_canonical d.spotPrices, rfl⟩⟩

/-- The list of spot prices is told from the map of the product, which is left out. -/
theorem written {d : ProductDetails} (hd : d.Proper) : Written 3 (shape ProductDetails) (toJson d) d.canonical := by
  obtain ⟨hempty, hproduct, hspot⟩ := hd
  refine Aligned.written_extended ?_ (by decide) (Product.settles hproduct hempty) Product.sound.nodup
    (Product.written_members hproduct hempty) ?_
  · exact .present (LawfulDocument.written trivial) (by decide) <|
      .present (LawfulDocument.written hspot) (by decide) .nil
  · rw [Product.members_eq hempty]
    change ∀ k ∈ ["type", "onDemandPrice", "cpusPerVm", "memPerVm", "gpusPerVm", "ntwPerf", "ntwPerfCategory", "zones",
      "attributes", "currentGen"], k ∉ ["burst", "spotPrice"]
    decide

end ProductDetails

end Details

end CloudOffers
