import CloudOffers.Proofs.Json.RoundTrip
import CloudOffers.Proofs.Json.Settled
import CloudOffers.Proofs.Offer.Document
/-!
The JSON form of products as they are served. Its `spotPrice` is the list alone, whatever prices were applied and
whatever text was read, so that a value is read back from what is written of it.
-/

namespace CloudOffers

open Json Json.Document

theorem ZonePrice.proper_ofSpot {spot : SpotPrices} (h : LawfulDocument.Proper spot) :
    LawfulDocument.Proper (ofSpot spot) := by
  intro z hz
  obtain ⟨e, he, rfl⟩ := List.mem_map.1 hz
  exact h e he

namespace ProductDetails

variable {p : Product} {d : ProductDetails} {price : Price} {prices : List Price} {bs : Bytes}

theorem proper_ofProduct (hp : LawfulDocument.Proper p) : (ofProduct p).Proper := by
  obtain ⟨hdemand, hspot, hcpus, hmemory, hgpus⟩ := hp
  exact ⟨rfl, ⟨hdemand, nofun, hcpus, hmemory, hgpus⟩, ZonePrice.proper_ofSpot hspot⟩

theorem proper_withPrice (hd : d.Proper) (hprice : LawfulDocument.Proper price) : (d.withPrice price).Proper := by
  obtain ⟨hempty, hproduct, _⟩ := hd
  obtain ⟨hdemand, hspot⟩ := hprice
  by_cases hpositive : price.onDemand.isPositive = true
  · have hpriced : (d.withPrice price).product = { d.product with onDemandPrice := price.onDemand } := if_pos hpositive
    exact ⟨hpriced ▸ hempty, hpriced ▸ ⟨hdemand, hproduct.2⟩, ZonePrice.proper_ofSpot hspot⟩
  · have hsame : (d.withPrice price).product = d.product := if_neg hpositive
    exact ⟨hsame ▸ hempty, hsame ▸ hproduct, ZonePrice.proper_ofSpot hspot⟩

theorem proper_foldl (hd : d.Proper) (hprices : ∀ price ∈ prices, LawfulDocument.Proper price) :
    (prices.foldl withPrice d).Proper := by
  induction prices generalizing d with
  | nil => exact hd
  | cons price prices ih =>
    obtain ⟨hprice, hprices⟩ := List.forall_mem_cons.1 hprices
    exact ih (proper_withPrice hd hprice) hprices

theorem sound : Sound [field "burst" Bool, field "spotPrice" (List ZonePrice)] where
  nodup := by decide
  defaults := List.forall_mem_cons.2 ⟨defaultFits_field _ _, List.forall_mem_singleton.2 (defaultFits_field _ _)⟩

theorem of_ofJson? {innerMembers ownMembers : List (String × Json)}
    (hlength : innerMembers.length = Product.fields.length) (h : ofJson? (.obj (innerMembers ++ ownMembers)) = some d) :
    Product.ofMembers? innerMembers = some d.product ∧ ∃ burst spot,
      ownMembers = [("burst", burst), ("spotPrice", spot)] ∧ ofJson? burst = some d.burst ∧
        ofJson? spot = some d.spotPrices := by
  unfold ofJson? instDocumentProductDetails at h
  dsimp only at h
  rw [List.take_left' hlength, List.drop_left' hlength] at h
  obtain ⟨product, hproduct, h⟩ := Option.bind_eq_some_iff.1 h
  split at h
  · simp only [Option.bind_eq_bind, Option.bind_eq_some_iff, Option.some.injEq] at h
    obtain ⟨_, hburst, _, hspot, rfl⟩ := h
    exact ⟨hproduct, _, _, rfl, hburst, hspot⟩
  · cases h

/-- The map of the product that is read is what stands for it, since its name is that of the list. -/
theorem proper_of_parse (h : parse ProductDetails bs = .ok d) : d.Proper := by
  obtain ⟨t, w, _, hw, hd⟩ := parse_eq_ok_iff.1 h
  obtain ⟨innerMembers, ownMembers, rfl, hextends⟩ := extends_of_decode (fun _ _ ↦ Parts.read?_proper) hw
  have hlength : innerMembers.length = Product.fields.length := by
    simpa using congrArg List.length hextends.names
  obtain ⟨hproduct, burst, spot, rfl, hburst, hspot⟩ := of_ofJson? hlength hd
  refine ⟨?_, LawfulDocument.proper_of_fits (Fits.record hextends.innerFits) hproduct, ?_⟩
  · obtain ⟨_, _, inner, _, _, _, _, _, _, _, _, rfl, _, _, hinner, _⟩ := Product.ofMembers?_eq_some_iff.1 hproduct
    have hshadowed : "spotPrice" ∈ ["burst", "spotPrice"] := by decide
    obtain ⟨f, hf, hname, habsent⟩ := hextends.shadowed ("spotPrice", inner) (by simp) hshadowed
    have hfield : f = fieldWith "spotPrice" (Dict.empty : SpotPrices) :=
      List.inj_on_of_nodup_map Product.sound.nodup hf (by simp [Product.fields]) hname
    rw [hfield] at habsent
    obtain rfl : toJson (Dict.empty : SpotPrices) = inner := Option.some.inj habsent
    exact (Option.some.inj hinner).symm
  · have hfits := List.forall_mem_cons.1 hextends.ownFits
    exact LawfulDocument.proper_of_fits ((List.forall_mem_singleton.1 hfits.2).fits sound rfl) hspot

/-- A value whose JSON form has each member once, `spotPrice` being the list, and gives it back. -/
structure Unambiguous (d : ProductDetails) : Prop where
  members : ∃ members, toJson d = .obj members ∧ (members.map (·.1)).Nodup ∧
    ∀ v, ("spotPrice", v) ∈ members ↔ v = toJson d.spotPrices
  readBack : (∀ x, .float x ∈ (toJson d).numbers → parse Binary64 (bytes (toJson x).compact) = .ok x) →
    parse ProductDetails (bytes (toJson d).compact) = .ok d ∧ parse ProductDetails (bytes (toJson d).pretty) = .ok d

theorem Proper.unambiguous (hd : d.Proper) : Unambiguous d where
  members := by
    refine ⟨_, rfl, ?_, fun v ↦ ?_⟩
    · rw [Product.members_eq hd.1]
      change ["type", "onDemandPrice", "cpusPerVm", "memPerVm", "gpusPerVm", "ntwPerf", "ntwPerfCategory", "zones",
        "attributes", "currentGen", "burst", "spotPrice"].Nodup
      decide
    · rw [Product.members_eq hd.1]
      simp
  readBack hfloats := by
    have hdecode := (written hd).decode ((written hd).readBy_read? hfloats) (show 3 < nesting by decide)
    obtain ⟨hcompact, hpretty⟩ := (written hd).spells
    exact ⟨parse_eq_ok_iff.2 ⟨_, _, hcompact, hdecode, ofJson?_canonical d⟩,
      parse_eq_ok_iff.2 ⟨_, _, hpretty, hdecode, ofJson?_canonical d⟩⟩

/-- The details of a product with finite floats have one form after any finite prices, and so do those that are read
of any text. -/
theorem unambiguous_of_prices_or_text :
    (∀ (p : Product) (prices : List Price), LawfulDocument.Proper p → (∀ price ∈ prices, LawfulDocument.Proper price) →
      Unambiguous (prices.foldl withPrice (ofProduct p))) ∧
    ∀ (bs : Bytes) (d : ProductDetails), parse ProductDetails bs = .ok d →
      d.product.spotPrices = Dict.empty ∧ Unambiguous d := by
  refine ⟨fun p prices hp hprices ↦ (proper_foldl (proper_ofProduct hp) hprices).unambiguous, fun bs d h ↦ ?_⟩
  have hd := proper_of_parse h
  exact ⟨hd.1, hd.unambiguous⟩

/-- A product that is listed for a quarter and in a zone, with a price of a tenth for two other zones. -/
def zonedProduct : Product :=
  { (default : Product) with
    instanceType := "t3\"", onDemandPrice := ⟨0x3fd0000000000000⟩, cpus := .zero, memory := .zero, gpus := .zero
    spotPrices := Dict.ofList [("a", .zero)] }

def zonedPrice : Price := ⟨⟨0x3fb999999999999a⟩, Dict.ofList [("c", ⟨0x3fb999999999999a⟩), ("b", .zero)]⟩

theorem unambiguous_zonedProduct :
    LawfulDocument.Proper zonedProduct ∧ LawfulDocument.Proper zonedPrice ∧
    Unambiguous ((ofProduct zonedProduct).withPrice zonedPrice) ∧
    parse ProductDetails (bytes (toJson ((ofProduct zonedProduct).withPrice zonedPrice)).compact) =
      .ok ((ofProduct zonedProduct).withPrice zonedPrice) ∧
    ((ofProduct zonedProduct).withPrice zonedPrice).product.spotPrices = Dict.empty := by
  have hp : LawfulDocument.Proper zonedProduct := ⟨rfl, List.forall_mem_singleton.2 rfl, rfl, rfl, rfl⟩
  have hprice : LawfulDocument.Proper zonedPrice :=
    ⟨rfl, List.forall_mem_cons.2 ⟨rfl, List.forall_mem_singleton.2 rfl⟩⟩
  have hform := unambiguous_of_prices_or_text.1 zonedProduct [zonedPrice] hp (List.forall_mem_singleton.2 hprice)
  have hnumbers : (toJson ((ofProduct zonedProduct).withPrice zonedPrice)).numbers = [.float ⟨0x3fb999999999999a⟩,
      .float .zero, .float .zero, .float .zero, .float .zero, .float ⟨0x3fb999999999999a⟩] := by
    decide +kernel
  have hfloats (x : Binary64) (hx : .float x ∈ (toJson ((ofProduct zonedProduct).withPrice zonedPrice)).numbers) :
      parse Binary64 (bytes (toJson x).compact) = .ok x := by
    have hcases : x = ⟨0x3fb999999999999a⟩ ∨ x = .zero := by
      simp only [hnumbers, List.mem_cons, Number.float.injEq, List.not_mem_nil, or_false] at hx
      grind
    obtain rfl | rfl := hcases
    · exact toOption_eq_some_iff.1 (by decide +kernel)
    · exact toOption_eq_some_iff.1 (by decide +kernel)
  have hread := (hform.readBack hfloats).1
  exact ⟨hp, hprice, hform, hread, (unambiguous_of_prices_or_text.2 _ _ hread).1⟩

end ProductDetails

end CloudOffers
