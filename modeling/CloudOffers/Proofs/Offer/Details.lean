import CloudOffers.Proofs.Inventory.Missing
import Mathlib.Data.List.Forall2
import Mathlib.Data.List.Induction
/-!
Products with prices applied to them, and how a store merges what it holds: the last spot prices count, and
the last on-demand price that is known.
-/

namespace CloudOffers

theorem Binary64.isPositive_iff {x : Binary64} : x.isPositive = true ↔ x.isNaN = false ∧ zero.rank < x.rank := by
  have hzero : zero.rank = 0 := by decide
  rw [isPositive, hzero, rank]
  cases hneg : x.negative with
  | true =>
    simp only [Bool.not_true, Bool.false_and, Bool.false_eq_true, if_true, false_iff, not_and]
    omega
  | false =>
    simp only [Bool.not_false, Bool.true_and, Bool.and_eq_true, Bool.not_eq_true', isZero, decide_eq_false_iff_not,
      Bool.false_eq_true, if_false]
    exact and_congr_right fun _ ↦ by omega

namespace ZonePrice

variable {spot : SpotPrices} {zone : String} {price : Binary64}

theorem ofSpot_ascending (spot : SpotPrices) : (ofSpot spot).Pairwise (fun a b ↦ a.zone < b.zone) :=
  List.pairwise_map.2 spot.ascending

theorem mem_ofSpot_iff : ⟨zone, price⟩ ∈ ofSpot spot ↔ spot.get? zone = some price := by
  rw [← Dict.mem_entries_iff, ofSpot, List.mem_map]
  constructor
  · intro h
    obtain ⟨e, he, heq⟩ := h
    cases heq
    exact he
  · intro h
    exact ⟨_, h, rfl⟩

end ZonePrice

theorem Product.isBurstable_iff {p : Product} :
    p.isBurstable = true ↔ ∃ rest, p.instanceType.toList = 't' :: rest ∨ p.instanceType.toList = 'T' :: rest := by
  rw [isBurstable]
  cases p.instanceType.toList with
  | nil => simp
  | cons c rest => simp [exists_or]

namespace ProductDetails

/-- The on-demand price after some prices: the last that is known, or what the product is listed with. -/
def lastOnDemand (p : Product) (prices : List Price) : Binary64 :=
  (prices.filter (fun price ↦ price.onDemand.isPositive)).getLast?.elim p.onDemandPrice Price.onDemand

/-- The spot prices after some prices: those of the last. -/
def lastSpot (p : Product) (prices : List Price) : SpotPrices := prices.getLast?.elim p.spotPrices Price.spot

theorem foldl_withPrice (p : Product) (prices : List Price) : prices.foldl withPrice (ofProduct p) =
    { product := { p with onDemandPrice := lastOnDemand p prices, spotPrices := Dict.empty }
      burst := p.isBurstable
      spotPrices := ZonePrice.ofSpot (lastSpot p prices) } := by
  induction prices using List.reverseRecOn with
  | nil => rfl
  | append_singleton prices price ih =>
    have hspot : lastSpot p (prices ++ [price]) = price.spot := by simp [lastSpot]
    rw [List.foldl_append, ih, List.foldl_cons, List.foldl_nil, withPrice, hspot]
    cases hknown : price.onDemand.isPositive with
    | true =>
      have hlast : lastOnDemand p (prices ++ [price]) = price.onDemand := by simp [lastOnDemand, hknown]
      rw [hlast, if_pos rfl]
    | false =>
      have hlast : lastOnDemand p (prices ++ [price]) = lastOnDemand p prices := by simp [lastOnDemand, hknown]
      rw [hlast]
      rfl

theorem withPrice_withPrice (d : ProductDetails) (price : Price) :
    (d.withPrice price).withPrice price = d.withPrice price := by
  rw [withPrice, withPrice]
  cases price.onDemand.isPositive <;> rfl

/-- What a product has become after some prices. -/
structure Merges (p : Product) (prices : List Price) (d : ProductDetails) : Prop where
  onDemand : d.product.onDemandPrice = lastOnDemand p prices
  ascending : d.spotPrices.Pairwise (fun a b ↦ a.zone < b.zone)
  mem_iff : ∀ zone price, ⟨zone, price⟩ ∈ d.spotPrices ↔ (lastSpot p prices).get? zone = some price
  length : d.spotPrices.length = (lastSpot p prices).entries.length
  burst : d.burst = true ↔ ∃ rest, p.instanceType.toList = 't' :: rest ∨ p.instanceType.toList = 'T' :: rest
  others : d.product = { p with onDemandPrice := d.product.onDemandPrice, spotPrices := Dict.empty }

theorem merges_foldl (p : Product) (prices : List Price) : Merges p prices (prices.foldl withPrice (ofProduct p)) := by
  rw [foldl_withPrice]
  exact
    { onDemand := rfl
      ascending := ZonePrice.ofSpot_ascending _
      mem_iff := fun _ _ ↦ ZonePrice.mem_ofSpot_iff
      length := List.length_map ..
      burst := Product.isBurstable_iff
      others := rfl }

/-- How a store serves a product of a region: with the price it holds for the type, while that lives. -/
structure Serves (s : Store) (now : Nat) (provider region : String) (p : Product) (d : ProductDetails) : Prop where
  live : ∀ price time, s.kept? (.price provider region p.instanceType) = some ⟨price, time⟩ →
    now - time < s.ttl.short → d = (ofProduct p).withPrice price
  missing : (∀ e, s.kept? (.price provider region p.instanceType) = some e → s.ttl.short ≤ now - e.writtenAt) →
    d = ofProduct p

theorem serves_iff {s : Store} {now : Nat} {provider region : String} {p : Product} {d : ProductDetails} :
    Serves s now provider region p d ↔ d = Inventory.details (s.lookup now) provider region p := by
  rw [Inventory.details]
  split
  next price hprice =>
    obtain ⟨time, hkept, hlive⟩ := Store.get_eq_some_iff.1 hprice
    constructor
    · intro h
      exact h.live price time hkept hlive
    · intro h
      refine ⟨fun price' time' hkept' _ ↦ ?_, fun hexpired ↦ absurd (hexpired _ hkept) (Nat.not_le.2 hlive)⟩
      rw [hkept] at hkept'
      cases hkept'
      exact h
  next hnone =>
    have hexpired := Store.get_eq_none_iff.1 hnone
    constructor
    · intro h
      exact h.missing hexpired
    · intro h
      exact ⟨fun price time hkept hlive ↦ absurd hlive (Nat.not_lt.2 (hexpired _ hkept)), fun _ ↦ h⟩

end ProductDetails

open ProductDetails in
theorem Inventory.products_eq_ok_iff {inv : Inventory} {s : Store} {now : Nat} {provider service region : String}
    {ds : List ProductDetails} : inv.products (s.lookup now) provider service region = .ok ds ↔
      provider ∈ inv.names ∧ ∃ l time, s.kept? (.products provider service region) = some ⟨l, time⟩ ∧
        now - time < s.ttl.long ∧ List.Forall₂ (Serves s now provider region) l ds := by
  have hserves (l : List Product) :
      List.Forall₂ (Serves s now provider region) l ds ↔ l.map (details (s.lookup now) provider region) = ds := by
    have heq : Serves s now provider region = fun p d ↦ details (s.lookup now) provider region p = d :=
      funext₂ fun p d ↦ propext (serves_iff.trans eq_comm)
    rw [heq, ← List.forall₂_map_left_iff, List.forall₂_eq_eq_eq]
  rw [products]
  constructor
  · intro h
    cases hask : inv.ask (s.lookup now) (.products provider service region) with
    | error e =>
      rw [hask] at h
      cases h
    | ok l =>
      rw [hask] at h
      obtain ⟨hprovider, hl⟩ := ask_eq_ok_iff.1 hask
      obtain ⟨time, hkept, hlive⟩ := Store.get_eq_some_iff.1 hl
      exact ⟨hprovider, l, time, hkept, hlive, (hserves l).2 (Except.ok.inj h)⟩
  · intro h
    obtain ⟨hprovider, l, time, hkept, hlive, hds⟩ := h
    have hask : inv.ask (s.lookup now) (.products provider service region) = .ok l :=
      ask_eq hprovider (Store.get_eq_some_iff.2 ⟨time, hkept, hlive⟩)
    rw [hask]
    exact congrArg Except.ok ((hserves l).1 hds)

namespace ProductDetails

/-- Prices that are applied one after the other, and those that are held with the products of a region. -/
theorem prices_merged (p : Product) (prices : List Price) :
    Merges p prices (prices.foldl withPrice (ofProduct p)) ∧
    (∀ x : Binary64, x.isPositive = true ↔ x.isNaN = false ∧ Binary64.zero.rank < x.rank) ∧
    (∀ (d : ProductDetails) (price : Price), (d.withPrice price).withPrice price = d.withPrice price) ∧
    ∀ (inv : Inventory) (s : Store) (now : Nat) (provider service region : String) (ds : List ProductDetails),
      inv.products (s.lookup now) provider service region = .ok ds ↔
        provider ∈ inv.names ∧ ∃ l time, s.kept? (.products provider service region) = some ⟨l, time⟩ ∧
          now - time < s.ttl.long ∧ List.Forall₂ (Serves s now provider region) l ds :=
  ⟨merges_foldl p prices, fun _ ↦ Binary64.isPositive_iff, withPrice_withPrice,
    fun _ _ _ _ _ _ _ ↦ Inventory.products_eq_ok_iff⟩

/-- A price that is zero changes the spot prices only. -/
example : (ofProduct { (default : Product) with onDemandPrice := .ofNat 2 }).withPrice
    ⟨.zero, Dict.empty.insert "z" (.ofNat 1)⟩ =
      ⟨{ (default : Product) with onDemandPrice := .ofNat 2 }, false, [⟨"z", .ofNat 1⟩]⟩ := by decide +kernel

end ProductDetails

end CloudOffers
