import CloudOffers.Catalog
import CloudOffers.Proofs.Offer.Attribute
import Mathlib.Data.List.Perm.Basic
/-!
Attribute values as a canonical list. They are sorted in one order and compared by another equality; what
is kept of equal values is what the sort puts first, and the order in which floats are given shows nowhere.
-/

namespace CloudOffers

namespace Binary64

variable {x y z : Binary64}

def negativeZero : Binary64 := ofMagnitude true 0

theorem equals_congr (h : x.equals y = true) (z : Binary64) : x.equals z = y.equals z :=
  Bool.eq_iff_iff.2 ⟨equals_trans (equals_symm h), equals_trans h⟩

theorem equals_iff_of_ne_zero (hx : x.isNaN = false) (hzero : x.isZero = false) :
    y.equals x = true ↔ y = x := by
  rw [equals_iff]
  constructor
  · intro h
    obtain ⟨-, -, rfl | ⟨-, hx'⟩⟩ := h
    · rfl
    · rw [hzero] at hx'
      cases hx'
  · intro h
    subst h
    exact ⟨hx, hx, .inl rfl⟩

theorem isZero_iff : x.isZero = true ↔ x = negativeZero ∨ x = zero := by
  have hnegative : negativeZero.rank = -1 := by decide
  have hzero : zero.rank = 0 := by decide
  constructor
  · intro h
    obtain ⟨hlow, hhigh⟩ := rank_of_magnitude (of_decide_eq_true h)
    rcases Int.le_iff_lt_or_eq.1 hhigh with hlt | heq
    · exact .inl (eq_of_rank (by omega))
    · exact .inr (eq_of_rank (by omega))
  · intro h
    rcases h with rfl | rfl
    · decide
    · decide

theorem equals_iff_of_zero (hx : x.isZero = true) : y.equals x = true ↔ y = negativeZero ∨ y = zero := by
  have hnumber {z : Binary64} (h : z.isZero = true) : z.isNaN = false := by
    rcases isZero_iff.1 h with rfl | rfl <;> decide
  rw [equals_iff, ← isZero_iff]
  constructor
  · intro h
    obtain ⟨-, -, rfl | ⟨hy, -⟩⟩ := h
    · exact hx
    · exact hy
  · intro h
    exact ⟨hnumber h, hnumber hx, .inr ⟨h, hx⟩⟩

end Binary64

namespace AttributeValue

variable {l l' : List AttributeValue}

def firstEqual (x : Binary64) (l : List AttributeValue) : Option AttributeValue :=
  l.find? (fun a ↦ a.value.equals x)

theorem firstEqual_after (x : Binary64) (kept : AttributeValue) (l : List AttributeValue) :
    firstEqual x (kept :: dropRepeats.after kept l) = firstEqual x (kept :: l) := by
  induction l generalizing kept with
  | nil => rfl
  | cons b l ih =>
    rw [dropRepeats.after]
    cases hx : kept.value.equals x with
    | true => simp only [firstEqual, List.find?_cons, hx]
    | false =>
      split
      next heq =>
        have hb : b.value.equals x = false := (Binary64.equals_congr heq x).symm.trans hx
        rw [ih kept]
        simp only [firstEqual, List.find?_cons, hx, hb]
      next =>
        have hskip (m : List AttributeValue) : firstEqual x (kept :: m) = firstEqual x m :=
          List.find?_cons_of_neg (by simpa using hx)
        rw [hskip, hskip, ih b]

/-- What is dropped is equal to what was kept before it, so the first of equal values stays. -/
theorem firstEqual_dropRepeats (x : Binary64) (l : List AttributeValue) :
    firstEqual x (dropRepeats l) = firstEqual x l := by
  cases l with
  | nil => rfl
  | cons a l => exact firstEqual_after x a l

theorem filter_isNaN_after (kept : AttributeValue) (l : List AttributeValue) :
    (dropRepeats.after kept l).filter (·.value.isNaN) = l.filter (·.value.isNaN) := by
  induction l generalizing kept with
  | nil => rfl
  | cons b l ih =>
    rw [dropRepeats.after]
    split
    next heq =>
      obtain ⟨-, hb, -⟩ := Binary64.equals_iff.1 heq
      rw [ih kept, List.filter_cons, hb, if_neg Bool.false_ne_true]
    next => rw [List.filter_cons, List.filter_cons, ih b]

theorem filter_isNaN_dropRepeats (l : List AttributeValue) :
    (dropRepeats l).filter (·.value.isNaN) = l.filter (·.value.isNaN) := by
  cases l with
  | nil => rfl
  | cons a l => rw [dropRepeats, List.filter_cons, List.filter_cons, filter_isNaN_after]

theorem after_of_differs {kept : AttributeValue} (h : (kept :: l).Pairwise Differs) :
    dropRepeats.after kept l = l := by
  induction l generalizing kept with
  | nil => rfl
  | cons b l ih =>
    obtain ⟨hkept, hl⟩ := List.pairwise_cons.1 h
    have hb : kept.value.equals b.value = false := hkept b List.mem_cons_self
    rw [dropRepeats.after, hb, if_neg Bool.false_ne_true, ih hl]

theorem dropRepeats_of_differs (h : l.Pairwise Differs) : dropRepeats l = l := by
  cases l with
  | nil => rfl
  | cons a l => rw [dropRepeats, after_of_differs h]

/-- The same items in ascending order, of which those with the same bits stay in the order given. -/
structure Sorts (items sorted : List AttributeValue) : Prop where
  perm : sorted.Perm items
  ascending : sorted.Pairwise Below
  stable : ∀ x : Binary64, sorted.filter (·.value = x) = items.filter (·.value = x)

theorem mem_of_filter_eq (h : ∀ x : Binary64, l.filter (·.value = x) = l'.filter (·.value = x)) {a : AttributeValue}
    (ha : a ∈ l) : a ∈ l' := by
  have hfilter : a ∈ l.filter (·.value = a.value) := List.mem_filter.2 ⟨ha, decide_eq_true rfl⟩
  rw [h] at hfilter
  exact (List.mem_filter.1 hfilter).1

theorem cons_inj_of_filter_eq {a b : AttributeValue} (hvalue : a.value = b.value)
    (h : ∀ x : Binary64, (a :: l).filter (·.value = x) = (b :: l').filter (·.value = x)) :
    a = b ∧ ∀ x : Binary64, l.filter (·.value = x) = l'.filter (·.value = x) := by
  have hcons (x : Binary64) : (if a.value = x then a :: l.filter (·.value = x) else l.filter (·.value = x)) =
      if a.value = x then b :: l'.filter (·.value = x) else l'.filter (·.value = x) := by
    simpa [List.filter_cons, hvalue] using h x
  refine ⟨?_, fun x ↦ ?_⟩
  · have hself := hcons a.value
    rw [if_pos rfl, if_pos rfl] at hself
    exact (List.cons.inj hself).1
  · have hx := hcons x
    split at hx
    · exact (List.cons.inj hx).2
    · exact hx

theorem eq_of_ascending (hl : l.Pairwise Below) (hl' : l'.Pairwise Below)
    (h : ∀ x : Binary64, l.filter (·.value = x) = l'.filter (·.value = x)) : l = l' := by
  induction l generalizing l' with
  | nil =>
    refine (List.eq_nil_iff_forall_not_mem.2 fun a ha ↦ ?_).symm
    cases mem_of_filter_eq (fun x ↦ (h x).symm) ha
  | cons a l ih =>
    cases l' with
    | nil => cases mem_of_filter_eq h List.mem_cons_self
    | cons b l' =>
      obtain ⟨ha, hl⟩ := List.pairwise_cons.1 hl
      obtain ⟨hb, hl'⟩ := List.pairwise_cons.1 hl'
      -- each of the two is below the other, so their values are the same
      have hab : a.value.rank ≤ b.value.rank := by
        rcases List.mem_cons.1 (mem_of_filter_eq (fun x ↦ (h x).symm) List.mem_cons_self) with rfl | hmem
        · exact Int.le_refl _
        · exact ha b hmem
      have hba : b.value.rank ≤ a.value.rank := by
        rcases List.mem_cons.1 (mem_of_filter_eq h List.mem_cons_self) with rfl | hmem
        · exact Int.le_refl _
        · exact hb a hmem
      obtain ⟨heq, hrest⟩ := cons_inj_of_filter_eq (Binary64.eq_of_rank (Int.le_antisymm hab hba)) h
      rw [heq, ih hl hl' hrest]

theorem Sorts.eq {items : List AttributeValue} (h : Sorts items l) (h' : Sorts items l') : l = l' :=
  eq_of_ascending h.ascending h'.ascending fun x ↦ (h.stable x).trans (h'.stable x).symm

theorem sorts_mergeSort (items : List AttributeValue) :
    Sorts items (items.mergeSort (fun a b ↦ a.value.le b.value)) where
  perm := List.mergeSort_perm ..
  ascending := AttributeValues.mergeSort_below items
  stable x := by
    have hsame : (items.filter (·.value = x)).Pairwise (fun a b ↦ a.value.le b.value) := by
      refine List.pairwise_of_forall_mem_list fun a ha b hb ↦ ?_
      have hax : a.value = x := of_decide_eq_true (List.mem_filter.1 ha).2
      have hbx : b.value = x := of_decide_eq_true (List.mem_filter.1 hb).2
      rw [hax, hbx, Binary64.le]
      exact decide_eq_true (Int.le_refl _)
    have hsub := List.sublist_mergeSort AttributeValues.le_trans AttributeValues.le_total hsame List.filter_sublist
    have hfilter := hsub.filter (·.value = x)
    simp only [List.filter_filter, Bool.and_self] at hfilter
    exact (hfilter.eq_of_length ((List.mergeSort_perm ..).filter _).length_eq.symm).symm

namespace Sorts

variable {items sorted : List AttributeValue} {x : Binary64}

theorem find?_eq (h : Sorts items sorted) (x : Binary64) :
    sorted.find? (·.value = x) = items.find? (·.value = x) := by
  rw [← List.head?_filter, ← List.head?_filter, h.stable]

theorem firstEqual_eq (h : Sorts items sorted) (hx : x.isNaN = false) (hzero : x.isZero = false) :
    firstEqual x sorted = items.find? (·.value = x) := by
  have hequals : (fun a : AttributeValue ↦ a.value.equals x) = fun a ↦ decide (a.value = x) :=
    funext fun a ↦ Bool.eq_iff_iff.2 ((Binary64.equals_iff_of_ne_zero hx hzero).trans decide_eq_true_iff.symm)
  rw [← h.find?_eq, firstEqual, hequals]

end Sorts

open Binary64 (negativeZero)

/-- In ascending order the negative zeros come before the others. -/
theorem find?_zeros (h : l.Pairwise Below) :
    l.find? (fun a ↦ decide (a.value = negativeZero ∨ a.value = .zero)) =
      (l.find? (·.value = negativeZero)).or (l.find? (·.value = .zero)) := by
  induction l with
  | nil => rfl
  | cons a l ih =>
    obtain ⟨ha, hl⟩ := List.pairwise_cons.1 h
    by_cases hnegative : a.value = negativeZero
    · rw [List.find?_cons_of_pos (by simpa using .inl hnegative), List.find?_cons_of_pos (by simpa using hnegative),
        Option.some_or]
    by_cases hzero : a.value = .zero
    · have hnone : l.find? (·.value = negativeZero) = none := by
        refine List.find?_eq_none.2 fun b hb hvalue ↦ ?_
        have hle : a.value.rank ≤ b.value.rank := ha b hb
        rw [hzero, of_decide_eq_true hvalue] at hle
        exact absurd hle (by decide)
      rw [List.find?_cons_of_pos (by simpa using .inr hzero), List.find?_cons_of_neg (by simpa using hnegative),
        hnone, Option.none_or, List.find?_cons_of_pos (by simpa using hzero)]
    · rw [List.find?_cons_of_neg (by simpa using ⟨hnegative, hzero⟩),
        List.find?_cons_of_neg (by simpa using hnegative), List.find?_cons_of_neg (by simpa using hzero), ih hl]

theorem Sorts.firstEqual_zero {items sorted : List AttributeValue} {x : Binary64} (h : Sorts items sorted)
    (hx : x.isZero = true) : firstEqual x sorted =
      (items.find? (·.value = negativeZero)).or (items.find? (·.value = .zero)) := by
  have hequals : (fun a : AttributeValue ↦ a.value.equals x) =
      fun a ↦ decide (a.value = negativeZero ∨ a.value = .zero) :=
    funext fun a ↦ Bool.eq_iff_iff.2 ((Binary64.equals_iff_of_zero hx).trans decide_eq_true_iff.symm)
  rw [← h.find?_eq, ← h.find?_eq, ← find?_zeros h.ascending, firstEqual, hequals]

end AttributeValue

namespace AttributeValues

open AttributeValue (Below Differs Sorts firstEqual)
open Binary64 (negativeZero)

/-- What is kept of some items, given how they are sorted. -/
structure Selects (items sorted kept : List AttributeValue) : Prop where
  sublist : kept.Sublist sorted
  ascending : kept.Pairwise Below
  distinct : kept.Pairwise Differs
  complete : ∀ a ∈ items, a.value.isNaN = false → ∃ b ∈ kept, b.value.equals a.value = true
  /-- What is no number is kept as often as it is given. -/
  numberless : kept.filter (·.value.isNaN) = sorted.filter (·.value.isNaN)
  first : ∀ x, firstEqual x kept = firstEqual x sorted
  /-- Of the zeros the first negative one is kept, if there is one. -/
  zero : ∀ x : Binary64, x.isZero = true → firstEqual x kept =
    (items.find? (·.value = negativeZero)).or (items.find? (·.value = .zero))
  /-- Of other equal numbers the first that is given is kept, with its text. -/
  nonzero : ∀ x : Binary64, x.isNaN = false → x.isZero = false → firstEqual x kept = items.find? (·.value = x)
  strict : (∀ a ∈ items, a.value.isNaN = false) → kept.Pairwise (fun a b ↦ a.value.rank < b.value.rank)

variable {items sorted : List AttributeValue} {xs ys : List Binary64} {c : Catalog}

theorem rank_lt_of_differs {a b : AttributeValue} (ha : a.value.isNaN = false) (hbelow : Below a b)
    (hdiffers : Differs a b) : a.value.rank < b.value.rank := by
  refine Int.lt_iff_le_and_ne.2 ⟨hbelow, fun hrank ↦ ?_⟩
  have hequals : a.value.equals a.value = true := Binary64.equals_iff.2 ⟨ha, ha, .inl rfl⟩
  rw [Differs, ← Binary64.eq_of_rank hrank, hequals] at hdiffers
  cases hdiffers

theorem selects_ofItems (h : Sorts items sorted) : Selects items sorted (ofItems items).items := by
  have hsorted : (ofItems items).items = AttributeValue.dropRepeats sorted :=
    congrArg AttributeValue.dropRepeats ((AttributeValue.sorts_mergeSort items).eq h)
  have hfirst (x : Binary64) : firstEqual x (ofItems items).items = firstEqual x sorted := by
    rw [hsorted, AttributeValue.firstEqual_dropRepeats]
  exact
    { sublist := hsorted ▸ AttributeValue.dropRepeats_sublist sorted
      ascending := ofItems_below items
      distinct := ofItems_differs items
      complete := fun a ha hnumber ↦ by
        obtain ⟨b, hb, rfl | hequals⟩ := exists_mem_ofItems ha
        · exact ⟨b, hb, Binary64.equals_iff.2 ⟨hnumber, hnumber, .inl rfl⟩⟩
        · exact ⟨b, hb, hequals⟩
      numberless := by rw [hsorted, AttributeValue.filter_isNaN_dropRepeats]
      first := hfirst
      zero := fun x hx ↦ (hfirst x).trans (h.firstEqual_zero hx)
      nonzero := fun x hx hzero ↦ (hfirst x).trans (h.firstEqual_eq hx hzero)
      strict := fun hnumbers ↦ by
        refine ((ofItems_below items).and (ofItems_differs items)).imp_of_mem fun ha _ hab ↦ ?_
        exact rank_lt_of_differs (hnumbers _ (mem_of_mem_ofItems ha)) hab.1 hab.2 }

theorem ofItems_items (items : List AttributeValue) : ofItems (ofItems items).items = ofItems items := by
  have hsorted : (ofItems items).items.mergeSort (fun a b ↦ a.value.le b.value) = (ofItems items).items :=
    List.mergeSort_of_pairwise ((ofItems_below items).imp fun hbelow ↦ by
      rw [Binary64.le]
      exact decide_eq_true hbelow)
  rw [ofItems, hsorted, AttributeValue.dropRepeats_of_differs (ofItems_differs items)]

theorem ofFloats_perm (h : xs.Perm ys) : ofFloats xs = ofFloats ys := by
  have hperm : ((xs.map AttributeValue.ofFloat).mergeSort (fun a b ↦ a.value.le b.value)).Perm
      ((ys.map AttributeValue.ofFloat).mergeSort (fun a b ↦ a.value.le b.value)) :=
    (List.mergeSort_perm ..).trans ((h.map _).trans (List.mergeSort_perm ..).symm)
  have hsorted := hperm.eq_of_pairwise (fun a b ha hb hab hba ↦ ?_) (mergeSort_below _) (mergeSort_below _)
  · rw [ofFloats, ofFloats, ofItems, ofItems, hsorted]
  · -- an item made from a float has no text of its own
    obtain ⟨x, -, rfl⟩ := List.mem_map.1 (List.mem_mergeSort.1 ha)
    obtain ⟨y, -, rfl⟩ := List.mem_map.1 (List.mem_mergeSort.1 hb)
    exact congrArg AttributeValue.ofFloat (Binary64.eq_of_rank (Int.le_antisymm hab hba))

theorem ofFloats_products (amount : Product → Binary64) {entries : List (String × List Product)}
    (h : entries.Perm c.products.entries) :
    ofFloats (entries.flatMap (fun e ↦ e.2.map amount)) = ofFloats (c.products.values.flatten.map amount) := by
  have hvalues : c.products.values.flatten.map amount =
      c.products.entries.flatMap (fun e ↦ e.2.map amount) := by
    rw [List.map_flatten, Dict.values, List.map_map, List.flatMap_def]
    rfl
  rw [hvalues]
  exact ofFloats_perm (h.flatMap_right _)

/-- Attribute values are a canonical list of what is given: ascending in the total order, no two of them
equal as numbers, of equal numbers the one that a stable sort puts first. Doing it again changes nothing, and
floats make the same list in whichever order they come, so that of the regions of a catalog does not matter. -/
theorem ofItems_canonical (items : List AttributeValue) (xs : List Binary64) (c : Catalog) :
    (∃ sorted, Sorts items sorted) ∧
    (∀ sorted, Sorts items sorted → Selects items sorted (ofItems items).items) ∧
    ofItems (ofItems items).items = ofItems items ∧
    (∀ ys, ys.Perm xs → ofFloats ys = ofFloats xs) ∧
    ∀ entries : List (String × List Product), entries.Perm c.products.entries →
      c.attributeValues Attribute.cpu = .ok (ofFloats (entries.flatMap (fun e ↦ e.2.map Product.cpus))) ∧
      c.attributeValues Attribute.memory = .ok (ofFloats (entries.flatMap (fun e ↦ e.2.map Product.memory))) := by
  refine ⟨⟨_, AttributeValue.sorts_mergeSort items⟩, fun _ ↦ selects_ofItems, ofItems_items items,
    fun _ ↦ ofFloats_perm, fun entries h ↦ ⟨?_, ?_⟩⟩
  · rw [Catalog.attributeValues, if_pos rfl, ofFloats_products _ h]
  · have hother : Attribute.memory ≠ Attribute.cpu := by decide
    rw [Catalog.attributeValues, if_neg hother, if_pos rfl, ofFloats_products _ h]

end AttributeValues

end CloudOffers
