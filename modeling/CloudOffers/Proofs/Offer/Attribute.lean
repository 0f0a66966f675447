import CloudOffers.Offer.Attribute
/-!
The values of an attribute are ascending, each is given once, and none that is given is missing.
Between numbers that are equal there is none that is not, so it is enough to compare neighbours.
-/

namespace CloudOffers

namespace Binary64

variable {x y z : Binary64}

theorem eq_of_rank (h : x.rank = y.rank) : x = y := by
  have hbound (x : Binary64) : x.bits.toNat < 2 * signPlace := x.bits.toNat_lt
  have hsign : signPlace = 9223372036854775808 := rfl
  have hx := hbound x
  have hy := hbound y
  have hbits : x.bits.toNat = y.bits.toNat := by
    simp only [hsign] at hx hy
    simp only [rank, negative, magnitude, hsign, decide_eq_true_eq] at h
    split at h <;> split at h <;> omega
  cases x
  cases y
  exact congrArg Binary64.mk (UInt64.toNat_inj.1 hbits)

theorem isZero_of_rank (h : x.rank = -1 ∨ x.rank = 0) : x.magnitude = 0 := by
  simp only [rank] at h
  split at h <;> omega

theorem equals_of_magnitude (hx : x.magnitude = 0) (hy : y.magnitude = 0) : x.equals y = true := by
  simp [equals, isNaN, isZero, hx, hy]

theorem rank_of_magnitude (h : x.magnitude = 0) : -1 ≤ x.rank ∧ x.rank ≤ 0 := by
  simp only [rank, h]
  split <;> omega

/-- What lies between equal numbers is equal to them. -/
theorem equals_of_between (h : x.equals y = true) (hxz : x.rank ≤ z.rank) (hzy : z.rank ≤ y.rank) :
    x.equals z = true := by
  have hcases : (x.isNaN = false ∧ x = y) ∨ (x.magnitude = 0 ∧ y.magnitude = 0) := by
    simp only [equals, isZero, Bool.and_eq_true, Bool.or_eq_true, Bool.not_eq_true',
      decide_eq_true_eq] at h
    exact h.2.imp (fun heq ↦ ⟨h.1.1, heq⟩) id
  rcases hcases with ⟨hx, rfl⟩ | ⟨hx, hy⟩
  · have hz : x = z := eq_of_rank (Int.le_antisymm hxz hzy)
    subst hz
    simp [equals, hx]
  · have hx' := rank_of_magnitude hx
    have hy' := rank_of_magnitude hy
    exact equals_of_magnitude hx (isZero_of_rank (by omega))

/-- The same number, or no number and the same bits. -/
def Alike (x y : Binary64) : Prop := x = y ∨ x.equals y = true

instance : Decidable (x.Alike y) := inferInstanceAs (Decidable (_ ∨ _))

theorem equals_iff : x.equals y = true ↔
    x.isNaN = false ∧ y.isNaN = false ∧ (x = y ∨ x.isZero = true ∧ y.isZero = true) := by
  simp only [equals, Bool.and_eq_true, Bool.or_eq_true, Bool.not_eq_true', decide_eq_true_eq,
    and_assoc]

theorem equals_symm (h : x.equals y = true) : y.equals x = true := by
  obtain ⟨hx, hy, h⟩ := equals_iff.1 h
  exact equals_iff.2 ⟨hy, hx, h.imp Eq.symm And.symm⟩

theorem equals_trans (h : x.equals y = true) (h' : y.equals z = true) : x.equals z = true := by
  obtain ⟨hx, -, heq⟩ := equals_iff.1 h
  obtain ⟨-, hz, heq'⟩ := equals_iff.1 h'
  rcases heq with rfl | heq
  · exact h'
  rcases heq' with rfl | heq'
  · exact h
  · exact equals_iff.2 ⟨hx, hz, .inr ⟨heq.1, heq'.2⟩⟩

theorem Alike.symm (h : x.Alike y) : y.Alike x := h.imp Eq.symm equals_symm

theorem Alike.trans (h : x.Alike y) (h' : y.Alike z) : x.Alike z := by
  rcases h with rfl | h
  · exact h'
  rcases h' with rfl | h'
  · exact .inr h
  · exact .inr (equals_trans h h')

end Binary64

namespace AttributeValue

def Below (a b : AttributeValue) : Prop := a.value.rank ≤ b.value.rank

def Differs (a b : AttributeValue) : Prop := a.value.equals b.value = false

theorem after_sublist (kept : AttributeValue) (l : List AttributeValue) :
    (dropRepeats.after kept l).Sublist l := by
  induction l generalizing kept with
  | nil => exact .slnil
  | cons b l ih =>
    rw [dropRepeats.after]
    split
    · exact (ih kept).cons b
    · exact (ih b).cons_cons b

theorem dropRepeats_sublist (l : List AttributeValue) : (dropRepeats l).Sublist l := by
  cases l with
  | nil => exact .slnil
  | cons a l => exact (after_sublist a l).cons_cons a

theorem exists_mem_after (kept : AttributeValue) {l : List AttributeValue} {x : AttributeValue}
    (h : x ∈ kept :: l) :
    ∃ y ∈ kept :: dropRepeats.after kept l, y = x ∨ y.value.equals x.value = true := by
  induction l generalizing kept with
  | nil => exact ⟨x, h, .inl rfl⟩
  | cons b l ih =>
    rw [dropRepeats.after]
    split
    · next heq =>
      rcases List.mem_cons.1 h with rfl | h
      · exact ⟨x, List.mem_cons_self, .inl rfl⟩
      rcases List.mem_cons.1 h with rfl | h
      · exact ⟨kept, List.mem_cons_self, .inr heq⟩
      · exact ih kept (List.mem_cons_of_mem _ h)
    · rcases List.mem_cons.1 h with rfl | h
      · exact ⟨x, List.mem_cons_self, .inl rfl⟩
      · obtain ⟨y, hy, hyx⟩ := ih b h
        exact ⟨y, List.mem_cons_of_mem _ hy, hyx⟩

theorem exists_mem_dropRepeats {l : List AttributeValue} {x : AttributeValue} (h : x ∈ l) :
    ∃ y ∈ dropRepeats l, y = x ∨ y.value.equals x.value = true := by
  cases l with
  | nil => cases h
  | cons a l => exact exists_mem_after a h

/-- Values that are not neighbours differ as well: they are ascending. -/
theorem after_differs {kept : AttributeValue} {l : List AttributeValue}
    (h : (kept :: l).Pairwise Below) : (kept :: dropRepeats.after kept l).Pairwise Differs := by
  induction l generalizing kept with
  | nil => exact List.pairwise_singleton ..
  | cons b l ih =>
    obtain ⟨hkept, hl⟩ := List.pairwise_cons.1 h
    rw [dropRepeats.after]
    split
    · exact ih (h.sublist ((List.sublist_cons_self b l).cons_cons kept))
    · next hne =>
      refine List.pairwise_cons.2 ⟨fun y hy ↦ ?_, ih hl⟩
      rw [Differs, Bool.eq_false_iff]
      intro heq
      have hby : Below b y := by
        rcases List.mem_cons.1 hy with rfl | hy
        · exact Int.le_refl _
        · exact (List.pairwise_cons.1 hl).1 y ((after_sublist b l).subset hy)
      exact hne (Binary64.equals_of_between heq (hkept b List.mem_cons_self) hby)

theorem dropRepeats_differs {l : List AttributeValue} (h : l.Pairwise Below) :
    (dropRepeats l).Pairwise Differs := by
  cases l with
  | nil => exact .nil
  | cons a l => exact after_differs h

end AttributeValue

namespace AttributeValues

open AttributeValue (Below Differs)

theorem le_trans (a b c : AttributeValue) (hab : a.value.le b.value) (hbc : b.value.le c.value) :
    a.value.le c.value := by
  simp only [Binary64.le, decide_eq_true_eq] at hab hbc ⊢
  exact Int.le_trans hab hbc

theorem le_total (a b : AttributeValue) : a.value.le b.value || b.value.le a.value := by
  simp only [Binary64.le, Bool.or_eq_true, decide_eq_true_eq]
  exact Int.le_total ..

theorem mergeSort_below (items : List AttributeValue) :
    (items.mergeSort (fun a b ↦ a.value.le b.value)).Pairwise Below := by
  have hsorted := List.pairwise_mergeSort le_trans le_total items
  exact hsorted.imp of_decide_eq_true

theorem ofItems_below (items : List AttributeValue) : (ofItems items).items.Pairwise Below :=
  (mergeSort_below items).sublist (AttributeValue.dropRepeats_sublist _)

theorem ofItems_differs (items : List AttributeValue) : (ofItems items).items.Pairwise Differs :=
  AttributeValue.dropRepeats_differs (mergeSort_below items)

theorem mem_of_mem_ofItems {items : List AttributeValue} {a : AttributeValue}
    (h : a ∈ (ofItems items).items) : a ∈ items :=
  List.mem_mergeSort.1 ((AttributeValue.dropRepeats_sublist _).subset h)

theorem exists_mem_ofItems {items : List AttributeValue} {a : AttributeValue} (h : a ∈ items) :
    ∃ b ∈ (ofItems items).items, b = a ∨ b.value.equals a.value = true :=
  AttributeValue.exists_mem_dropRepeats (List.mem_mergeSort.2 h)

/-- The ascending distinct values of a list: each of them is one of the list, and each one of the list
is equal to one of them. -/
structure Enumerates (values xs : List Binary64) : Prop where
  ascending : values.Pairwise (fun x y ↦ x.rank ≤ y.rank)
  distinct : values.Pairwise (fun x y ↦ x.equals y = false)
  sound : ∀ x ∈ values, x ∈ xs
  complete : ∀ x ∈ xs, ∃ y ∈ values, y = x ∨ y.equals x = true

theorem floats_ofFloats (xs : List Binary64) : Enumerates (ofFloats xs).floats xs where
  ascending := List.pairwise_map.2 (ofItems_below _)
  distinct := List.pairwise_map.2 (ofItems_differs _)
  sound x hx := by
    obtain ⟨a, ha, rfl⟩ := List.mem_map.1 hx
    obtain ⟨y, hy, rfl⟩ := List.mem_map.1 (mem_of_mem_ofItems ha)
    exact hy
  complete x hx := by
    obtain ⟨b, hb, heq⟩ := exists_mem_ofItems (List.mem_map_of_mem (f := AttributeValue.ofFloat) hx)
    exact ⟨b.value, List.mem_map_of_mem hb, heq.imp (congrArg AttributeValue.value) id⟩

theorem Enumerates.congr {values xs ys : List Binary64} (h : Enumerates values xs)
    (heq : ∀ x, x ∈ xs ↔ x ∈ ys) : Enumerates values ys where
  ascending := h.ascending
  distinct := h.distinct
  sound x hx := (heq x).1 (h.sound x hx)
  complete x hx := h.complete x ((heq x).2 hx)

/-- The values that two lists have together are those of the first just in case the second has no
others. -/
theorem Enumerates.alike_iff {α β : Type} {values : List Binary64} {l : List α} {m : List β}
    {f : α → Binary64} {g : β → Binary64} (h : Enumerates values (l.map f ++ m.map g)) :
    (∀ x ∈ values, ∃ a ∈ l, x.Alike (f a)) ↔ ∀ b ∈ m, ∃ a ∈ l, (g b).Alike (f a) := by
  constructor
  · intro hvalues b hb
    obtain ⟨x, hx, hxb⟩ := h.complete (g b) (List.mem_append_right _ (List.mem_map_of_mem hb))
    obtain ⟨a, ha, hxa⟩ := hvalues x hx
    exact ⟨a, ha, (Binary64.Alike.symm hxb).trans hxa⟩
  · intro hothers x hx
    rcases List.mem_append.1 (h.sound x hx) with hl | hm
    · obtain ⟨a, ha, rfl⟩ := List.mem_map.1 hl
      exact ⟨a, ha, .inl rfl⟩
    · obtain ⟨b, hb, rfl⟩ := List.mem_map.1 hm
      exact hothers b hb

end AttributeValues

end CloudOffers
