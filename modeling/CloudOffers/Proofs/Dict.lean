import CloudOffers.Text.Ascending
import Mathlib.Data.List.Dedup
/-!
Maps built from lists, and the texts of a list in ascending order. That order leaves no choice, however the
texts are put into it.
-/

namespace CloudOffers

/-- An entry of a list that no later one replaces. -/
def LastEntry {κ α : Type} (l : List (κ × α)) (k : κ) (v : α) : Prop :=
  ∃ before after, l = before ++ (k, v) :: after ∧ ∀ e ∈ after, e.1 ≠ k

theorem lastEntry_iff {κ α : Type} [DecidableEq κ] {l : List (κ × α)} {k : κ} {v : α} :
    LastEntry l k v ↔ (l.reverse.find? (fun e ↦ e.1 = k)).map (·.2) = some v := by
  rw [Option.map_eq_some_iff]
  constructor
  · rintro ⟨before, after, rfl, hafter⟩
    refine ⟨(k, v), List.find?_eq_some_iff_append.2 ⟨decide_eq_true rfl, after.reverse, before.reverse, by simp, ?_⟩, rfl⟩
    intro e he
    simpa using hafter e (List.mem_reverse.1 he)
  · rintro ⟨⟨k', v'⟩, hfind, rfl⟩
    obtain ⟨hkey, after, before, hl, hafter⟩ := List.find?_eq_some_iff_append.1 hfind
    obtain rfl : k' = k := of_decide_eq_true hkey
    refine ⟨before.reverse, after.reverse, by rw [← List.reverse_reverse l, hl]; simp, fun e he ↦ ?_⟩
    simpa using hafter e (List.mem_reverse.1 he)

namespace Dict

variable {κ α : Type} [LT κ] [DecidableEq κ] [DecidableLT κ] [KeyOrder κ]

/-- The last entry of a key counts. -/
theorem get?_ofList (l : List (κ × α)) (k : κ) :
    (ofList l).get? k = (l.reverse.find? (fun e ↦ e.1 = k)).map (·.2) := by
  have h (d : Dict κ α) : (l.foldl (fun d e ↦ d.insert e.1 e.2) d).get? k =
      ((l.reverse.find? (fun e ↦ e.1 = k)).map (·.2)).or (d.get? k) := by
    induction l generalizing d with
    | nil => rfl
    | cons e l ih =>
      rw [List.foldl_cons, ih, get?_insert, List.reverse_cons, List.find?_append, Option.map_or,
        Option.or_assoc]
      by_cases hk : e.1 = k
      · simp [hk]
      · simp [hk, Ne.symm hk]
  rw [ofList, h, get?_empty, Option.or_none]

theorem get?_ofList_eq_some_iff {l : List (κ × α)} {k : κ} {v : α} :
    (ofList l).get? k = some v ↔ LastEntry l k v := by
  rw [get?_ofList, lastEntry_iff]

theorem get?_ofList_eq_none_iff {l : List (κ × α)} {k : κ} : (ofList l).get? k = none ↔ ∀ e ∈ l, e.1 ≠ k := by
  rw [get?_ofList, Option.map_eq_none_iff, List.find?_eq_none]
  simp

theorem get?_ofList_map_value {β : Type} (l : List (κ × α)) (f : α → β) (k : κ) :
    (ofList (l.map (fun e ↦ (e.1, f e.2)))).get? k = ((ofList l).get? k).map f := by
  rw [get?_ofList, get?_ofList, ← List.map_reverse, List.find?_map, Option.map_map, Option.map_map]
  rfl

theorem get?_ofList_map (l : List κ) (f : κ → α) (k : κ) :
    (ofList (l.map (fun x ↦ (x, f x)))).get? k = if k ∈ l then some (f k) else none := by
  rw [get?_ofList, ← List.map_reverse, List.find?_map]
  cases h : l.reverse.find? ((fun e : κ × α ↦ decide (e.1 = k)) ∘ fun x ↦ (x, f x)) with
  | none =>
    have hk : k ∉ l := fun hk ↦ by simpa using List.find?_eq_none.1 h k (List.mem_reverse.2 hk)
    rw [if_neg hk]
    rfl
  | some x =>
    have hx : x = k := by simpa using List.find?_some h
    subst hx
    rw [if_pos (List.mem_reverse.1 (List.mem_of_find?_eq_some h))]
    rfl

omit [DecidableLT κ] in
theorem mem_keys_iff {d : Dict κ α} {k : κ} : k ∈ d.keys ↔ (d.get? k).isSome := by
  rw [keys, List.mem_map, Option.isSome_iff_exists]
  constructor
  · rintro ⟨⟨k, v⟩, hmem, rfl⟩
    exact ⟨v, mem_entries_iff.1 hmem⟩
  · rintro ⟨v, hv⟩
    exact ⟨(k, v), mem_entries_iff.2 hv, rfl⟩

theorem mem_keys_ofList {l : List (κ × α)} {k : κ} : k ∈ (ofList l).keys ↔ k ∈ l.map (·.1) := by
  rw [mem_keys_iff, get?_ofList, Option.isSome_map, List.find?_isSome, List.mem_map]
  simp

theorem mem_of_mem_entries_ofList {l : List (κ × α)} {e : κ × α} (h : e ∈ (ofList l).entries) : e ∈ l := by
  obtain ⟨k, v⟩ := e
  rw [mem_entries_iff, get?_ofList, Option.map_eq_some_iff] at h
  obtain ⟨e, he, rfl⟩ := h
  obtain rfl : e.1 = k := by simpa using List.find?_some he
  exact List.mem_reverse.1 (List.mem_of_find?_eq_some he)

omit [DecidableEq κ] [DecidableLT κ] in
theorem nodup_keys (d : Dict κ α) : (d.entries.map (·.1)).Nodup := by
  refine (List.pairwise_map.2 d.ascending).imp ?_
  rintro a b hlt rfl
  exact KeyOrder.irrefl a hlt

theorem ofList_entries (d : Dict κ α) : ofList d.entries = d := by
  refine ext_get? fun k ↦ ?_
  rw [get?_ofList]
  cases h : d.entries.reverse.find? (fun e ↦ e.1 = k) with
  | none =>
    cases hk : d.get? k with
    | none => rfl
    | some v => simpa using List.find?_eq_none.1 h (k, v) (List.mem_reverse.2 (mem_entries_iff.2 hk))
  | some e =>
    obtain ⟨k', v⟩ := e
    obtain rfl : k' = k := by simpa using List.find?_some h
    exact (mem_entries_iff.1 (List.mem_reverse.1 (List.mem_of_find?_eq_some h))).symm

end Dict

/-- The texts of a list in ascending order, each once. -/
def inOrder (l : List String) : List String := l.dedup.mergeSort (fun a b ↦ decide (a ≤ b))

theorem mem_inOrder {l : List String} {s : String} : s ∈ inOrder l ↔ s ∈ l := by
  rw [inOrder, List.mem_mergeSort, List.mem_dedup]

theorem inOrder_pairwise (l : List String) : (inOrder l).Pairwise (· < ·) := by
  have hsorted : (inOrder l).Pairwise (fun a b ↦ decide (a ≤ b)) := by
    refine List.pairwise_mergeSort (fun a b c hab hbc ↦ ?_) (fun a b ↦ ?_) _
    · exact decide_eq_true (String.le_trans (of_decide_eq_true hab) (of_decide_eq_true hbc))
    · simpa using String.le_total a b
  have hdistinct : (inOrder l).Nodup := (List.mergeSort_perm ..).nodup_iff.2 (List.nodup_dedup l)
  refine hsorted.imp₂ (fun a b hle hne ↦ ?_) hdistinct
  exact String.not_le.1 fun hge ↦ hne (String.le_antisymm (of_decide_eq_true hle) hge)

/-- Ascending texts are determined by which texts they are. -/
theorem eq_of_ascending_texts {a b : List String} (ha : a.Pairwise (· < ·)) (hb : b.Pairwise (· < ·))
    (h : ∀ s, s ∈ a ↔ s ∈ b) : a = b := by
  have hnodup {l : List String} (hl : l.Pairwise (· < ·)) : l.Nodup := by
    refine hl.imp ?_
    rintro s _ hlt rfl
    exact String.lt_irrefl s hlt
  refine ((List.perm_ext_iff_of_nodup (hnodup ha) (hnodup hb)).2 h).eq_of_pairwise (fun s t _ _ hst hts ↦ ?_) ha hb
  exact absurd hts (KeyOrder.asymm hst)

theorem ascending_pairwise (l : List String) : (ascending l).Pairwise (· < ·) := by
  rw [ascending, Dict.keys, List.pairwise_map]
  exact (Dict.ofList _).ascending

theorem mem_ascending {l : List String} {s : String} : s ∈ ascending l ↔ s ∈ l := by
  rw [ascending, Dict.mem_keys_ofList, List.map_map]
  simp

theorem ascending_eq_inOrder (l : List String) : ascending l = inOrder l :=
  eq_of_ascending_texts (ascending_pairwise l) (inOrder_pairwise l) fun _ ↦ mem_ascending.trans mem_inOrder.symm

theorem ascending_nodup (l : List String) : (ascending l).Nodup := by
  apply (ascending_pairwise l).imp
  rintro a b hlt rfl
  exact String.lt_irrefl a hlt

end CloudOffers
