import CloudOffers.Proofs.Dict
import CloudOffers.Proofs.Store.Write
import Mathlib.Data.List.Nodup
/-!
How many entries a store counts. Only what they are held under matters, and a write under what is
held already adds none.
-/

namespace CloudOffers

theorem Dict.length_entries_congr {κ α β : Type} [LT κ] [DecidableEq κ] [DecidableLT κ] [KeyOrder κ]
    {d : Dict κ α} {e : Dict κ β} (h : ∀ k, (d.get? k).isSome ↔ (e.get? k).isSome) :
    d.entries.length = e.entries.length := by
  have hperm : d.keys.Perm e.keys := by
    refine (List.perm_ext_iff_of_nodup d.nodup_keys e.nodup_keys).2 fun k ↦ ?_
    exact mem_keys_iff.trans ((h k).trans mem_keys_iff.symm)
  simpa [keys] using hperm.length_eq

namespace Store

variable {s : Store} {l l' : List Write} {c : Category} {a : List String}

/-- Whether a table has an entry, expired or not. -/
def Holds (s : Store) (c : Category) (a : List String) : Prop :=
  ((s.table c).entries.get? a).isSome

theorem holds_write (w : Write) : (s.write w).Holds c a ↔
    (w.key.category = c ∧ w.key.arguments = a) ∨ s.Holds c a := by
  by_cases h : w.key.category = c ∧ w.key.arguments = a
  · obtain ⟨rfl, rfl⟩ := h
    have hkept := kept?_put_self s w.time w.key w.payload
    have hholds : (s.write w).Holds w.key.category w.key.arguments := Option.isSome_of_eq_some hkept
    simp [hholds]
  · have hsame : ((s.write w).table c).entries.get? a = (s.table c).entries.get? a :=
      get?_setTable_insert_of_ne s w.time h w.payload
    rw [or_iff_right h, Holds, hsame]
    rfl

theorem holds_writeAll : (s.writeAll l).Holds c a ↔
    (∃ w ∈ l, w.key.category = c ∧ w.key.arguments = a) ∨ s.Holds c a := by
  induction l generalizing s with
  | nil => simp [writeAll]
  | cons w l ih =>
    change ((s.write w).writeAll l).Holds c a ↔ _
    rw [ih, holds_write, List.exists_mem_cons_iff]
    exact or_left_comm.trans or_assoc.symm

theorem count_congr {s' : Store} (h : ∀ a, s.Holds c a ↔ s'.Holds c a) : s.count c = s'.count c :=
  Dict.length_entries_congr h

theorem count_writeAll_again (h : ∀ w ∈ l', ∃ w' ∈ l, w'.key = w.key) (c : Category) :
    ((s.writeAll l).writeAll l').count c = (s.writeAll l).count c := by
  refine count_congr fun a ↦ ?_
  rw [holds_writeAll, or_iff_right_iff_imp]
  intro hwritten
  obtain ⟨w, hw, hkey⟩ := hwritten
  obtain ⟨w', hw', heq⟩ := h w hw
  exact holds_writeAll.2 (.inl ⟨w', hw', heq ▸ hkey⟩)

end Store

end CloudOffers
