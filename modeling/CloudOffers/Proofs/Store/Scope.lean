import CloudOffers.Proofs.Store.History
/-!
Stores as far as one provider goes. Operations for other providers make no difference to it.
-/

namespace CloudOffers

namespace Operation

def concerns (provider : String) : Operation → Bool
  | .put k _ | .get k => k.provider = provider
  | .purge => true

end Operation

namespace Store

structure AgreesFor (provider : String) (s s' : Store) : Prop where
  ttl : s.ttl = s'.ttl
  kept : ∀ k, k.provider = provider → s.kept? k = s'.kept? k

namespace AgreesFor

variable {provider : String} {s s' : Store}

theorem refl (provider : String) (s : Store) : s.AgreesFor provider s := ⟨rfl, fun _ _ ↦ rfl⟩

theorem lookup (h : s.AgreesFor provider s') (now : Nat) {k : Key} (hk : k.provider = provider) :
    s.lookup now k = s'.lookup now k := by
  change s.get now k = s'.get now k
  rw [get_eq, get_eq, h.kept k hk, h.ttl]

theorem operate (h : s.AgreesFor provider s') (now : Nat) (o : Operation) :
    (s.operate now o).AgreesFor provider (s'.operate now o) where
  ttl := by rw [ttl_operate, ttl_operate, h.ttl]
  kept k hk := by
    cases o with
    | put k' v =>
      change (s.put now k' v).kept? k = (s'.put now k' v).kept? k
      by_cases hkk : k' = k
      · subst hkk
        rw [kept?_put_self, kept?_put_self]
      · rw [kept?_put_of_ne s now hkk, kept?_put_of_ne s' now hkk, h.kept k hk]
    | get k' => exact h.kept k hk
    | purge =>
      change (s.purge now).kept? k = (s'.purge now).kept? k
      rw [kept?_purge, kept?_purge, h.kept k hk, h.ttl]

theorem operate_left (h : s.AgreesFor provider s') (now : Nat) {o : Operation}
    (ho : o.concerns provider = false) : (s.operate now o).AgreesFor provider s' where
  ttl := by rw [ttl_operate, h.ttl]
  kept k hk := by
    cases o with
    | put k' v =>
      have hne : k' ≠ k := by
        rintro rfl
        simp [Operation.concerns, hk] at ho
      exact (kept?_put_of_ne s now hne v).trans (h.kept k hk)
    | get k' => exact h.kept k hk
    | purge => cases ho

theorem after_filter (h : s.AgreesFor provider s') (l : History) :
    (s.after l).AgreesFor provider (s'.after (l.filter (fun x ↦ x.2.concerns provider))) := by
  induction l generalizing s s' with
  | nil => exact h
  | cons x l ih =>
    cases hx : x.2.concerns provider with
    | true =>
      rw [List.filter_cons, if_pos hx]
      exact ih (h.operate x.1 x.2)
    | false =>
      rw [List.filter_cons, if_neg (by simp [hx])]
      exact ih (h.operate_left x.1 hx)

end AgreesFor

end Store

end CloudOffers
