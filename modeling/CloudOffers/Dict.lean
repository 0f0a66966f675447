/-!
Finite maps held as lists ascending by key.

One map has one representation, so two maps with the same look-ups are equal (`Dict.ext_get?`).
-/

namespace CloudOffers

class KeyOrder (κ : Type) [LT κ] : Prop where
  irrefl (a : κ) : ¬a < a
  trans {a b c : κ} : a < b → b < c → a < c
  eq_of_not_lt {a b : κ} : ¬a < b → ¬b < a → a = b

namespace KeyOrder

theorem asymm {κ : Type} [LT κ] [KeyOrder κ] {a b : κ} (h : a < b) : ¬b < a :=
  fun h' ↦ irrefl a (trans h h')

instance : KeyOrder String where
  irrefl := String.lt_irrefl
  trans := String.lt_trans
  eq_of_not_lt h h' := Std.Trichotomous.trichotomous _ _ h h'

instance : KeyOrder Nat where
  irrefl := Nat.lt_irrefl
  trans := Nat.lt_trans
  eq_of_not_lt h h' := Nat.le_antisymm (Nat.not_lt.1 h') (Nat.not_lt.1 h)

instance : KeyOrder (List String) where
  irrefl := List.lt_irrefl
  trans := List.lt_trans
  eq_of_not_lt h h' := Std.Trichotomous.trichotomous _ _ h h'

end KeyOrder

/-- A finite map, its entries strictly ascending by key. -/
structure Dict (κ α : Type) [LT κ] where
  entries : List (κ × α)
  ascending : entries.Pairwise (fun a b ↦ a.1 < b.1)

namespace Dict

variable {κ α β : Type} [LT κ]

theorem ext_entries {d e : Dict κ α} (h : d.entries = e.entries) : d = e := by
  cases d; cases e; cases h; rfl

instance [DecidableEq κ] [DecidableEq α] : DecidableEq (Dict κ α) := fun d e ↦
  if h : d.entries = e.entries then isTrue (ext_entries h)
  else isFalse (fun he ↦ h (congrArg entries he))

def empty : Dict κ α := ⟨[], .nil⟩

instance : Inhabited (Dict κ α) := ⟨empty⟩

def isEmpty (d : Dict κ α) : Bool := d.entries.isEmpty

def keys (d : Dict κ α) : List κ := d.entries.map (·.1)

def values (d : Dict κ α) : List α := d.entries.map (·.2)

/-- Looks a key up in a list of entries; the first entry of the key counts. -/
def lookup [DecidableEq κ] (k : κ) : List (κ × α) → Option α
  | [] => none
  | (k', v) :: rest => if k = k' then some v else lookup k rest

def get? [DecidableEq κ] (d : Dict κ α) (k : κ) : Option α := lookup k d.entries

def contains [DecidableEq κ] (d : Dict κ α) (k : κ) : Bool := (d.get? k).isSome

section Order

variable [DecidableEq κ] [DecidableLT κ]

/-- Puts an entry at its place, over an entry of the same key. -/
def insertEntry (k : κ) (v : α) : List (κ × α) → List (κ × α)
  | [] => [(k, v)]
  | (k', v') :: rest =>
    if k = k' then (k, v) :: rest
    else if k < k' then (k, v) :: (k', v') :: rest
    else (k', v') :: insertEntry k v rest

theorem mem_insertEntry {k : κ} {v : α} {l : List (κ × α)} {e : κ × α}
    (h : e ∈ insertEntry k v l) : e = (k, v) ∨ e ∈ l := by
  induction l with
  | nil => simpa [insertEntry] using h
  | cons head rest ih =>
    rcases head with ⟨k', v'⟩
    simp only [insertEntry] at h
    split at h
    · rcases List.mem_cons.1 h with h | h
      · exact .inl h
      · exact .inr (List.mem_cons_of_mem _ h)
    · split at h
      · rcases List.mem_cons.1 h with h | h
        · exact .inl h
        · exact .inr h
      · rcases List.mem_cons.1 h with h | h
        · exact .inr (h ▸ List.mem_cons_self)
        · exact (ih h).imp id (List.mem_cons_of_mem _)

theorem lookup_insertEntry (k k' : κ) (v : α) (l : List (κ × α)) :
    lookup k' (insertEntry k v l) = if k' = k then some v else lookup k' l := by
  induction l with
  | nil => simp [insertEntry, lookup]
  | cons head rest ih =>
    rcases head with ⟨j, w⟩
    simp only [insertEntry]
    split
    · next h => subst h; by_cases hk : k' = k <;> simp [lookup, hk]
    · split
      · by_cases hk : k' = k <;> simp [lookup, hk]
      · next h _ =>
        by_cases hk : k' = k
        · subst hk
          simp [lookup, h, ih]
        · by_cases hj : k' = j
          · simp [lookup, hj, show ¬j = k from fun e ↦ hk (hj.trans e)]
          · simp [lookup, hj, hk, ih]

variable [KeyOrder κ]

theorem insertEntry_ascending (k : κ) (v : α) {l : List (κ × α)}
    (h : l.Pairwise (fun a b ↦ a.1 < b.1)) :
    (insertEntry k v l).Pairwise (fun a b ↦ a.1 < b.1) := by
  induction l with
  | nil => simp [insertEntry]
  | cons head rest ih =>
    rcases head with ⟨k', v'⟩
    obtain ⟨hhead, hrest⟩ := List.pairwise_cons.1 h
    simp only [insertEntry]
    split
    · next heq =>
      subst heq
      exact List.pairwise_cons.2 ⟨hhead, hrest⟩
    · split
      · next hlt =>
        refine List.pairwise_cons.2 ⟨fun e he ↦ ?_, h⟩
        rcases List.mem_cons.1 he with rfl | he
        · exact hlt
        · exact KeyOrder.trans hlt (hhead e he)
      · next hne hnlt =>
        refine List.pairwise_cons.2 ⟨fun e he ↦ ?_, ih hrest⟩
        have hgt : k' < k := Decidable.byContradiction fun hn ↦
          hne (KeyOrder.eq_of_not_lt hnlt hn)
        rcases mem_insertEntry he with rfl | he
        · exact hgt
        · exact hhead e he

def insert (d : Dict κ α) (k : κ) (v : α) : Dict κ α :=
  ⟨insertEntry k v d.entries, insertEntry_ascending k v d.ascending⟩

/-- The last entry of a key counts. -/
def ofList (l : List (κ × α)) : Dict κ α :=
  l.foldl (fun d e ↦ d.insert e.1 e.2) empty

def alter (d : Dict κ α) (k : κ) (f : Option α → α) : Dict κ α :=
  d.insert k (f (d.get? k))

theorem get?_insert (d : Dict κ α) (k k' : κ) (v : α) :
    (d.insert k v).get? k' = if k' = k then some v else d.get? k' :=
  lookup_insertEntry k k' v d.entries

end Order

@[simp] theorem get?_empty [DecidableEq κ] (k : κ) : (empty : Dict κ α).get? k = none := rfl

def map (f : κ → α → β) (d : Dict κ α) : Dict κ β where
  entries := d.entries.map (fun e ↦ (e.1, f e.1 e.2))
  ascending := by
    rw [List.pairwise_map]
    exact d.ascending

def filter (p : κ → α → Bool) (d : Dict κ α) : Dict κ α where
  entries := d.entries.filter (fun e ↦ p e.1 e.2)
  ascending := d.ascending.filter _

section Ext

variable [DecidableEq κ]

theorem lookup_eq_some_of_mem [KeyOrder κ] {l : List (κ × α)} {k : κ} {v : α}
    (hl : l.Pairwise (fun a b ↦ a.1 < b.1)) (h : (k, v) ∈ l) : lookup k l = some v := by
  induction l with
  | nil => cases h
  | cons head rest ih =>
    rcases head with ⟨k', v'⟩
    obtain ⟨hhead, hrest⟩ := List.pairwise_cons.1 hl
    rcases List.mem_cons.1 h with heq | hmem
    · cases heq; simp [lookup]
    · have hlt : k' < k := hhead (k, v) hmem
      have hne : k ≠ k' := fun e ↦ absurd hlt (e ▸ KeyOrder.irrefl k)
      simp [lookup, hne, ih hrest hmem]

omit [LT κ] in
theorem mem_of_lookup_eq_some {l : List (κ × α)} {k : κ} {v : α}
    (h : lookup k l = some v) : (k, v) ∈ l := by
  induction l with
  | nil => simp [lookup] at h
  | cons head rest ih =>
    rcases head with ⟨k', v'⟩
    simp only [lookup] at h
    split at h
    · next heq => cases h; subst heq; exact List.mem_cons_self
    · exact List.mem_cons_of_mem _ (ih h)

theorem mem_entries_iff [KeyOrder κ] {d : Dict κ α} {k : κ} {v : α} :
    (k, v) ∈ d.entries ↔ d.get? k = some v :=
  ⟨lookup_eq_some_of_mem d.ascending, mem_of_lookup_eq_some⟩

theorem get?_filter [KeyOrder κ] (d : Dict κ α) (p : κ → α → Bool) (k : κ) :
    (d.filter p).get? k = (d.get? k).filter (p k) := by
  ext v
  rw [← mem_entries_iff, Option.filter_eq_some_iff, ← mem_entries_iff]
  exact List.mem_filter

omit [DecidableEq κ] in
private theorem eq_of_same_mem [KeyOrder κ] :
    ∀ {l m : List (κ × α)}, l.Pairwise (fun a b ↦ a.1 < b.1) → m.Pairwise (fun a b ↦ a.1 < b.1) →
      (∀ e, e ∈ l ↔ e ∈ m) → l = m
  | [], [], _, _, _ => rfl
  | [], e :: m, _, _, h => absurd ((h e).2 List.mem_cons_self) (by simp)
  | e :: l, [], _, _, h => absurd ((h e).1 List.mem_cons_self) (by simp)
  | a :: l, b :: m, hl, hm, h => by
    obtain ⟨ha, hl⟩ := List.pairwise_cons.1 hl
    obtain ⟨hb, hm'⟩ := List.pairwise_cons.1 hm
    have hab : a = b := by
      rcases List.mem_cons.1 ((h a).1 List.mem_cons_self) with hab | hab
      · exact hab
      · rcases List.mem_cons.1 ((h b).2 List.mem_cons_self) with hba | hba
        · exact hba.symm
        · exact absurd (hb a hab) (KeyOrder.asymm (ha b hba))
    subst hab
    refine congrArg (a :: ·) (eq_of_same_mem hl hm' fun e ↦ ⟨fun he ↦ ?_, fun he ↦ ?_⟩)
    · rcases List.mem_cons.1 ((h e).1 (List.mem_cons_of_mem _ he)) with rfl | he'
      · exact absurd (ha e he) (KeyOrder.irrefl e.1)
      · exact he'
    · rcases List.mem_cons.1 ((h e).2 (List.mem_cons_of_mem _ he)) with rfl | he'
      · exact absurd (hb e he) (KeyOrder.irrefl e.1)
      · exact he'

/-- Maps with the same look-ups are the same map. -/
theorem ext_get? [KeyOrder κ]
    {d e : Dict κ α} (h : ∀ k, d.get? k = e.get? k) : d = e := by
  refine ext_entries (eq_of_same_mem d.ascending e.ascending fun x ↦ ?_)
  rcases x with ⟨k, v⟩
  rw [mem_entries_iff, mem_entries_iff, h]

end Ext

end Dict

end CloudOffers
