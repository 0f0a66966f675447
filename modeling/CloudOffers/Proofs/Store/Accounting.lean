import CloudOffers.Proofs.Store.Count
import CloudOffers.Proofs.Store.History
import Mathlib.Algebra.BigOperators.Group.Finset.Basic
import Mathlib.Data.Set.Card
/-!
How many entries a store counts after a history: for each category the arguments that were written and not
purged since, whether they are expired or not. A purge tells by how much all counts together drop.
-/

namespace CloudOffers

instance : Fintype Category := ⟨Category.all.toFinset, fun c ↦ by cases c <;> decide⟩

namespace Operation

def isGet : Operation → Bool
  | .get _ => true
  | _ => false

/-- Whether an operation at some time leaves alone what was written under a key: it does not overwrite
it, and is no purge when its age has reached its time to live. -/
def Spares (ttl : Nat) (k : Key) (written time : Nat) : Operation → Prop
  | .put k' _ => k' ≠ k
  | .get _ => True
  | .purge => time - written < ttl

end Operation

namespace History

variable {h : History} {ttl : Ttl} {k : Key} {e : Entry k.Payload}

/-- A history writes something under a key, and spares it from then on. -/
def Leaves (h : History) (ttl : Ttl) (k : Key) (e : Entry k.Payload) : Prop :=
  ∃ a b, h = a ++ (e.writtenAt, .put k e.value) :: b ∧
    ∀ x ∈ b, x.2.Spares (ttl.of k.tier) k e.writtenAt x.1

theorem leaves_cons {x : Nat × Operation} : Leaves (x :: h) ttl k e ↔
    x = (e.writtenAt, .put k e.value) ∧ (∀ x ∈ h, x.2.Spares (ttl.of k.tier) k e.writtenAt x.1) ∨
      h.Leaves ttl k e := by
  constructor
  · intro hleaves
    obtain ⟨a, b, heq, hspares⟩ := hleaves
    cases a with
    | nil =>
      cases heq
      exact .inl ⟨rfl, hspares⟩
    | cons y a =>
      cases heq
      exact .inr ⟨a, b, rfl, hspares⟩
  · intro hleaves
    rcases hleaves with ⟨rfl, hspares⟩ | ⟨a, b, rfl, hspares⟩
    · exact ⟨[], h, rfl, hspares⟩
    · exact ⟨x :: a, b, rfl, hspares⟩

theorem not_leaves_nil : ¬Leaves [] ttl k e := by
  intro hleaves
  obtain ⟨a, b, heq, -⟩ := hleaves
  simp at heq

end History

namespace Table

variable {ttl : Nat} {α : Type} {t : Table ttl α} {now : Nat}

theorem purge_purge : (t.purge now).purge now = t.purge now := by
  have hentries : ((t.purge now).purge now).entries = (t.purge now).entries := by
    apply Dict.ext_entries
    simp only [purge, Dict.filter, List.filter_filter, Bool.and_self]
  exact congrArg mk hentries

theorem expired_purge : (t.purge now).expired now = 0 := by rw [expired, purge_purge, Nat.sub_self]

theorem size_purge_le : (t.purge now).size ≤ t.size := List.length_filter_le ..

theorem size_eq : t.size = (t.purge now).size + t.expired now := by
  rw [expired, Nat.add_sub_cancel' size_purge_le]

end Table

namespace Store

open History

variable {s : Store} {h : History} {k : Key} {e : Entry k.Payload} {c : Category} {a : List String} {now : Nat}

theorem kept?_purge_eq_some_iff : (s.purge now).kept? k = some e ↔
    s.kept? k = some e ∧ now - e.writtenAt < s.ttl.of k.tier := by
  rw [kept?_purge, Option.filter_eq_some_iff, Entry.not_isExpired_iff]

/-- What is held after one operation: what it writes, and what was held if it spares that. -/
theorem kept?_operate_eq_some_iff {time : Nat} {o : Operation} : (s.operate time o).kept? k = some e ↔
    (time, o) = (e.writtenAt, .put k e.value) ∨
      s.kept? k = some e ∧ o.Spares (s.ttl.of k.tier) k e.writtenAt time := by
  cases o with
  | put k' v =>
    by_cases hk : k' = k
    · subst hk
      have hwritten : (s.put time k' v).kept? k' = some e ↔
          (time, Operation.put k' v) = (e.writtenAt, .put k' e.value) := by
        rw [kept?_put_self, Option.some_inj]
        constructor
        · intro heq
          subst heq
          rfl
        · intro heq
          cases e
          cases heq
          rfl
      exact hwritten.trans (or_iff_left fun hspared ↦ hspared.2 rfl).symm
    · have hother : (time, Operation.put k' v) ≠ (e.writtenAt, .put k e.value) := by
        intro heq
        cases heq
        exact hk rfl
      have hspared : (Operation.put k' v).Spares (s.ttl.of k.tier) k e.writtenAt time := hk
      rw [or_iff_right hother, and_iff_left hspared, ← kept?_put_of_ne s time hk v]
      rfl
  | get k' =>
    have hspared : (Operation.get k').Spares (s.ttl.of k.tier) k e.writtenAt time := trivial
    rw [or_iff_right (nomatch ·), and_iff_left hspared]
    rfl
  | purge =>
    rw [or_iff_right (nomatch ·)]
    exact kept?_purge_eq_some_iff

theorem kept?_after_eq_some_iff : (s.after h).kept? k = some e ↔
    h.Leaves s.ttl k e ∨ s.kept? k = some e ∧ ∀ x ∈ h, x.2.Spares (s.ttl.of k.tier) k e.writtenAt x.1 := by
  induction h generalizing s with
  | nil =>
    rw [or_iff_right not_leaves_nil, and_iff_left (List.forall_mem_nil _)]
    rfl
  | cons x h ih =>
    change ((s.operate x.1 x.2).after h).kept? k = some e ↔ _
    rw [ih, ttl_operate, kept?_operate_eq_some_iff, leaves_cons, List.forall_mem_cons]
    tauto

/-- All that is held is held under what some key says. -/
def Addressed (s : Store) : Prop :=
  ∀ c a, s.Holds c a → ∃ k : Key, k.category = c ∧ k.arguments = a

theorem holds_of_purge (h : (s.purge now).Holds c a) : s.Holds c a := by
  have hfilter : ((s.purge now).table c).entries.get? a =
      ((s.table c).entries.get? a).filter (fun e ↦ !e.isExpired (s.ttl.of c.tier) now) := by
    cases c <;> exact Dict.get?_filter ..
  obtain ⟨e, he⟩ := Option.isSome_iff_exists.1 h
  rw [hfilter, Option.filter_eq_some_iff] at he
  exact Option.isSome_of_eq_some he.1

theorem addressed_empty (ttl : Ttl) : (empty ttl).Addressed := by
  intro c a h
  cases c <;> cases h

theorem Addressed.operate (hs : s.Addressed) (time : Nat) (o : Operation) : (s.operate time o).Addressed := by
  intro c a h
  cases o with
  | put k v =>
    rcases (holds_write ⟨time, k, v⟩).1 h with hkey | h
    · exact ⟨k, hkey⟩
    · exact hs c a h
  | get k => exact hs c a h
  | purge => exact hs c a (holds_of_purge h)

theorem Addressed.after (hs : s.Addressed) (h : History) : (s.after h).Addressed := by
  induction h generalizing s with
  | nil => exact hs
  | cons x h ih => exact ih (hs.operate x.1 x.2)

theorem holds_after_iff {ttl : Ttl} : ((empty ttl).after h).Holds c a ↔
    ∃ k : Key, k.category = c ∧ k.arguments = a ∧ ∃ e, h.Leaves ttl k e := by
  have hkept (k : Key) : ((empty ttl).after h).Holds k.category k.arguments ↔ ∃ e, h.Leaves ttl k e := by
    refine Option.isSome_iff_exists.trans (exists_congr fun e ↦ kept?_after_eq_some_iff.trans (or_iff_left ?_))
    intro hempty
    cases (kept?_empty ..).symm.trans hempty.1
  constructor
  · intro hholds
    obtain ⟨k, rfl, rfl⟩ := (addressed_empty ttl).after h c a hholds
    exact ⟨k, rfl, rfl, (hkept k).1 hholds⟩
  · intro hleft
    obtain ⟨k, rfl, rfl, hleaves⟩ := hleft
    exact (hkept k).2 hleaves

theorem encard_holds (s : Store) (c : Category) : {a | s.Holds c a}.encard = s.count c := by
  have hkeys : {a | s.Holds c a} = ((s.table c).entries.keys.toFinset : Set (List String)) := by
    ext a
    rw [Finset.mem_coe, List.mem_toFinset, Dict.mem_keys_iff]
    rfl
  rw [hkeys, Set.encard_coe_eq_coe_finsetCard, Dict.keys, List.toFinset_card_of_nodup (Dict.nodup_keys _),
    List.length_map]
  rfl

theorem count_purge_le (s : Store) (now : Nat) (c : Category) : (s.purge now).count c ≤ s.count c := by
  cases c <;> exact Table.size_purge_le

theorem sum_category (f : Category → Nat) : ∑ c, f c = f .services + f .regions + f .zones + f .attributes +
    f .products + f .prices + f .images + f .versions + f .status := by
  have hsum : ∑ c, f c = (Category.all.map f).sum := List.sum_toFinset f (by decide)
  simp only [hsum, Category.all, List.map_cons, List.map_nil, List.sum_cons, List.sum_nil]
  omega

theorem sum_count (s : Store) (now : Nat) :
    ∑ c, s.count c = ∑ c, (s.purge now).count c + s.expired now := by
  have hcount (c : Category) : s.count c = (s.purge now).count c + (s.table c).expired now := by
    cases c <;> exact Table.size_eq
  simp only [hcount, Finset.sum_add_distrib, Nat.add_left_cancel_iff]
  exact sum_category fun c ↦ (s.table c).expired now

theorem expired_purge (s : Store) (now : Nat) : (s.purge now).expired now = 0 := by
  simp only [expired, purge, Table.expired_purge]

theorem after_filter_isGet (s : Store) (h : History) : s.after (h.filter (fun x ↦ !x.2.isGet)) = s.after h := by
  induction h generalizing s with
  | nil => rfl
  | cons x h ih => rcases x with ⟨time, k | k | _⟩ <;> exact ih _

/-- A store counts, for each category, the arguments under which something was written and not purged
since. A purge takes away what has reached the time to live of its tier and nothing else, in all categories,
and tells how many entries that were; a second one finds none. What is read makes no difference. -/
theorem count_after (ttl : Ttl) (h : History) (now : Nat) :
    let s := (empty ttl).after h
    (∀ c, s.count c = {a | ∃ k : Key, k.category = c ∧ k.arguments = a ∧ ∃ e, h.Leaves ttl k e}.encard) ∧
    (∀ (k : Key) e, (s.purge now).kept? k = some e ↔
      s.kept? k = some e ∧ now - e.writtenAt < ttl.of k.category.tier) ∧
    (∀ c, (s.purge now).count c ≤ s.count c) ∧
    ∑ c, s.count c = ∑ c, (s.purge now).count c + s.expired now ∧
    (s.purge now).expired now = 0 ∧
    ∀ h' : History, h'.filter (fun x ↦ !x.2.isGet) = h.filter (fun x ↦ !x.2.isGet) →
      ∀ c, ((empty ttl).after h').count c = s.count c := by
  intro s
  have httl : s.ttl = ttl := ttl_after ..
  refine ⟨fun c ↦ ?_, fun k e ↦ ?_, count_purge_le s now, sum_count s now, expired_purge s now,
    fun h' heq c ↦ ?_⟩
  · rw [← encard_holds]
    exact congrArg Set.encard (Set.ext fun a ↦ holds_after_iff)
  · rw [kept?_purge_eq_some_iff, httl]
    rfl
  · rw [← after_filter_isGet, heq, after_filter_isGet]

end Store

end CloudOffers
