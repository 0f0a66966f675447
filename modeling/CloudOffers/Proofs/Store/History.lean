import CloudOffers.Proofs.Store.Write
/-!
Stores over whole histories of operations. What a store shows depends on the writes alone: it is what
a plain map of the last writes shows, as far as their age is below the time to live of their tier.
Purges only forget what shows no longer.
-/

namespace CloudOffers

inductive Operation where
  | put (k : Key) (v : k.Payload)
  | get (k : Key)
  | purge

namespace Operation

def isPurge : Operation → Bool
  | .purge => true
  | _ => false

@[simp] theorem isPurge_put (k : Key) (v : k.Payload) : (put k v).isPurge = false := rfl

@[simp] theorem isPurge_get (k : Key) : (get k).isPurge = false := rfl

@[simp] theorem isPurge_purge : purge.isPurge = true := rfl

end Operation

abbrev History := List (Nat × Operation)

namespace History

/-- The clock never goes back in a history, nor up to what follows it at some time. -/
def InOrder (h : History) (now : Nat) : Prop :=
  h.Pairwise (fun x y ↦ x.1 ≤ y.1) ∧ ∀ x ∈ h, x.1 ≤ now

def writes : History → List Write
  | [] => []
  | (time, .put k v) :: h => ⟨time, k, v⟩ :: writes h
  | (_, .get _) :: h => writes h
  | (_, .purge) :: h => writes h

theorem writes_append (h h' : History) : writes (h ++ h') = writes h ++ writes h' := by
  induction h with
  | nil => rfl
  | cons x h ih => rcases x with ⟨time, k | k | _⟩ <;> simp [writes, ih]

theorem writes_filter (h : History) : writes (h.filter (fun x ↦ !x.2.isPurge)) = writes h := by
  induction h with
  | nil => rfl
  | cons x h ih => rcases x with ⟨time, k | k | _⟩ <;> simp [writes, ih]

theorem mem_writes {h : History} {time : Nat} {k : Key} {v : k.Payload} :
    ⟨time, k, v⟩ ∈ writes h ↔ (time, .put k v) ∈ h := by
  induction h with
  | nil => simp [writes]
  | cons x h ih => rcases x with ⟨time', k' | k' | _⟩ <;> simp [writes, ih]

theorem latest_writes_eq_none_iff {h : History} {k : Key} :
    Write.latest k (writes h) = none ↔ ∀ time v, (time, .put k v) ∉ h := by
  rw [Write.latest_eq_none_iff]
  constructor
  · intro hk time v hmem
    exact hk _ (mem_writes.2 hmem) rfl
  · rintro hk ⟨time, k', v⟩ hmem rfl
    exact hk time v (mem_writes.1 hmem)

theorem latest_writes_eq_some_iff {h : History} {k : Key} {e : Entry k.Payload} :
    Write.latest k (writes h) = some e ↔
      ∃ a b, h = a ++ (e.writtenAt, .put k e.value) :: b ∧ ∀ time v, (time, .put k v) ∉ b := by
  constructor
  · intro hlast
    induction h with
    | nil => cases hlast
    | cons x h ih =>
      cases hl : Write.latest k (writes h) with
      | some e' =>
        have hx : Write.latest k (writes (x :: h)) = some e' := by
          rw [← List.singleton_append, writes_append, Write.latest_append, hl, Option.some_or]
        rw [hx, Option.some_inj] at hlast
        obtain ⟨a, b, rfl, hb⟩ := ih (hl.trans (congrArg some hlast))
        exact ⟨x :: a, b, rfl, hb⟩
      | none =>
        have hx : Write.latest k (writes (x :: h)) = Write.latest k (writes [x]) := by
          rw [← List.singleton_append, writes_append, Write.latest_append, hl, Option.none_or]
        have hmem := Write.mem_of_latest (hx ▸ hlast)
        have hhead := List.mem_singleton.1 (mem_writes.1 hmem)
        exact ⟨[], h, by rw [hhead]; rfl, latest_writes_eq_none_iff.1 hl⟩
  · rintro ⟨a, b, rfl, hb⟩
    rw [writes_append, Write.latest_append, writes, Write.latest, latest_writes_eq_none_iff.2 hb,
      Write.left?_self]
    rfl

theorem InOrder.sublist {h h' : History} {now : Nat} (hin : InOrder h now) (hs : h'.Sublist h) :
    InOrder h' now :=
  ⟨hin.1.sublist hs, fun x hx ↦ hin.2 x (hs.subset hx)⟩

end History

namespace Store

open History

def operate (s : Store) (now : Nat) : Operation → Store
  | .put k v => s.put now k v
  | .get _ => s
  | .purge => s.purge now

def after (s : Store) (h : History) : Store := h.foldl (fun s x ↦ s.operate x.1 x.2) s

@[simp] theorem ttl_operate (s : Store) (now : Nat) (o : Operation) :
    (s.operate now o).ttl = s.ttl := by
  cases o with
  | put k v => exact ttl_put ..
  | get k => rfl
  | purge => rfl

@[simp] theorem ttl_after (s : Store) (h : History) : (s.after h).ttl = s.ttl := by
  induction h generalizing s with
  | nil => rfl
  | cons x h ih => exact (ih _).trans (ttl_operate ..)

theorem after_eq_writeAll (s : Store) {h : History} (hpurge : ∀ time, (time, .purge) ∉ h) :
    s.after h = s.writeAll (writes h) := by
  induction h generalizing s with
  | nil => rfl
  | cons x h ih =>
    have hrest (time : Nat) : (time, .purge) ∉ h :=
      fun hmem ↦ hpurge time (List.mem_cons_of_mem _ hmem)
    rcases x with ⟨time, k | k | _⟩
    · exact ih _ hrest
    · exact ih _ hrest
    · exact absurd List.mem_cons_self (hpurge time)

/-- From some time on, a store shows what the last of some writes left. An entry may have gone, but
only one that would not show any more. -/
def Reflects (s : Store) (l : List Write) (since : Nat) : Prop :=
  ∀ k now, since ≤ now →
    (s.kept? k).filter (fun e ↦ !e.isExpired (s.ttl.of k.tier) now) =
      (Write.latest k l).filter (fun e ↦ !e.isExpired (s.ttl.of k.tier) now)

variable {s : Store} {l : List Write} {since : Nat}

theorem Reflects.mono (h : s.Reflects l since) {later : Nat} (hle : since ≤ later) :
    s.Reflects l later := fun k now hnow ↦ h k now (Nat.le_trans hle hnow)

theorem Reflects.put (h : s.Reflects l since) (time : Nat) (k : Key) (v : k.Payload) :
    (s.put time k v).Reflects (l ++ [⟨time, k, v⟩]) since := by
  intro k' now hnow
  rw [ttl_put, Write.latest_append]
  by_cases hk : k = k'
  · subst hk
    rw [kept?_put_self]
    simp [Write.latest]
  · rw [kept?_put_of_ne s time hk, h k' now hnow]
    simp [Write.latest, Write.left?_of_ne (w := ⟨time, k, v⟩) hk]

/-- What is expired at a purge stays so: the purge takes away nothing that could show again. -/
theorem Reflects.purge (h : s.Reflects l since) {time : Nat} (htime : since ≤ time) :
    (s.purge time).Reflects l time := by
  intro k now hnow
  rw [kept?_purge, ttl_purge, ← h k now (Nat.le_trans htime hnow)]
  cases s.kept? k with
  | none => rfl
  | some e =>
    simp only [Option.filter, Entry.not_isExpired_iff]
    by_cases he : time - e.writtenAt < s.ttl.of k.tier
    · simp [he]
    · have he' : ¬now - e.writtenAt < s.ttl.of k.tier := by omega
      simp [he, he']

theorem Reflects.operate (h : s.Reflects l since) {time : Nat} (htime : since ≤ time)
    (o : Operation) : (s.operate time o).Reflects (l ++ writes [(time, o)]) time := by
  cases o with
  | put k v => exact (h.mono htime).put time k v
  | get k => simpa [writes, Store.operate] using h.mono htime
  | purge => simpa [writes, Store.operate] using h.purge htime

theorem Reflects.after (hs : s.Reflects l since) {h : History} {now : Nat} (hin : InOrder h now)
    (hsince : ∀ x ∈ h, since ≤ x.1) (hle : since ≤ now) :
    (s.after h).Reflects (l ++ writes h) now := by
  induction h generalizing s l since with
  | nil => simpa [Store.after, writes] using hs.mono hle
  | cons x h ih =>
    obtain ⟨hhead, hrest⟩ := List.pairwise_cons.1 hin.1
    have hx := hs.operate (hsince x List.mem_cons_self) x.2
    have htail := ih hx ⟨hrest, fun y hy ↦ hin.2 y (List.mem_cons_of_mem _ hy)⟩ hhead
      (hin.2 x List.mem_cons_self)
    rw [List.append_assoc, ← writes_append] at htail
    exact htail

theorem reflects_empty (ttl : Ttl) : (empty ttl).Reflects [] 0 := by
  intro k now _
  rw [kept?_empty]
  rfl

variable (ttl : Ttl) {h : History} {now : Nat}

theorem get_after_eq (hin : InOrder h now) (k : Key) :
    ((empty ttl).after h).get now k =
      ((Write.latest k (writes h)).filter (fun e ↦ !e.isExpired (ttl.of k.tier) now)).map
        Entry.value := by
  have hr := (reflects_empty ttl).after hin (fun _ _ ↦ Nat.zero_le _) (Nat.zero_le _)
    k now (Nat.le_refl now)
  rw [ttl_after, List.nil_append] at hr
  rw [get_eq, ttl_after]
  exact congrArg (Option.map Entry.value) hr

/-- A store is a plain map with an expiry: a look-up finds what the last write under exactly its key
has written, as long as the age of that write is below the time to live of the key's tier. So what is
written under other keys, what is purged, and how long the other tier lives make no difference. -/
theorem get_after_iff (hin : InOrder h now) (k : Key) :
    (∀ v, ((empty ttl).after h).get now k = some v ↔
      ∃ a b time, h = a ++ (time, .put k v) :: b ∧ (∀ t w, (t, .put k w) ∉ b) ∧
        now - time < ttl.of k.category.tier) ∧
    (∀ time v, InOrder (h ++ [(time, .put k v)]) now →
      ((empty ttl).after (h ++ [(time, .put k v)])).get now k =
        if now - time < ttl.of k.category.tier then some v else none) ∧
    (∀ a b time k' v, k' ≠ k → h = a ++ (time, .put k' v) :: b →
      ((empty ttl).after (a ++ b)).get now k = ((empty ttl).after h).get now k) ∧
    (∀ h', InOrder h' now →
      h'.filter (fun x ↦ !x.2.isPurge) = h.filter (fun x ↦ !x.2.isPurge) →
      ((empty ttl).after h').get now k = ((empty ttl).after h).get now k) ∧
    ∀ ttl' : Ttl, ttl'.of k.category.tier = ttl.of k.category.tier →
      ((empty ttl').after h).get now k = ((empty ttl).after h).get now k := by
  refine ⟨fun v ↦ ?_, fun time v hin' ↦ ?_, fun a b time k' v hk hh ↦ ?_, fun h' hin' hf ↦ ?_,
    fun ttl' he ↦ ?_⟩
  · rw [get_after_eq ttl hin, Option.map_eq_some_iff]
    constructor
    · rintro ⟨e, he, rfl⟩
      obtain ⟨hlast, hlive⟩ := Option.filter_eq_some_iff.1 he
      obtain ⟨a, b, hh, hb⟩ := latest_writes_eq_some_iff.1 hlast
      exact ⟨a, b, e.writtenAt, hh, hb, Entry.not_isExpired_iff.1 hlive⟩
    · rintro ⟨a, b, time, hh, hb, hlive⟩
      refine ⟨⟨v, time⟩, Option.filter_eq_some_iff.2 ⟨?_, ?_⟩, rfl⟩
      · exact latest_writes_eq_some_iff.2 ⟨a, b, hh, hb⟩
      · exact Entry.not_isExpired_iff.2 hlive
  · have hlast : Write.latest k (writes (h ++ [(time, .put k v)])) = some ⟨v, time⟩ :=
      latest_writes_eq_some_iff.2 ⟨h, [], rfl, by simp⟩
    rw [get_after_eq ttl hin', hlast]
    simp only [Option.filter, Entry.not_isExpired_iff, Key.tier]
    split <;> rfl
  · have hsub : (a ++ b).Sublist h := hh ▸ (List.sublist_cons_self _ b).append_left a
    have hother : Write.latest k (writes [(time, .put k' v)]) = none :=
      latest_writes_eq_none_iff.2 (by simp [Ne.symm hk])
    rw [get_after_eq ttl (hin.sublist hsub), get_after_eq ttl hin, hh, ← List.singleton_append,
      writes_append, writes_append, writes_append, Write.latest_append, Write.latest_append,
      Write.latest_append, hother, Option.or_none]
  · rw [get_after_eq ttl hin', get_after_eq ttl hin, ← writes_filter, hf, writes_filter]
  · rw [get_after_eq ttl' hin, get_after_eq ttl hin, Key.tier, he]

def sampleHistory : History :=
  [(0, .put (.status "a") "0"), (2, .put (.price "a" "r" "t") (⟨⟨0⟩, .empty⟩ : Price)),
    (6, .put (.status "a") "6"), (9, .purge), (9, .get (.status "a"))]

/-- A status shows beyond the time to live of its first write, for it was written again. -/
theorem get_after_sampleHistory :
    InOrder sampleHistory 12 ∧
      ((empty ⟨10, 3⟩).after sampleHistory).get 12 (.status "a") = some "6" := by
  have hin : InOrder sampleHistory 12 := by simp [InOrder, sampleHistory]
  refine ⟨hin, ((get_after_iff ⟨10, 3⟩ hin (.status "a")).1 "6").2 ?_⟩
  refine ⟨sampleHistory.take 2, sampleHistory.drop 3, 6, rfl, ?_, by decide⟩
  simp [sampleHistory]

end Store

end CloudOffers
