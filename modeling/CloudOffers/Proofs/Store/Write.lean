import CloudOffers.Store.Basic
/-!
Sequences of writes to a store. Under each key stands what the last write under it left.
-/

namespace CloudOffers

structure Write where
  time : Nat
  key : Key
  payload : key.Payload

namespace Write

variable {k : Key}

def left? (w : Write) (k : Key) : Option (Entry k.Payload) :=
  if h : w.key = k then some ⟨h ▸ w.payload, w.time⟩ else none

@[simp] theorem left?_self (time : Nat) (k : Key) (v : k.Payload) :
    (Write.mk time k v).left? k = some ⟨v, time⟩ := dif_pos rfl

theorem left?_of_ne {w : Write} (h : w.key ≠ k) : w.left? k = none := dif_neg h

theorem eq_of_left? {w : Write} {e : Entry k.Payload} (h : w.left? k = some e) :
    w = ⟨e.writtenAt, k, e.value⟩ := by
  by_cases hk : w.key = k
  · subst hk
    cases w
    rw [left?_self, Option.some_inj] at h
    exact h ▸ rfl
  · rw [left?_of_ne hk] at h
    cases h

def latest (k : Key) : List Write → Option (Entry k.Payload)
  | [] => none
  | w :: rest => (latest k rest).or (w.left? k)

theorem latest_append (l m : List Write) : latest k (l ++ m) = (latest k m).or (latest k l) := by
  induction l with
  | nil => simp [latest]
  | cons w l ih => simp only [List.cons_append, latest, ih, Option.or_assoc]

theorem latest_eq_none_iff {l : List Write} : latest k l = none ↔ ∀ w ∈ l, w.key ≠ k := by
  induction l with
  | nil => simp [latest]
  | cons w l ih =>
    rw [latest, Option.or_eq_none_iff, ih, List.forall_mem_cons, and_comm]
    refine and_congr_left fun _ ↦ ⟨fun h hk ↦ ?_, left?_of_ne⟩
    subst hk
    cases w
    rw [left?_self] at h
    cases h

theorem latest_eq_some_iff {l : List Write} {e : Entry k.Payload} :
    latest k l = some e ↔
      ∃ a b, l = a ++ ⟨e.writtenAt, k, e.value⟩ :: b ∧ ∀ w ∈ b, w.key ≠ k := by
  constructor
  · intro h
    induction l with
    | nil => cases h
    | cons w l ih =>
      cases hl : latest k l with
      | some e' =>
        rw [latest, hl, Option.some_or, Option.some_inj] at h
        obtain ⟨a, b, rfl, hb⟩ := ih (hl.trans (congrArg some h))
        exact ⟨w :: a, b, rfl, hb⟩
      | none =>
        rw [latest, hl, Option.none_or] at h
        exact ⟨[], l, by rw [eq_of_left? h]; rfl, latest_eq_none_iff.1 hl⟩
  · rintro ⟨a, b, rfl, hb⟩
    rw [latest_append, latest, latest_eq_none_iff.2 hb, left?_self]
    rfl

theorem mem_of_latest {l : List Write} {e : Entry k.Payload} (h : latest k l = some e) :
    ⟨e.writtenAt, k, e.value⟩ ∈ l := by
  obtain ⟨a, b, rfl, -⟩ := latest_eq_some_iff.1 h
  simp

end Write

namespace Store

def write (s : Store) (w : Write) : Store := s.put w.time w.key w.payload

theorem kept?_write (s : Store) (w : Write) (k : Key) :
    (s.write w).kept? k = (w.left? k).or (s.kept? k) := by
  by_cases hk : w.key = k
  · subst hk
    cases w
    rw [Write.left?_self]
    exact kept?_put_self ..
  · rw [Write.left?_of_ne hk]
    exact kept?_put_of_ne s w.time hk w.payload

/-- A store after some writes, the first of the list first. -/
def writeAll (s : Store) (l : List Write) : Store := l.foldl write s

@[simp] theorem ttl_writeAll (s : Store) (l : List Write) : (s.writeAll l).ttl = s.ttl := by
  induction l generalizing s with
  | nil => rfl
  | cons w l ih => exact (ih (s.write w)).trans (ttl_put ..)

theorem kept?_writeAll (s : Store) (l : List Write) (k : Key) :
    (s.writeAll l).kept? k = (Write.latest k l).or (s.kept? k) := by
  induction l generalizing s with
  | nil => rfl
  | cons w l ih =>
    rw [Write.latest, Option.or_assoc, ← kept?_write]
    exact ih (s.write w)

theorem get_writeAll (s : Store) {l : List Write} {k : Key} {e : Entry k.Payload} {now : Nat}
    (hlast : Write.latest k l = some e) (hlive : now - e.writtenAt < s.ttl.of k.tier) :
    (s.writeAll l).get now k = some e.value := by
  rw [get_eq, kept?_writeAll, hlast, ttl_writeAll, Option.some_or]
  rw [Option.filter_some, if_pos (Entry.not_isExpired_iff.2 hlive)]
  rfl

/-- If two sequences of writes leave the same value under a key, or both none, so do the stores. -/
theorem kept?_writeAll_alike (s : Store) {l l' : List Write} {k : Key}
    (h : (Write.latest k l).map Entry.value = (Write.latest k l').map Entry.value) :
    (s.writeAll l).kept? k = s.kept? k ∧ (s.writeAll l').kept? k = s.kept? k ∨
      ∃ v, (∃ w ∈ l, (s.writeAll l).kept? k = some ⟨v, w.time⟩) ∧
        ∃ w ∈ l', (s.writeAll l').kept? k = some ⟨v, w.time⟩ := by
  rw [kept?_writeAll, kept?_writeAll]
  cases hl : Write.latest k l with
  | none =>
    rw [hl] at h
    rw [Option.map_eq_none_iff.1 h.symm]
    exact .inl ⟨rfl, rfl⟩
  | some e =>
    rw [hl] at h
    obtain ⟨e', hl', hvalue⟩ := Option.map_eq_some_iff.1 h.symm
    rw [hl']
    refine .inr ⟨e.value, ⟨_, Write.mem_of_latest hl, rfl⟩, _, Write.mem_of_latest hl', ?_⟩
    rw [← hvalue]
    rfl

end Store

end CloudOffers
