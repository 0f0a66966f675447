import CloudOffers.Dict
/-!
Tables of values that expire. A value is expired when its age has reached the time to live of its
table; it then shows through no look-up, and counts until it is purged.
-/

namespace CloudOffers

structure Entry (α : Type) where
  value : α
  writtenAt : Nat
deriving DecidableEq

def Entry.isExpired {α : Type} (ttl now : Nat) (e : Entry α) : Bool := decide (ttl ≤ now - e.writtenAt)

theorem Entry.not_isExpired_iff {α : Type} {ttl now : Nat} {e : Entry α} :
    (!e.isExpired ttl now) = true ↔ now - e.writtenAt < ttl := by
  rw [isExpired, ← decide_not, decide_eq_true_iff, Nat.not_le]

/-- Values by what they are kept under. All of them have the same time to live. -/
structure Table (ttl : Nat) (α : Type) where
  entries : Dict (List String) (Entry α)

namespace Table

variable {ttl : Nat} {α : Type}

def empty : Table ttl α := ⟨.empty⟩

def insert (t : Table ttl α) (now : Nat) (k : List String) (v : α) : Table ttl α :=
  ⟨t.entries.insert k ⟨v, now⟩⟩

def get (t : Table ttl α) (now : Nat) (k : List String) : Option α :=
  ((t.entries.get? k).filter (fun e ↦ !e.isExpired ttl now)).map Entry.value

def purge (t : Table ttl α) (now : Nat) : Table ttl α :=
  ⟨t.entries.filter (fun _ e ↦ !e.isExpired ttl now)⟩

def size (t : Table ttl α) : Nat := t.entries.entries.length

def expired (t : Table ttl α) (now : Nat) : Nat := t.size - (t.purge now).size

end Table

end CloudOffers
