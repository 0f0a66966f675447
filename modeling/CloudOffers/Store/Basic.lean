import CloudOffers.Store.Key
import CloudOffers.Store.Table
/-!
The store of what is cached: one table for each category, which lives as long as its tier says.
-/

namespace CloudOffers

/-- Times to live of the two tiers, in nanoseconds. -/
structure Ttl where
  long : Nat
  short : Nat
deriving DecidableEq

def Ttl.of (ttl : Ttl) : Tier → Nat
  | .long => ttl.long
  | .short => ttl.short

structure Store where
  ttl : Ttl
  services : Table ttl.long (List Service)
  regions : Table ttl.long (Dict String String)
  zones : Table ttl.long (List String)
  attributes : Table ttl.long AttributeValues
  products : Table ttl.long (List Product)
  prices : Table ttl.short Price
  images : Table ttl.long (List Image)
  versions : Table ttl.long (List String)
  status : Table ttl.long String

/-- What can be looked up at some instant. -/
abbrev Lookup := (k : Key) → Option k.Payload

namespace Store

def empty (ttl : Ttl) : Store :=
  ⟨ttl, .empty, .empty, .empty, .empty, .empty, .empty, .empty, .empty, .empty⟩

def table (s : Store) : (c : Category) → Table (s.ttl.of c.tier) c.Payload
  | .services => s.services
  | .regions => s.regions
  | .zones => s.zones
  | .attributes => s.attributes
  | .products => s.products
  | .prices => s.prices
  | .images => s.images
  | .versions => s.versions
  | .status => s.status

def setTable (s : Store) : (c : Category) → Table (s.ttl.of c.tier) c.Payload → Store
  | .services, t => { s with services := t }
  | .regions, t => { s with regions := t }
  | .zones, t => { s with zones := t }
  | .attributes, t => { s with attributes := t }
  | .products, t => { s with products := t }
  | .prices, t => { s with prices := t }
  | .images, t => { s with images := t }
  | .versions, t => { s with versions := t }
  | .status, t => { s with status := t }

def put (s : Store) (now : Nat) (k : Key) (v : k.Payload) : Store :=
  s.setTable k.category ((s.table k.category).insert now k.arguments v)

def get (s : Store) (now : Nat) (k : Key) : Option k.Payload :=
  (s.table k.category).get now k.arguments

/-- What is held under a key, expired or not. -/
def kept? (s : Store) (k : Key) : Option (Entry k.Payload) :=
  (s.table k.category).entries.get? k.arguments

def lookup (s : Store) (now : Nat) : Lookup := fun k ↦ s.get now k

def count (s : Store) (c : Category) : Nat := (s.table c).size

def purge (s : Store) (now : Nat) : Store where
  ttl := s.ttl
  services := s.services.purge now
  regions := s.regions.purge now
  zones := s.zones.purge now
  attributes := s.attributes.purge now
  products := s.products.purge now
  prices := s.prices.purge now
  images := s.images.purge now
  versions := s.versions.purge now
  status := s.status.purge now

def expired (s : Store) (now : Nat) : Nat :=
  s.services.expired now + s.regions.expired now + s.zones.expired now + s.attributes.expired now +
    s.products.expired now + s.prices.expired now + s.images.expired now + s.versions.expired now +
    s.status.expired now

theorem get_eq (s : Store) (now : Nat) (k : Key) :
    s.get now k = ((s.kept? k).filter (fun e ↦ !e.isExpired (s.ttl.of k.tier) now)).map Entry.value :=
  rfl

@[simp] theorem ttl_put (s : Store) (now : Nat) (k : Key) (v : k.Payload) :
    (s.put now k v).ttl = s.ttl := by
  cases k <;> rfl

@[simp] theorem ttl_purge (s : Store) (now : Nat) : (s.purge now).ttl = s.ttl := rfl

@[simp] theorem kept?_empty (ttl : Ttl) (k : Key) : (empty ttl).kept? k = none := by
  cases k <;> rfl

theorem table_setTable_self (s : Store) (c : Category) (t : Table (s.ttl.of c.tier) c.Payload) :
    ((s.setTable c t).table c).entries = t.entries := by
  cases c <;> rfl

theorem table_setTable_of_ne (s : Store) {c c' : Category} (h : c ≠ c')
    (t : Table (s.ttl.of c.tier) c.Payload) :
    ((s.setTable c t).table c').entries = (s.table c').entries := by
  cases c <;> cases c' <;> first | rfl | exact absurd rfl h

theorem kept?_put_self (s : Store) (now : Nat) (k : Key) (v : k.Payload) :
    (s.put now k v).kept? k = some ⟨v, now⟩ := by
  rw [kept?, put, table_setTable_self]
  exact (Dict.get?_insert ..).trans (if_pos rfl)

/-- A write shows in no other table and under no other arguments. -/
theorem get?_setTable_insert_of_ne (s : Store) (now : Nat) {c c' : Category} {a a' : List String}
    (h : ¬(c = c' ∧ a = a')) (v : c.Payload) :
    ((s.setTable c ((s.table c).insert now a v)).table c').entries.get? a' =
      (s.table c').entries.get? a' := by
  by_cases hc : c = c'
  · subst hc
    have ha : a' ≠ a := fun ha ↦ h ⟨rfl, ha.symm⟩
    rw [table_setTable_self]
    exact (Dict.get?_insert ..).trans (if_neg ha)
  · rw [table_setTable_of_ne s hc]

theorem kept?_put_of_ne (s : Store) (now : Nat) {k k' : Key} (h : k ≠ k') (v : k.Payload) :
    (s.put now k v).kept? k' = s.kept? k' :=
  get?_setTable_insert_of_ne s now (fun ⟨hc, ha⟩ ↦ h (Key.eq_of_arguments hc ha)) v

theorem kept?_purge (s : Store) (now : Nat) (k : Key) :
    (s.purge now).kept? k = (s.kept? k).filter (fun e ↦ !e.isExpired (s.ttl.of k.tier) now) := by
  cases k <;> exact Dict.get?_filter ..

end Store

end CloudOffers
