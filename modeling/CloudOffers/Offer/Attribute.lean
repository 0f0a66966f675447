import CloudOffers.Offer.Basic
/-!
Attributes of products that can be asked for, and the sets of their values: ascending in the total
order of floats, without neighbours that are equal as numbers.
-/

namespace CloudOffers

namespace Attribute

def cpu : String := "cpu"

def memory : String := "memory"

/-- The attributes collected for every service, in this order. -/
def all : List String := [cpu, memory]

end Attribute

structure AttributeValue where
  value : Binary64
  display : String
deriving DecidableEq, Inhabited

namespace AttributeValue

def ofFloat (x : Binary64) : AttributeValue := ⟨x, NumberStyle.plain.text x⟩

/-- Keeps the first of a run of neighbours equal to it. -/
def dropRepeats : List AttributeValue → List AttributeValue
  | [] => []
  | a :: rest => a :: after a rest
where
  after (kept : AttributeValue) : List AttributeValue → List AttributeValue
    | [] => []
    | b :: rest => if kept.value.equals b.value then after kept rest else b :: after b rest

end AttributeValue

structure AttributeValues where
  items : List AttributeValue
deriving DecidableEq, Inhabited

namespace AttributeValues

/-- Sorts, keeping the order of values at the same place, and drops repeats. -/
def ofItems (items : List AttributeValue) : AttributeValues :=
  ⟨AttributeValue.dropRepeats (items.mergeSort (fun a b ↦ a.value.le b.value))⟩

def ofFloats (xs : List Binary64) : AttributeValues := ofItems (xs.map AttributeValue.ofFloat)

def floats (s : AttributeValues) : List Binary64 := s.items.map (·.value)

def size (s : AttributeValues) : Nat := s.items.length

def isEmpty (s : AttributeValues) : Bool := s.items.isEmpty

end AttributeValues

end CloudOffers
