import CloudOffers.Dict
/-!
Texts in ascending order without repeats.
-/

namespace CloudOffers

/-- The distinct texts of a list, ascending. -/
def ascending (l : List String) : List String := (Dict.ofList (l.map (fun s ↦ (s, ())))).keys

end CloudOffers
