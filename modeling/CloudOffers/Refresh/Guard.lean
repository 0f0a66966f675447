import CloudOffers.Refresh.Prices
/-!
Guards of refresh cycles. Of each kind a provider runs one cycle at a time: a cycle is claimed before
it starts and released when it has ended.
-/

namespace CloudOffers

inductive Cycle where
  | full
  | prices
deriving DecidableEq

/-- What a cycle does when nothing else runs beside it. -/
def Cycle.plan (provider : String) : Cycle → Plan Unit
  | .full => FullRefresh.plan provider
  | .prices => PriceRefresh.plan provider

/-- Which cycles of a provider are claimed. -/
structure Guard where
  full : Bool
  prices : Bool
deriving DecidableEq

namespace Guard

def free : Guard := ⟨false, false⟩

def isHeld (g : Guard) : Cycle → Bool
  | .full => g.full
  | .prices => g.prices

def set (g : Guard) (held : Bool) : Cycle → Guard
  | .full => { g with full := held }
  | .prices => { g with prices := held }

def claim? (g : Guard) (c : Cycle) : Option Guard := if g.isHeld c then none else some (g.set true c)

def release (g : Guard) (c : Cycle) : Guard := g.set false c

end Guard

end CloudOffers
