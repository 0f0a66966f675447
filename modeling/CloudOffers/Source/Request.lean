import CloudOffers.Catalog
import CloudOffers.Log
/-!
What a refresh asks of the source of a provider's offers. Every request may fail on its own.
-/

namespace CloudOffers

inductive Request where
  | snapshot
  | services
  | attributeValues (service name : String)
  | regions (service : String)
  | products (service region : String)
  | images (service region : String)
  | versions (service region : String)
  | currentPrices (region : String)
deriving DecidableEq

namespace Request

def Answer : Request → Type
  | .snapshot => PriceSnapshot
  | .services => List Service
  | .attributeValues .. => AttributeValues
  | .regions _ => Dict String String
  | .products .. => List Product
  | .images .. => List Image
  | .versions .. => List String
  | .currentPrices _ => Dict String Price

abbrev Reply (r : Request) : Type := Except SourceError r.Answer

def service? : Request → Option String
  | .attributeValues s _ | .regions s | .products s _ | .images s _ | .versions s _ => some s
  | _ => none

def region? : Request → Option String
  | .products _ r | .images _ r | .versions _ r | .currentPrices r => some r
  | _ => none

def attribute? : Request → Option String
  | .attributeValues _ a => some a
  | _ => none

end Request

/-- A source of offers, as it behaves in states `σ`. An answer may change the state. -/
structure Source (σ : Type) where
  answer : (r : Request) → σ → r.Reply × σ
  /-- What is logged while a request is answered. -/
  notes : Request → σ → List Log.Event
  offersImages : σ → Bool
  offersCurrentPrices : σ → Bool

/-- A source that is one of two. -/
def Source.either {σ τ : Type} (a : Source σ) (b : Source τ) : Source (σ ⊕ τ) where
  answer r
    | .inl s => let (reply, s') := a.answer r s; (reply, .inl s')
    | .inr s => let (reply, s') := b.answer r s; (reply, .inr s')
  notes r := Sum.elim (a.notes r) (b.notes r)
  offersImages := Sum.elim a.offersImages b.offersImages
  offersCurrentPrices := Sum.elim a.offersCurrentPrices b.offersCurrentPrices

end CloudOffers
