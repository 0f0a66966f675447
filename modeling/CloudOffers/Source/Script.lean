import CloudOffers.Source.Request
/-!
A source that answers from a script: fixed answers, delays, and rules by which requests fail.
-/

namespace CloudOffers

inductive RequestKind where
  | snapshot
  | services
  | attributeValues
  | regions
  | products
  | images
  | versions
  | currentPrices
deriving DecidableEq

def Request.kind : Request → RequestKind
  | .snapshot => .snapshot
  | .services => .services
  | .attributeValues .. => .attributeValues
  | .regions _ => .regions
  | .products .. => .products
  | .images .. => .images
  | .versions .. => .versions
  | .currentPrices _ => .currentPrices

/-- Lets requests of a kind fail. It concerns those about what it names; of these it lets the first
`skip` pass and then fails `times` of them, or all. -/
structure FailureRule where
  kind : RequestKind
  service? : Option String
  region? : Option String
  attribute? : Option String
  skip : Nat
  times : Option Nat
  error : SourceError

namespace FailureRule

/-- What a rule names is equal to what a request names, where both do. -/
def agrees : Option String → Option String → Bool
  | some a, some b => a = b
  | _, _ => true

def concerns (rule : FailureRule) (r : Request) : Bool :=
  rule.kind = r.kind && agrees rule.service? r.service? && agrees rule.region? r.region? &&
    agrees rule.attribute? r.attribute?

def fails (rule : FailureRule) (hits : Nat) : Bool :=
  decide (rule.skip < hits) &&
    match rule.times with
    | some n => decide (hits ≤ rule.skip + n)
    | none => true

end FailureRule

/-- A script. What it does not mention is empty. Each rule stands with its hits so far. -/
structure Script where
  snapshot : PriceSnapshot
  services : List Service
  attributeValues : Dict String (Dict String AttributeValues)
  regions : Dict String (Dict String String)
  products : Dict String (Dict String (List Product))
  offersImages : Bool
  images : Dict String (Dict String (List Image))
  versions : Dict String (Dict String (List String))
  offersCurrentPrices : Bool
  currentPrices : Dict String (Dict String Price)
  delay : RequestKind → Nat
  rules : List (FailureRule × Nat)

namespace Script

def entry {α : Type} (d : Dict String (Dict String α)) (outer inner : String) (absent : α) : α :=
  ((d.get? outer).bind (fun e ↦ e.get? inner)).getD absent

/-- The answer, when no rule fails the request. -/
def answerTo (s : Script) : (r : Request) → r.Answer
  | .snapshot => s.snapshot
  | .services => s.services
  | .attributeValues service name => entry s.attributeValues service name ⟨[]⟩
  | .regions service => (s.regions.get? service).getD .empty
  | .products service region => entry s.products service region []
  | .images service region => entry s.images service region []
  | .versions service region => entry s.versions service region []
  | .currentPrices region => (s.currentPrices.get? region).getD .empty

/-- Counts a request against the rules in order, up to the first that fails it. -/
def judge (r : Request) : List (FailureRule × Nat) → Option SourceError × List (FailureRule × Nat)
  | [] => (none, [])
  | (rule, hits) :: rest =>
    let hits := if rule.concerns r then hits + 1 else hits
    if rule.concerns r && rule.fails hits then (some rule.error, (rule, hits) :: rest)
    else
      let (error, rest) := judge r rest
      (error, (rule, hits) :: rest)

def answer (r : Request) (s : Script) : r.Reply × Script :=
  let (error, rules) := judge r s.rules
  (match error with
    | some e => .error e
    | none => .ok (s.answerTo r), { s with rules })

def source : Source Script where
  answer := answer
  notes _ _ := []
  offersImages := Script.offersImages
  offersCurrentPrices := Script.offersCurrentPrices

end Script

end CloudOffers
