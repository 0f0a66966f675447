import CloudOffers.Decimal.Notation
/-!
JSON values. An object keeps its members in order, repeated names included.
-/

namespace CloudOffers

/-- A number as JSON text distinguishes it: natural numbers below `2 ^ 64`, negative integers
down to `-2 ^ 63`, and everything else as binary64. -/
inductive Number where
  | nat (n : Nat)
  | negative (n : Nat)
  | float (x : Binary64)
deriving DecidableEq

namespace Number

/-- The integer of a sign and an absolute value, if it is within bounds; `-0` is no integer. -/
def ofInteger? (negative : Bool) (n : Nat) : Option Number :=
  if negative then if 0 < n ∧ n ≤ Nat.pow 2 63 then some (.negative n) else none
  else if n < Nat.pow 2 64 then some (.nat n) else none

def toBinary64 : Number → Binary64
  | .nat n => Binary64.ofRatio false n 1
  | .negative n => Binary64.ofRatio true n 1
  | .float x => x

def chars : Number → List Char
  | .nat n => NumberStyle.digits n
  | .negative n => '-' :: NumberStyle.digits n
  | .float x => NumberStyle.json.chars x

def text (n : Number) : String := String.ofList n.chars

end Number

inductive Json where
  | null
  | bool (b : Bool)
  | num (n : Number)
  | str (s : String)
  | arr (items : List Json)
  | obj (members : List (String × Json))
deriving Inhabited

namespace Json

def ofFloat (x : Binary64) : Json := if x.isFinite then .num (.float x) else .null

def ofNat (n : Nat) : Json := .num (.nat n)

def ofTexts (l : List String) : Json := .arr (l.map .str)

/-- The last member of a name. -/
def member? (name : String) : Json → Option Json
  | .obj members => (members.filter (·.1 = name)).getLast?.map (·.2)
  | _ => none

end Json

end CloudOffers
