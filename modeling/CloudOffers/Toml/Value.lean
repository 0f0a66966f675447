import CloudOffers.Decimal.Notation
/-!
TOML values, and how the lines of a document build up its tables. A table says how it came about,
since that decides what may still be added to it.
-/

namespace CloudOffers.Toml

/-- How a table came about: from the header of a table below it, from its own header, from the key of
a value below it, or from one value. -/
inductive Origin where
  | implied
  | header
  | dotted
  | inline
deriving DecidableEq

inductive Value where
  | text (s : String)
  | integer (n : Int)
  | float (x : Binary64)
  | bool (b : Bool)
  /-- A date, a time of day, or both. -/
  | moment
  | list (items : List Value)
  | table (origin : Origin) (members : List (String × Value))
  | tables (items : List (List (String × Value)))
deriving Inhabited

abbrev Members := List (String × Value)

namespace Members

def find? (k : String) : Members → Option Value
  | [] => none
  | (k', v) :: rest => if k = k' then some v else find? k rest

/-- The members with one replaced at its place, or added at the end. -/
def set (k : String) (v : Value) : Members → Members
  | [] => [(k, v)]
  | (k', v') :: rest => if k = k' then (k, v) :: rest else (k', v') :: set k v rest

def changeLast (f : Members → Option Members) : List Members → Option (List Members)
  | [] => none
  | [m] => (f m).map (fun m ↦ [m])
  | m :: rest => (changeLast f rest).map (m :: ·)

/-- Changes the table under a path of headers. Tables on the way that are not there are implied; of
an array of tables the last is meant. -/
def changeAt (f : Members → Option Members) : List String → Members → Option Members
  | [], m => f m
  | k :: path, m =>
    match find? k m with
    | none => do some (set k (.table .implied (← changeAt f path [])) m)
    | some (.table .inline _) => none
    | some (.table origin sub) => do some (set k (.table origin (← changeAt f path sub)) m)
    | some (.tables items) => do some (set k (.tables (← changeLast (changeAt f path) items)) m)
    | some _ => none

/-- Opens the table of a header. It may have been implied, but nothing else. -/
def openTable (k : String) (m : Members) : Option Members :=
  match find? k m with
  | none => some (set k (.table .header []) m)
  | some (.table .implied sub) => some (set k (.table .header sub) m)
  | some _ => none

def openItem (k : String) (m : Members) : Option Members :=
  match find? k m with
  | none => some (set k (.tables [[]]) m)
  | some (.tables items) => some (set k (.tables (items ++ [[]])) m)
  | some _ => none

/-- Puts a value under a key, which may be dotted. The tables on the way must not have a header of
their own, and the last of them must be there through such keys alone: `own` says that of the table
reached so far. -/
def put (v : Value) (own : Bool) : List String → Members → Option Members
  | [], _ => none
  | [k], m =>
    if own then
      match find? k m with
      | none => some (set k v m)
      | some _ => none
    else none
  | k :: path, m =>
    match find? k m with
    | none => do some (set k (.table .dotted (← put v true path [])) m)
    | some (.table .dotted sub) => do some (set k (.table .dotted (← put v true path sub)) m)
    | some (.table .implied sub) => do some (set k (.table .implied (← put v false path sub)) m)
    | some (.tables items) => do some (set k (.tables (← changeLast (put v false path) items)) m)
    | some _ => none

end Members

end CloudOffers.Toml
