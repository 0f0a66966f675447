import CloudOffers.Dict
import CloudOffers.Json.Error
/-!
Shapes: what a JSON value must be to stand for a value of the domain. Reading a shape yields a
canonical value: records with all fields in their order, maps ascending by name.
-/

namespace CloudOffers.Json

/-- What a value is expected to be. A record lists its fields with their shapes and, where the
field may be left out, what stands for it then. An extended record has the fields of another one
among its members. -/
inductive Shape where
  | any
  | text
  | path
  | bool
  | float
  | nat
  | list (item : Shape)
  | map (item : Shape)
  | record (name : String) (fields : List (String × Shape × Option Json))
  | extended (name : String) (fields inner : List (String × Shape × Option Json))

abbrev Field := String × Shape × Option Json

namespace Shape

def wanted : Shape → String
  | .any => "any value"
  | .text => "a string"
  | .path => "path string"
  | .bool => "a boolean"
  | .float => "f64"
  | .nat => "u64"
  | .list _ => "a sequence"
  | .map _ => "a map"
  | .record name _ => "struct " ++ name
  | .extended name .. => "struct " ++ name

end Shape

namespace Field

def required (name : String) (shape : Shape) : Field := (name, shape, none)

def optional (name : String) (shape : Shape) (absent : Json) : Field := (name, shape, some absent)

end Field

def lookup (name : String) : List (String × Json) → Option Json
  | [] => none
  | (name', v) :: rest => if name = name' then some v else lookup name rest

/-- All fields in their order, from the members read and what stands for those left out. -/
def assemble (members : List (String × Json)) : List Field → Except Error (List (String × Json))
  | [] => .ok []
  | (name, _, absent) :: fields =>
    match lookup name members, absent with
    | some v, _ | none, some v => do .ok ((name, v) :: (← assemble members fields))
    | none, none => .error (.missingField name)

/-- How long a list must be to stand for a record. -/
def recordLength (name : String) (fields : List Field) : String :=
  "struct " ++ name ++ " with " ++ toString fields.length ++
    if fields.length = 1 then " element" else " elements"

/-- The fields that a list has left out at its end. -/
def completeFields (name : String) (fields : List Field) : Nat → List Field → Except Error (List (String × Json))
  | _, [] => .ok []
  | i, (fieldName, _, some v) :: rest => do
    .ok ((fieldName, v) :: (← completeFields name fields (i + 1) rest))
  | i, (_, _, none) :: _ => .error (.wrongLength i (recordLength name fields))

def ofDict (d : Dict String Json) : Json := .obj d.entries

def Shape.ofScalar (shape : Shape) (v : Json) : Except Error Json :=
  match shape, v with
  | .any, v => .ok v
  | .text, .str s => .ok (.str s)
  | .path, .str s => .ok (.str s)
  | .bool, .bool b => .ok (.bool b)
  | .float, .num n => .ok (.num (.float n.toBinary64))
  | .nat, .num (.nat n) => .ok (.num (.nat n))
  | .nat, .num (.negative n) => .error (.unsuitable (.number (.negative n)) Shape.nat.wanted)
  | shape, v => .error (.mismatch (Found.of v) shape.wanted)

mutual

/-- Settles whether a value that has been read already is of a shape. -/
def Shape.settle (shape : Shape) : Json → Except Error Json
  | .arr items =>
    match shape with
    | .any => .ok (.arr items)
    | .list item => do .ok (.arr (← item.settleItems items))
    | shape => .error (.mismatch .list shape.wanted)
  | .obj members =>
    match shape with
    | .any => .ok (.obj members)
    | .map item => do .ok (ofDict (Dict.ofList (← item.settleMembers members)))
    | .record _ fields => do .ok (.obj (← assemble (← settleFields fields [] members) fields))
    | shape => .error (.mismatch .object shape.wanted)
  | v => shape.ofScalar v

def Shape.settleItems (shape : Shape) : List Json → Except Error (List Json)
  | [] => .ok []
  | v :: rest => do .ok ((← shape.settle v) :: (← shape.settleItems rest))

def Shape.settleMembers (shape : Shape) : List (String × Json) → Except Error (List (String × Json))
  | [] => .ok []
  | (name, v) :: rest => do .ok ((name, ← shape.settle v) :: (← shape.settleMembers rest))

/-- Settles the members that are fields of a record; the others are passed over. -/
def settleFields (fields : List Field) (done : List (String × Json)) :
    List (String × Json) → Except Error (List (String × Json))
  | [] => .ok done
  | (name, v) :: rest =>
    match fields.find? (·.1 = name) with
    | none => settleFields fields done rest
    | some (_, shape, _) =>
      match lookup name done with
      | some _ => .error (.duplicateField name)
      | none => do settleFields fields (done ++ [(name, ← shape.settle v)]) rest

end

end CloudOffers.Json
