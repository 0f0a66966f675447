import CloudOffers.Json.Shape
import CloudOffers.Json.Skip
/-!
Reading JSON text of a shape. The first fault in the order of the text is reported; a field left
out is one only at the end of its record.
-/

namespace CloudOffers.Json

def nesting : Nat := 128

/-- The members of an object so far, by name: fields of the record, and what else there is. -/
structure Members where
  fields : List (String × Json)
  others : List (String × Json)

inductive Purpose where
  | field (shape : Shape)
  | other (shape : Shape)
  | unwanted

def Shape.purpose : Shape → String → Purpose
  | .any, _ => .other .any
  | .map item, _ => .other item
  | .record _ fields, name =>
    match fields.find? (·.1 = name) with
    | some (_, shape, _) => .field shape
    | none => .unwanted
  | .extended _ fields _, name =>
    match fields.find? (·.1 = name) with
    | some (_, shape, _) => .field shape
    | none => .other .any
  | _, _ => .unwanted

def Shape.ofMembers : Shape → Members → Except Error Json
  | .map _, m => .ok (ofDict (Dict.ofList m.others))
  | .record _ fields, m => do .ok (.obj (← assemble m.fields fields))
  | .extended _ fields inner, m => do
    let own ← assemble m.fields fields
    let rest ← assemble (← settleFields inner [] m.others) inner
    .ok (.obj (rest ++ own))
  | _, m => .ok (.obj m.others)

def Shape.takesObject : Shape → Bool
  | .any | .map _ | .record .. | .extended .. => true
  | _ => false

/-- Reads a value that is no list and no object. -/
def readScalar (b : UInt8) (bs : Bytes) : Except Error (Json × Bytes) :=
  if b = 0x6e then (readWord [0x75, 0x6c, 0x6c] bs).map (fun r ↦ (.null, r.2))
  else if b = 0x74 then (readWord [0x72, 0x75, 0x65] bs).map (fun r ↦ (.bool true, r.2))
  else if b = 0x66 then (readWord [0x61, 0x6c, 0x73, 0x65] bs).map (fun r ↦ (.bool false, r.2))
  else if b = 0x2d || isDigit b then (readNumber (b :: bs)).map (fun r ↦ (.num r.1, r.2))
  else if b = 0x22 then (readText bs).map (fun r ↦ (.str r.1, r.2))
  else .error .expectedValue

/-- Steps to the next item of a list: the bytes where it starts, or those after the list. -/
def nextItem (first : Bool) (bs : Bytes) : Except Error (Bool × Bytes) :=
  match skipBlanks bs with
  | [] => .error .listUnfinished
  | b :: bs =>
    if b = 0x5d then .ok (false, bs)
    else if first then .ok (true, b :: bs)
    else if b = 0x2c then
      match skipBlanks bs with
      | [] => .error .valueUnfinished
      | b :: bs => if b = 0x5d then .error .trailingComma else .ok (true, b :: bs)
    else .error .expectedListEnd

/-- Steps to the next member of an object: the bytes after the quote of its name, or those after
the object. -/
def nextMember (first : Bool) (bs : Bytes) : Except Error (Bool × Bytes) :=
  match skipBlanks bs with
  | [] => .error .objectUnfinished
  | b :: bs =>
    if b = 0x7d then .ok (false, bs)
    else if first then if b = 0x22 then .ok (true, bs) else .error .nameNotText
    else if b = 0x2c then
      match skipBlanks bs with
      | [] => .error .valueUnfinished
      | b :: bs =>
        if b = 0x22 then .ok (true, bs)
        else if b = 0x7d then .error .trailingComma
        else .error .nameNotText
    else .error .expectedObjectEnd

def readColon (bs : Bytes) : Except Error Bytes :=
  match skipBlanks bs with
  | [] => .error .objectUnfinished
  | b :: bs => if b = 0x3a then .ok bs else .error .expectedColon

/-- The end of a list that stands for a record. -/
def closeList (bs : Bytes) : Except Error Bytes :=
  match skipBlanks bs with
  | [] => .error .listUnfinished
  | b :: bs =>
    if b = 0x5d then .ok bs
    else if b = 0x2c then
      match skipBlanks bs with
      | 0x5d :: _ => .error .trailingComma
      | _ => .error .trailingCharacters
    else .error .trailingCharacters

mutual

/-- Reads a value of a shape; `room` is how many levels may still open. -/
def readShape : Nat → Nat → Shape → Bytes → Except Error (Json × Bytes)
  | 0, _, _, _ => .error .tooDeep
  | fuel + 1, room, shape, bs =>
    match skipBlanks bs with
    | [] => .error .valueUnfinished
    | b :: bs =>
      if b = 0x5b then
        match shape with
        | .any => if room ≤ 1 then .error .tooDeep else do
          let (items, bs) ← readItems fuel (room - 1) .any true bs
          .ok (.arr items, bs)
        | .list item => if room ≤ 1 then .error .tooDeep else do
          let (items, bs) ← readItems fuel (room - 1) item true bs
          .ok (.arr items, bs)
        | .record name fields => if room ≤ 1 then .error .tooDeep else do
          let (members, bs) ← readFields fuel (room - 1) name fields 0 fields bs
          .ok (.obj members, bs)
        | shape => .error (.mismatch .list shape.wanted)
      else if b = 0x7b then
        if !shape.takesObject then .error (.mismatch .object shape.wanted)
        else if room ≤ 1 then .error .tooDeep
        else do
          let (members, bs) ← readMembers fuel (room - 1) shape true ⟨[], []⟩ bs
          .ok (← shape.ofMembers members, bs)
      else do
        let (v, bs) ← readScalar b bs
        .ok (← shape.ofScalar v, bs)

def readItems : Nat → Nat → Shape → Bool → Bytes → Except Error (List Json × Bytes)
  | 0, _, _, _, _ => .error .tooDeep
  | fuel + 1, room, item, first, bs => do
    match ← nextItem first bs with
    | (false, bs) => .ok ([], bs)
    | (true, bs) =>
      let (v, bs) ← readShape fuel room item bs
      let (rest, bs) ← readItems fuel room item false bs
      .ok (v :: rest, bs)

/-- Reads a list as the fields of a record; those at its end may be left out. -/
def readFields : Nat → Nat → String → List Field → Nat → List Field → Bytes →
    Except Error (List (String × Json) × Bytes)
  | 0, _, _, _, _, _, _ => .error .tooDeep
  | _ + 1, _, _, _, _, [], bs => do .ok ([], ← closeList bs)
  | fuel + 1, room, name, fields, i, (fieldName, shape, absent) :: left, bs => do
    match ← nextItem (i = 0) bs with
    | (false, bs) => .ok (← completeFields name fields i ((fieldName, shape, absent) :: left), bs)
    | (true, bs) =>
      let (v, bs) ← readShape fuel room shape bs
      let (rest, bs) ← readFields fuel room name fields (i + 1) left bs
      .ok ((fieldName, v) :: rest, bs)

def readMembers : Nat → Nat → Shape → Bool → Members → Bytes → Except Error (Members × Bytes)
  | 0, _, _, _, _, _ => .error .tooDeep
  | fuel + 1, room, shape, first, m, bs => do
    match ← nextMember first bs with
    | (false, bs) => .ok (m, bs)
    | (true, bs) =>
      let (name, bs) ← readText bs
      match shape.purpose name with
      | .field item =>
        match lookup name m.fields with
        | some _ => .error (.duplicateField name)
        | none =>
          let (v, bs) ← readShape fuel room item (← readColon bs)
          readMembers fuel room shape false { m with fields := m.fields ++ [(name, v)] } bs
      | .other item =>
        let (v, bs) ← readShape fuel room item (← readColon bs)
        readMembers fuel room shape false { m with others := m.others ++ [(name, v)] } bs
      | .unwanted =>
        readMembers fuel room shape false m (← skip (← readColon bs))

end

def read (shape : Shape) (bs : Bytes) : Except Error Json := do
  let (v, bs) ← readShape (2 * bs.length + 2) nesting shape bs
  match skipBlanks bs with
  | [] => .ok v
  | _ => .error .trailingCharacters

def bytes (s : String) : Bytes := s.toUTF8.toList

end CloudOffers.Json
