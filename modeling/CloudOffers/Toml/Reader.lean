import CloudOffers.Toml.Lexeme
/-!
Reading TOML documents. A text that is none yields nothing.
-/

namespace CloudOffers.Toml

/-- Values nest less deep than this, and keys have fewer parts. -/
def nesting : Nat := 80

def keyParts : Nat := nesting - 1

mutual

/-- Reads a value; `room` is how many levels may still open. -/
def readValue? : Nat → Nat → List Char → Option (Value × List Char)
  | 0, _, _ => none
  | fuel + 1, room, cs =>
    match cs with
    | '"' :: cs => (readText? '"' cs).map (fun r ↦ (.text r.1, r.2))
    | '\'' :: cs => (readText? '\'' cs).map (fun r ↦ (.text r.1, r.2))
    | '[' :: cs =>
      if room ≤ 1 then none
      else (readItems? fuel (room - 1) cs).map (fun r ↦ (.list r.1, r.2))
    | '\x7b' :: cs =>
      if room ≤ 1 then none
      else
        match skipBlanks cs with
        | '\x7d' :: cs => some (.table .inline [], cs)
        | cs => (readMembers? fuel (room - 1) [] cs).map (fun r ↦ (.table .inline r.1, r.2))
    | 't' :: 'r' :: 'u' :: 'e' :: cs => some (.bool true, cs)
    | 'f' :: 'a' :: 'l' :: 's' :: 'e' :: cs => some (.bool false, cs)
    | '+' :: cs => readSigned? false cs
    | '-' :: cs => readSigned? true cs
    | 'i' :: cs => readSigned? false ('i' :: cs)
    | 'n' :: cs => readSigned? false ('n' :: cs)
    | cs => readDigital? cs

def readItems? : Nat → Nat → List Char → Option (List Value × List Char)
  | 0, _, _ => none
  | fuel + 1, room, cs =>
    match skipLines cs.length cs with
    | ']' :: cs => some ([], cs)
    | cs => do
      let (v, cs) ← readValue? fuel room cs
      match skipLines cs.length cs with
      | ',' :: cs =>
        let (rest, cs) ← readItems? fuel room cs
        some (v :: rest, cs)
      | ']' :: cs => some ([v], cs)
      | _ => none

def readMembers? : Nat → Nat → Members → List Char → Option (Members × List Char)
  | 0, _, _, _ => none
  | fuel + 1, room, done, cs => do
    let (key, cs) ← readKey? keyParts cs
    match cs with
    | '=' :: cs =>
      let (v, cs) ← readValue? fuel room (skipBlanks cs)
      let done ← done.put v true key
      match skipBlanks cs with
      | ',' :: cs => readMembers? fuel room done cs
      | '\x7d' :: cs => some (done, cs)
      | _ => none
    | _ => none

end

/-- A document so far: its members, and the path of the table that the next keys belong to. -/
structure Draft where
  members : Members
  path : List String

def readHeader? (close : Members → Option Members) (brackets : Nat) (d : Draft) (key : List String)
    (cs : List Char) : Option (Draft × List Char) := do
  if (cs.take brackets).all (· = ']') && (cs.take brackets).length = brackets then
    some (⟨← d.members.changeAt close key.dropLast, key⟩, ← endLine? (cs.drop brackets))
  else none

def readEntry? (d : Draft) (cs : List Char) : Option (Draft × List Char) :=
  match skipBlanks cs with
  | '[' :: '[' :: cs => do
    let (key, cs) ← readKey? keyParts cs
    readHeader? (Members.openItem (key.getLast?.getD "")) 2 d key cs
  | '[' :: cs => do
    let (key, cs) ← readKey? keyParts cs
    readHeader? (Members.openTable (key.getLast?.getD "")) 1 d key cs
  | cs =>
    match endLine? cs with
    | some rest => some (d, rest)
    | none => do
      let (key, cs) ← readKey? keyParts cs
      match cs with
      | '=' :: cs =>
        let (v, cs) ← readValue? (2 * cs.length + 2) nesting (skipBlanks cs)
        some (⟨← d.members.changeAt (Members.put v true key) d.path, d.path⟩, ← endLine? cs)
      | _ => none

def readEntries? : Nat → Draft → List Char → Option Members
  | _, d, [] => some d.members
  | 0, _, _ => none
  | fuel + 1, d, cs => do
    let (d, cs) ← readEntry? d cs
    readEntries? fuel d cs

/-- Reads a document. A byte order mark may stand before it. -/
def read? (text : String) : Option Members :=
  let cs := match text.toList with
    | '\ufeff' :: cs => cs
    | cs => cs
  readEntries? (cs.length + 1) ⟨[], []⟩ cs

end CloudOffers.Toml
