import CloudOffers.Json.Reader
import CloudOffers.Json.Printer
/-!
Types with a JSON form: how a value is written, the shape that is read, and the value that stands
behind what has been read.
-/

namespace CloudOffers.Json

class Document (α : Type) where
  shape : Shape
  toJson : α → Json
  ofJson? : Json → Option α

namespace Document

def list? {α : Type} (f : Json → Option α) : Json → Option (List α)
  | .arr items => items.mapM f
  | _ => none

def dict? {α : Type} (f : Json → Option α) : Json → Option (Dict String α)
  | .obj members => (members.mapM (fun e ↦ (f e.2).map (e.1, ·))).map Dict.ofList
  | _ => none

def text? : Json → Option String
  | .str s => some s
  | _ => none

def ofDict {α : Type} (f : α → Json) (d : Dict String α) : Json :=
  .obj (d.entries.map (fun e ↦ (e.1, f e.2)))

instance : Document String where
  shape := .text
  toJson := .str
  ofJson? := text?

instance : Document Bool where
  shape := .bool
  toJson := .bool
  ofJson?
    | .bool b => some b
    | _ => none

instance : Document Binary64 where
  shape := .float
  toJson := ofFloat
  ofJson?
    | .num (.float x) => some x
    | _ => none

instance : Document Nat where
  shape := .nat
  toJson := ofNat
  ofJson?
    | .num (.nat n) => some n
    | _ => none

instance {α : Type} [Document α] : Document (List α) where
  shape := .list (shape α)
  toJson l := .arr (l.map toJson)
  ofJson? := list? ofJson?

instance {α : Type} [Document α] : Document (Dict String α) where
  shape := .map (shape α)
  toJson := ofDict toJson
  ofJson? := dict? ofJson?

end Document

def field (name : String) (α : Type) [Document α] : Field := .required name (Document.shape α)

def fieldWith {α : Type} [Document α] (name : String) (absent : α) : Field :=
  .optional name (Document.shape α) (Document.toJson absent)

def parse (α : Type) [Document α] (bs : Bytes) : Except Error α := do
  match Document.ofJson? (← read (Document.shape α) bs) with
  | some x => .ok x
  | none => .error .expectedValue

end CloudOffers.Json
