import CloudOffers.Dict
import CloudOffers.Toml.Reader
import CloudOffers.Text.Quoted
/-!
Layers of settings: values by name, as a file or the environment gives them, before it is known what
they have to be.
-/

namespace CloudOffers

/-- A value that is given for a setting. No setting reads the members of a map. -/
inductive Setting where
  | text (s : String)
  | bool (b : Bool)
  | unsigned (n : Nat)
  | signed (n : Int)
  | float (x : Binary64)
  | list (items : List Setting)
  | map
deriving Inhabited

namespace Setting

/-- What a message calls a value. -/
def description : Setting → String
  | .text s => "string " ++ quoted s
  | .bool true => "bool true"
  | .bool false => "bool false"
  | .unsigned n => "unsigned int `" ++ toString n ++ "`"
  | .signed n => "signed int `" ++ toString n ++ "`"
  | .float x => "float `" ++ NumberStyle.plain.text x ++ "`"
  | .list _ => "sequence"
  | .map => "map"

mutual

def ofToml : Toml.Value → Setting
  | .text s => .text s
  | .integer n => .signed n
  | .float x => .float x
  | .bool b => .bool b
  | .moment => .map
  | .list items => .list (ofTomlItems items)
  | .table .. => .map
  | .tables items => .list (items.map (fun _ ↦ .map))

def ofTomlItems : List Toml.Value → List Setting
  | [] => []
  | v :: rest => ofToml v :: ofTomlItems rest

end

end Setting

/-- What one source says of the settings. -/
abbrev Layer := Dict String Setting

def Layer.ofToml? (text : String) : Option Layer :=
  (Toml.read? text).map (fun members ↦ Dict.ofList (members.map (fun e ↦ (e.1, Setting.ofToml e.2))))

end CloudOffers
