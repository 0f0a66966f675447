import CloudOffers.Settings.Environment
import CloudOffers.Settings.Validation
import CloudOffers.Text.Path
/-!
Loading settings: each comes from the environment, else from the file that the environment names,
else it has its default. What a layer gives must be of the right kind, and all settings together
must be legal.
-/

namespace CloudOffers

inductive LayerOrigin where
  | environment
  | file (name : String)
deriving DecidableEq

namespace LayerOrigin

/-- The name of a setting, or of an item of it, as it stands at its origin. -/
def keyText (key : String) : LayerOrigin → String
  | .environment => String.ofList (key.toList.map Char.toUpper)
  | .file _ => "default." ++ key

def name : LayerOrigin → String
  | .environment => "`" ++ Environment.start ++ "` environment variable(s)"
  | .file name => Path.plain name ++ " TOML file"

end LayerOrigin

inductive SettingFault where
  | mismatch (found : Setting) (wanted : String)
  | negative (n : Int) (wanted : String)
  | item (index : Nat) (fault : SettingFault)

namespace SettingFault

def reason : SettingFault → String
  | .mismatch found wanted => "invalid type: found " ++ found.description ++ ", expected " ++ wanted
  | .negative n wanted => "invalid value " ++ (Setting.signed n).description ++ ", expected " ++ wanted
  | .item _ fault => fault.reason

def key (name : String) : SettingFault → String
  | .item index fault => fault.key (name ++ "." ++ toString index)
  | _ => name

def error (name : String) (origin : LayerOrigin) (fault : SettingFault) : SettingsError :=
  .loadFailed (fault.reason ++ " for key \"" ++ origin.keyText (fault.key name) ++ "\" in " ++ origin.name)

end SettingFault

namespace Setting

def count? : Setting → Except SettingFault Nat
  | .unsigned n => .ok n
  | .signed n => if 0 ≤ n then .ok n.toNat else .error (.negative n "u64")
  | v => .error (.mismatch v "u64")

def path? : Setting → Except SettingFault String
  | .text s => .ok s
  | v => .error (.mismatch v "path string")

def name? : Setting → Except SettingFault String
  | .text s => .ok s
  | v => .error (.mismatch v "a string")

/-- The names of a list; `i` is the place of the first in the whole list. -/
def namesFrom? (i : Nat) : List Setting → Except SettingFault (List String)
  | [] => .ok []
  | v :: rest => do
    let name ← v.name?.mapError (.item i)
    .ok (name :: (← namesFrom? (i + 1) rest))

def names? : Setting → Except SettingFault (List String)
  | .list items => namesFrom? 0 items
  | v => .error (.mismatch v "a sequence")

end Setting

/-- The layers above the defaults, the highest first. -/
abbrev Layers := List (LayerOrigin × Layer)

/-- A setting from the highest layer that has it. -/
def Layers.read {α : Type} (name : String) (ofSetting : Setting → Except SettingFault α) (absent : α) :
    Layers → Except SettingsError α
  | [] => .ok absent
  | (origin, layer) :: rest =>
    match layer.get? name with
    | some v => (ofSetting v).mapError (fun fault ↦ fault.error name origin)
    | none => Layers.read name ofSetting absent rest

namespace Settings

def ofLayers (layers : Layers) : Except SettingsError Settings := do
  let longTtlSecs ← layers.read "cache_long_ttl_secs" Setting.count? default.longTtlSecs
  let shortTtlSecs ← layers.read "cache_short_ttl_secs" Setting.count? default.shortTtlSecs
  let catalogDir ← layers.read "catalog_dir" Setting.path? default.catalogDir
  let providers ← layers.read "providers" Setting.names? default.providers
  let renewalSecs ← layers.read "renewal_interval_secs" Setting.count? default.renewalSecs
  let shutdownMs ← layers.read "shutdown_timeout_ms" Setting.count? default.shutdownMs
  .ok ⟨providers, catalogDir, renewalSecs, longTtlSecs, shortTtlSecs, shutdownMs⟩

/-- The layer of a file. One that is not there gives nothing. -/
def fileLayers (name : String) : Option String → Except SettingsError Layers
  | none => .ok []
  | some text =>
    match Layer.ofToml? text with
    | some layer => .ok [(.file name, layer)]
    | none => .error (.loadFailed "TOML parse error")

def load (vars : List (String × String)) (file : String → Option String) :
    Except SettingsError Settings := do
  let below ← match Environment.file? vars with
    | some name => fileLayers name (file name)
    | none => .ok []
  let s ← ofLayers ((.environment, Environment.layer vars) :: below)
  s.validate
  .ok s

end Settings

end CloudOffers
