import CloudOffers.Proofs.Settings.Environment
import CloudOffers.Proofs.Settings.Validation
/-!
Where each setting comes from. Whatever the other layers say of it, and whatever they say of other settings, it is
what the variable that names it says, else what the file says, else its default.
-/

namespace CloudOffers

namespace Layers

variable {layers : Layers}

/-- What the highest layer that has a setting says of it, and which layer that is. -/
def top? (layers : Layers) (name : String) : Option (LayerOrigin × Setting) :=
  layers.findSome? (fun l ↦ (l.2.get? name).map (l.1, ·))

theorem top?_cons (origin : LayerOrigin) (layer : Layer) (layers : Layers) (name : String) :
    top? ((origin, layer) :: layers) name = ((layer.get? name).map (origin, ·)).or (layers.top? name) := by
  rw [top?, List.findSome?_cons]
  cases layer.get? name <;> rfl

variable {α : Type} {name : String} {ofSetting : Setting → Except SettingFault α} {absent x : α}

theorem read_eq : layers.read name ofSetting absent =
    match layers.top? name with
    | some (origin, v) => (ofSetting v).mapError (fun fault ↦ fault.error name origin)
    | none => .ok absent := by
  induction layers with
  | nil => rfl
  | cons l layers ih =>
    obtain ⟨origin, layer⟩ := l
    rw [read, top?_cons]
    cases layer.get? name with
    | some v => rfl
    | none => exact ih

theorem read_eq_ok_iff : layers.read name ofSetting absent = .ok x ↔
    (∃ origin v, layers.top? name = some (origin, v) ∧ ofSetting v = .ok x) ∨
      (layers.top? name = none ∧ absent = x) := by
  rw [read_eq]
  cases layers.top? name with
  | none => simp
  | some found =>
    obtain ⟨origin, v⟩ := found
    cases hv : ofSetting v <;> simp [Except.mapError, hv]

end Layers

namespace Settings

open Json (bind_eq_ok_iff)

theorem ofLayers_congr {layers layers' : Layers} (h : ∀ field ∈ fields, layers.top? field = layers'.top? field) :
    ofLayers layers = ofLayers layers' := by
  have hread {α : Type} {field : String} (hfield : field ∈ fields) (ofSetting : Setting → Except SettingFault α)
      (absent : α) : layers.read field ofSetting absent = layers'.read field ofSetting absent := by
    rw [Layers.read_eq, Layers.read_eq, h field hfield]
  simp only [ofLayers]
  rw [hread (by decide), hread (by decide), hread (by decide), hread (by decide), hread (by decide), hread (by decide)]

theorem ofLayers_eq_ok_iff {layers : Layers} {s : Settings} : ofLayers layers = .ok s ↔
    layers.read "providers" Setting.names? default.providers = .ok s.providers ∧
    layers.read "catalog_dir" Setting.path? default.catalogDir = .ok s.catalogDir ∧
    layers.read "renewal_interval_secs" Setting.count? default.renewalSecs = .ok s.renewalSecs ∧
    layers.read "cache_long_ttl_secs" Setting.count? default.longTtlSecs = .ok s.longTtlSecs ∧
    layers.read "cache_short_ttl_secs" Setting.count? default.shortTtlSecs = .ok s.shortTtlSecs ∧
    layers.read "shutdown_timeout_ms" Setting.count? default.shutdownMs = .ok s.shutdownMs := by
  simp only [ofLayers, bind_eq_ok_iff]
  constructor
  · intro h
    obtain ⟨_, hlong, _, hshort, _, hdir, _, hproviders, _, hrenewal, _, hshutdown, hs⟩ := h
    cases hs
    exact ⟨hproviders, hdir, hrenewal, hlong, hshort, hshutdown⟩
  · intro h
    obtain ⟨hproviders, hdir, hrenewal, hlong, hshort, hshutdown⟩ := h
    exact ⟨_, hlong, _, hshort, _, hdir, _, hproviders, _, hrenewal, _, hshutdown, rfl⟩

/-- What a file says. One that is not there says nothing, and one that is no document is refused. -/
def members? : Option String → Option Toml.Members
  | none => some []
  | some text => Toml.read? text

/-- The layer that some members make. -/
def layerOf (members : Toml.Members) : Layer := Dict.ofList (members.map (fun e ↦ (e.1, Setting.ofToml e.2)))

theorem get?_layerOf (members : Toml.Members) (field : String) :
    (layerOf members).get? field = ((Dict.ofList members).get? field).map Setting.ofToml :=
  Dict.get?_ofList_map_value members Setting.ofToml field

theorem fileLayers_of_members (name : String) {text? : Option String} {members : Toml.Members}
    (h : members? text? = some members) : ∃ below, fileLayers name text? = .ok below ∧
      ∀ field, below.top? field = ((layerOf members).get? field).map (LayerOrigin.file name, ·) := by
  cases text? with
  | none =>
    cases h
    exact ⟨[], rfl, fun _ ↦ rfl⟩
  | some text =>
    have hmembers : Toml.read? text = some members := h
    refine ⟨[(.file name, layerOf members)], by rw [fileLayers, Layer.ofToml?, hmembers]; rfl, fun field ↦ ?_⟩
    rw [Layers.top?_cons]
    exact Option.or_none

theorem fileLayers_of_refused (name : String) {text? : Option String} (h : members? text? = none) :
    ∃ e, fileLayers name text? = .error e := by
  cases text? with
  | none => cases h
  | some text =>
    have hmembers : Toml.read? text = none := h
    exact ⟨_, by rw [fileLayers, Layer.ofToml?, hmembers]; rfl⟩

section Load

variable {vars : List (String × String)} {file : String → Option String} {document : Toml.Members} {s : Settings}

/-- The name of the file is what the first variable of that name says. -/
def fileName? (vars : List (String × String)) : Option String :=
  (vars.find? (fun e ↦ e.1 = "CLOUDINFO_CONFIG_FILE")).map (·.2)

/-- What the file says that the variables name, if they name one. -/
def document? (vars : List (String × String)) (file : String → Option String) : Option Toml.Members :=
  members? ((fileName? vars).bind file)

theorem file?_eq (vars : List (String × String)) : Environment.file? vars = fileName? vars := by
  have hname : Environment.start ++ Environment.fileVariable = "CLOUDINFO_CONFIG_FILE" := by decide
  rw [Environment.file?, hname]
  rfl

/-- What is made of some variables over the layers below them. -/
def ofStack (vars : List (String × String)) (below : Layers) : Except SettingsError Settings := do
  let s ← ofLayers ((.environment, Environment.layer vars) :: below)
  s.validate
  .ok s

theorem load_eq (vars : List (String × String)) (file : String → Option String) : load vars file =
    (match fileName? vars with
      | some name => fileLayers name (file name)
      | none => .ok []) >>= ofStack vars := by
  rw [load, file?_eq]
  cases fileName? vars <;> rfl

theorem load_of_document (h : document? vars file = some document) : ∃ below,
    (∀ field, below.top? field = ((layerOf document).get? field).map (LayerOrigin.file ((fileName? vars).getD ""), ·)) ∧
      load vars file = ofStack vars below := by
  rw [document?] at h
  rw [load_eq]
  cases hname : fileName? vars with
  | none =>
    rw [hname] at h
    cases h
    exact ⟨[], fun _ ↦ rfl, rfl⟩
  | some name =>
    rw [hname, Option.bind_some] at h
    obtain ⟨below, hbelow, htop⟩ := fileLayers_of_members name h
    exact ⟨below, htop, by simp only [hbelow, Json.ok_bind]⟩

theorem load_of_refused (h : document? vars file = none) : ∃ e, load vars file = .error e := by
  rw [document?] at h
  rw [load_eq]
  cases hname : fileName? vars with
  | none =>
    rw [hname] at h
    cases h
  | some name =>
    rw [hname, Option.bind_some] at h
    obtain ⟨e, he⟩ := fileLayers_of_refused name h
    exact ⟨e, by simp only [he]; rfl⟩

theorem ofStack_eq_ok_iff {below : Layers} : ofStack vars below = .ok s ↔
    ofLayers ((.environment, Environment.layer vars) :: below) = .ok s ∧ s.validate = .ok () := by
  rw [ofStack, bind_eq_ok_iff]
  constructor
  · intro h
    obtain ⟨found, hfound, h⟩ := h
    obtain ⟨_, hvalid, h⟩ := bind_eq_ok_iff.1 h
    cases h
    exact ⟨hfound, hvalid⟩
  · intro h
    exact ⟨s, h.1, bind_eq_ok_iff.2 ⟨(), h.2, rfl⟩⟩

/-- The same is made of variables and layers that say the same of every setting. -/
theorem ofStack_congr {vars' : List (String × String)} {below below' : Layers}
    (hvars : ∀ field ∈ fields, (Environment.layer vars).get? field = (Environment.layer vars').get? field)
    (hbelow : ∀ field ∈ fields, below.top? field = below'.top? field) : ofStack vars below = ofStack vars' below' := by
  have htop : ∀ field ∈ fields, Layers.top? ((.environment, Environment.layer vars) :: below) field =
      Layers.top? ((.environment, Environment.layer vars') :: below') field := by
    intro field hfield
    rw [Layers.top?_cons, Layers.top?_cons, hvars field hfield, hbelow field hfield]
  rw [ofStack, ofStack, ofLayers_congr htop]

end Load

/-- The variables name no setting twice. Those that lead below a setting do not name it. -/
def Once (vars : List (String × String)) : Prop :=
  ∀ field ∈ fields, ∀ e ∈ vars, ∀ e' ∈ vars, Environment.Names e.1 field → Environment.Names e'.1 field → e = e'

/-- No variable leads below a setting. -/
def Flat (vars : List (String × String)) : Prop := ∀ field ∈ fields, ∀ e ∈ vars, ¬Environment.Below e.1 field

instance : DecidablePred Once := fun _ ↦ inferInstanceAs (Decidable (∀ _ ∈ _, _))

instance : DecidablePred Flat := fun _ ↦ inferInstanceAs (Decidable (∀ _ ∈ _, _))

/-- How a setting of some kind is written: as the value of a variable, and as a value in a file. -/
structure Kind (α : Type) where
  given : Setting → α → Prop
  written : Toml.Value → α → Prop

namespace Kind

def path : Kind String where
  given v dir := v = .text dir
  written v dir := v = .text dir

/-- An integer that is not negative. -/
def count : Kind Nat where
  given v n := v = .unsigned n ∨ v = .signed n
  written v n := v = .integer n

/-- A list of texts. An array of tables that has none would be a list as well. -/
def names : Kind (List String) where
  given v l := v = .list (l.map .text)
  written v l := v = .list (l.map .text) ∨ v = .tables [] ∧ l = []

end Kind

/-- A setting is what the variable that names it says, else what the file says, else its default. -/
structure FromLayers {α : Type} (vars : List (String × String)) (document : Toml.Members) (field : String)
    (kind : Kind α) (absent x : α) : Prop where
  environment : ∀ e ∈ vars, Environment.Names e.1 field → kind.given (Environment.setting e.2) x
  file : (∀ e ∈ vars, ¬Environment.Names e.1 field) → ∀ v, LastEntry document field v → kind.written v x
  absent : (∀ e ∈ vars, ¬Environment.Names e.1 field) → (∀ e ∈ document, e.1 ≠ field) → x = absent

structure Layered (vars : List (String × String)) (document : Toml.Members) (s : Settings) : Prop where
  providers : FromLayers vars document "providers" .names [] s.providers
  catalogDir : FromLayers vars document "catalog_dir" .path "./catalogs" s.catalogDir
  renewalSecs : FromLayers vars document "renewal_interval_secs" .count 86400 s.renewalSecs
  longTtlSecs : FromLayers vars document "cache_long_ttl_secs" .count 172800 s.longTtlSecs
  shortTtlSecs : FromLayers vars document "cache_short_ttl_secs" .count 600 s.shortTtlSecs
  shutdownMs : FromLayers vars document "shutdown_timeout_ms" .count 10000 s.shutdownMs

section Kinds

variable {α : Type} {ofSetting : Setting → Except SettingFault α} {kind : Kind α}

/-- What is read of a value is what the value says. -/
structure Reads (ofSetting : Setting → Except SettingFault α) (kind : Kind α) : Prop where
  given : ∀ v x, ofSetting v = .ok x ↔ kind.given v x
  written : ∀ v x, ofSetting (.ofToml v) = .ok x ↔ kind.written v x
  map : ∀ x, ofSetting .map ≠ .ok x

theorem reads_path : Reads Setting.path? .path where
  given v dir := by cases v <;> simp [Setting.path?, Kind.path]
  written v dir := by cases v <;> simp [Setting.ofToml, Setting.path?, Kind.path]
  map _ := nofun

theorem reads_count : Reads Setting.count? .count where
  given v n := by
    cases v with
    | signed m =>
      by_cases hm : 0 ≤ m
      · simp only [Setting.count?, if_pos hm, Kind.count, Except.ok.injEq, Setting.signed.injEq, reduceCtorEq, false_or]
        omega
      · simp only [Setting.count?, if_neg hm, Kind.count, Setting.signed.injEq, reduceCtorEq, false_or, false_iff]
        omega
    | _ => simp [Setting.count?, Kind.count]
  written v n := by
    cases v with
    | integer m =>
      by_cases hm : 0 ≤ m
      · simp only [Setting.ofToml, Setting.count?, if_pos hm, Kind.count, Except.ok.injEq, Toml.Value.integer.injEq]
        omega
      · simp only [Setting.ofToml, Setting.count?, if_neg hm, Kind.count, Toml.Value.integer.injEq, reduceCtorEq,
          false_iff]
        omega
    | _ => simp [Setting.ofToml, Setting.count?, Kind.count]
  map _ := nofun

theorem namesFrom?_eq_ok_iff {i : Nat} {items : List Setting} {l : List String} :
    Setting.namesFrom? i items = .ok l ↔ items = l.map .text := by
  induction items generalizing i l with
  | nil => cases l <;> simp [Setting.namesFrom?]
  | cons v items ih =>
    rw [Setting.namesFrom?, bind_eq_ok_iff]
    constructor
    · rintro ⟨name, hname, h⟩
      obtain ⟨rest, hrest, hl⟩ := bind_eq_ok_iff.1 h
      cases hl
      rw [List.map_cons, ← ih.1 hrest]
      cases v <;> cases hname
      rfl
    · intro h
      cases l with
      | nil => cases h
      | cons name rest =>
        cases h
        exact ⟨name, rfl, bind_eq_ok_iff.2 ⟨rest, ih.2 rfl, rfl⟩⟩

theorem ofTomlItems_eq_iff {items : List Toml.Value} {l : List String} :
    Setting.ofTomlItems items = l.map .text ↔ items = l.map .text := by
  induction items generalizing l with
  | nil => cases l <;> simp [Setting.ofTomlItems]
  | cons v items ih =>
    cases l with
    | nil => simp [Setting.ofTomlItems]
    | cons name rest =>
      simp only [Setting.ofTomlItems, List.map_cons, List.cons.injEq, ih]
      cases v <;> simp [Setting.ofToml]

theorem reads_names : Reads Setting.names? .names where
  given v l := by
    cases v with
    | list items => simp [Setting.names?, namesFrom?_eq_ok_iff, Kind.names]
    | _ => simp [Setting.names?, Kind.names]
  written v l := by
    cases v with
    | list items => simp [Setting.ofToml, Setting.names?, namesFrom?_eq_ok_iff, Kind.names, ofTomlItems_eq_iff]
    | tables items =>
      cases items with
      | nil => cases l <;> simp [Setting.ofToml, Setting.names?, Setting.namesFrom?, Kind.names]
      | cons m items =>
        cases l <;> simp [Setting.ofToml, Setting.names?, namesFrom?_eq_ok_iff, Kind.names]
    | _ => simp [Setting.ofToml, Setting.names?, Kind.names]
  map _ := nofun

end Kinds

section FromLayers

variable {α : Type} {vars : List (String × String)} {document : Toml.Members} {field : String}
  {ofSetting : Setting → Except SettingFault α} {kind : Kind α} {absent x : α} {below : Layers} {origin : LayerOrigin}

theorem read_stack_eq_ok_iff {above layer : Layer} (hbelow : below.top? field = (layer.get? field).map (origin, ·)) :
    Layers.read field ofSetting absent ((.environment, above) :: below) = .ok x ↔
      (∃ v, (above.get? field).or (layer.get? field) = some v ∧ ofSetting v = .ok x) ∨
        ((above.get? field).or (layer.get? field) = none ∧ absent = x) := by
  rw [Layers.read_eq_ok_iff, Layers.top?_cons, hbelow]
  cases above.get? field <;> cases layer.get? field <;> simp

/-- A variable below a setting makes a map of it, which is read as nothing. -/
theorem fromLayers_of_read (hkind : Reads ofSetting kind) (honce : Once vars) (hfield : field ∈ fields)
    (hbelow : below.top? field = ((layerOf document).get? field).map (origin, ·))
    (h : Layers.read field ofSetting absent ((.environment, Environment.layer vars) :: below) = .ok x) :
    FromLayers vars document field kind absent x := by
  have hread := (read_stack_eq_ok_iff hbelow).1 h
  cases hlayer : (Environment.layer vars).get? field with
  | some v =>
    have hv : ofSetting v = .ok x := by simpa [hlayer] using hread
    obtain ⟨e, he, ⟨hnames, rfl⟩ | ⟨-, rfl⟩⟩ := Environment.exists_of_get?_layer hlayer
    · exact
        { environment := fun e' he' hnames' ↦
            honce field hfield e he e' he' hnames hnames' ▸ (hkind.given _ _).1 hv
          file := fun hnone ↦ absurd hnames (hnone e he)
          absent := fun hnone ↦ absurd hnames (hnone e he) }
    · exact absurd hv (hkind.map x)
  | none =>
    have hnone := Environment.not_names_of_get?_layer hfield hlayer
    rw [hlayer, Option.none_or, get?_layerOf] at hread
    exact
      { environment := fun e he hnames ↦ absurd hnames (hnone e he)
        file := fun _ v hv ↦ by
          rw [Dict.get?_ofList_eq_some_iff.2 hv] at hread
          exact (hkind.written v x).1 (by simpa using hread)
        absent := fun _ hdocument ↦ by
          rw [Dict.get?_ofList_eq_none_iff.2 hdocument] at hread
          simpa [eq_comm] using hread }

theorem FromLayers.read (h : FromLayers vars document field kind absent x) (hkind : Reads ofSetting kind)
    (hflat : Flat vars) (hfield : field ∈ fields)
    (hbelow : below.top? field = ((layerOf document).get? field).map (origin, ·)) :
    Layers.read field ofSetting absent ((.environment, Environment.layer vars) :: below) = .ok x := by
  refine (read_stack_eq_ok_iff hbelow).2 ?_
  cases hlayer : (Environment.layer vars).get? field with
  | some v =>
    obtain ⟨e, he, ⟨hnames, rfl⟩ | ⟨hleads, -⟩⟩ := Environment.exists_of_get?_layer hlayer
    · exact .inl ⟨_, rfl, (hkind.given _ _).2 (h.environment e he hnames)⟩
    · exact absurd hleads (hflat field hfield e he)
  | none =>
    have hnone := Environment.not_names_of_get?_layer hfield hlayer
    rw [Option.none_or, get?_layerOf]
    cases hdocument : (Dict.ofList document).get? field with
    | some v =>
      have hwritten := h.file hnone v (Dict.get?_ofList_eq_some_iff.1 hdocument)
      exact .inl ⟨_, rfl, (hkind.written v x).2 hwritten⟩
    | none => exact .inr ⟨rfl, (h.absent hnone (Dict.get?_ofList_eq_none_iff.1 hdocument)).symm⟩

end FromLayers

section Load

variable {vars : List (String × String)} {file : String → Option String} {document : Toml.Members} {s : Settings}
  {below : Layers} {origin : LayerOrigin}

theorem layered_of_ofLayers (honce : Once vars)
    (hbelow : ∀ field, below.top? field = ((layerOf document).get? field).map (origin, ·))
    (h : ofLayers ((.environment, Environment.layer vars) :: below) = .ok s) : Layered vars document s := by
  obtain ⟨hproviders, hdir, hrenewal, hlong, hshort, hshutdown⟩ := ofLayers_eq_ok_iff.1 h
  exact
    { providers := fromLayers_of_read reads_names honce (by decide) (hbelow _) hproviders
      catalogDir := fromLayers_of_read reads_path honce (by decide) (hbelow _) hdir
      renewalSecs := fromLayers_of_read reads_count honce (by decide) (hbelow _) hrenewal
      longTtlSecs := fromLayers_of_read reads_count honce (by decide) (hbelow _) hlong
      shortTtlSecs := fromLayers_of_read reads_count honce (by decide) (hbelow _) hshort
      shutdownMs := fromLayers_of_read reads_count honce (by decide) (hbelow _) hshutdown }

theorem Layered.ofLayers (h : Layered vars document s) (hflat : Flat vars)
    (hbelow : ∀ field, below.top? field = ((layerOf document).get? field).map (origin, ·)) :
    ofLayers ((.environment, Environment.layer vars) :: below) = .ok s := by
  exact ofLayers_eq_ok_iff.2
    ⟨h.providers.read reads_names hflat (by decide) (hbelow _),
      h.catalogDir.read reads_path hflat (by decide) (hbelow _),
      h.renewalSecs.read reads_count hflat (by decide) (hbelow _),
      h.longTtlSecs.read reads_count hflat (by decide) (hbelow _),
      h.shortTtlSecs.read reads_count hflat (by decide) (hbelow _),
      h.shutdownMs.read reads_count hflat (by decide) (hbelow _)⟩

/-- Settings that are loaded come from their layers, -/
theorem layered_of_load (honce : Once vars) (h : load vars file = .ok s) :
    s.validate = .ok () ∧ ∃ document, document? vars file = some document ∧ Layered vars document s := by
  cases hdocument : document? vars file with
  | none =>
    obtain ⟨e, he⟩ := load_of_refused hdocument
    rw [he] at h
    cases h
  | some document =>
    obtain ⟨below, hbelow, hload⟩ := load_of_document hdocument
    obtain ⟨hread, hvalid⟩ := ofStack_eq_ok_iff.1 (hload ▸ h)
    exact ⟨hvalid, document, rfl, layered_of_ofLayers honce hbelow hread⟩

/-- and all that come from them and are legal are loaded. -/
theorem Layered.load (h : Layered vars document s) (hflat : Flat vars) (hdocument : document? vars file = some document)
    (hvalid : s.validate = .ok ()) : load vars file = .ok s := by
  obtain ⟨below, hbelow, hload⟩ := load_of_document hdocument
  exact hload ▸ ofStack_eq_ok_iff.2 ⟨h.ofLayers hflat hbelow, hvalid⟩

/-- A variable that has nothing to do with the settings may be added anywhere. -/
theorem load_insert {name : String} (h : Environment.Unknown name) (value : String)
    (before after : List (String × String)) (file : String → Option String) :
    load (before ++ (name, value) :: after) file = load (before ++ after) file := by
  have hstack : ofStack (before ++ (name, value) :: after) = ofStack (before ++ after) := funext fun _ ↦
    ofStack_congr (fun _ hfield ↦ Environment.get?_layer_insert (h.ofVariable?_ne hfield value) before after)
      fun _ _ ↦ rfl
  rw [load_eq, load_eq, ← file?_eq, ← file?_eq, Environment.file?_insert h.1, hstack]

/-- Two files, or none, that say the same of every setting. -/
def SameFields (text? text?' : Option String) : Prop :=
  ∃ document document', members? text? = some document ∧ members? text?' = some document' ∧
    ∀ field ∈ fields, ∀ v, LastEntry document field v ↔ LastEntry document' field v

theorem load_of_sameFields {file' : String → Option String}
    (h : ∀ name, fileName? vars = some name → SameFields (file name) (file' name)) :
    load vars file = load vars file' := by
  cases hname : fileName? vars with
  | none => rw [load_eq, load_eq, hname]
  | some name =>
    obtain ⟨document, document', hdocument, hdocument', hsame⟩ := h name hname
    have hfile : document? vars file = some document := by rw [document?, hname, Option.bind_some, hdocument]
    have hfile' : document? vars file' = some document' := by rw [document?, hname, Option.bind_some, hdocument']
    obtain ⟨below, hbelow, hload⟩ := load_of_document hfile
    obtain ⟨below', hbelow', hload'⟩ := load_of_document hfile'
    rw [hload, hload']
    refine ofStack_congr (fun _ _ ↦ rfl) fun field hfield ↦ ?_
    have hget : (Dict.ofList document).get? field = (Dict.ofList document').get? field := by
      ext v
      rw [Dict.get?_ofList_eq_some_iff, Dict.get?_ofList_eq_some_iff, hsame field hfield]
    rw [hbelow, hbelow', get?_layerOf, get?_layerOf, hget]

/-- A file that has no setting is like one that is not there. -/
theorem sameFields_none {text? : Option String} (h : members? text? = some document)
    (hkeys : ∀ field ∈ fields, field ∉ document.map (·.1)) : SameFields none text? := by
  refine ⟨[], document, rfl, h, fun field hfield v ↦ ⟨?_, ?_⟩⟩
  · rintro ⟨before, after, heq, -⟩
    simp at heq
  · rintro ⟨before, after, rfl, -⟩
    refine absurd ?_ (hkeys field hfield)
    simp

end Load

/-- Settings that are loaded are legal and each come from the highest layer that has them. As long as nothing leads
below a setting, all that come so and are legal are loaded. Unknown names, in the environment or in the file, change
nothing, and neither does a file in which there is nothing. -/
theorem load_layered (vars : List (String × String)) (file : String → Option String) :
    (Once vars → ∀ s, load vars file = .ok s → s.validate = .ok () ∧
      ∃ document, document? vars file = some document ∧ Layered vars document s) ∧
    (Flat vars → ∀ s document, document? vars file = some document → Layered vars document s → s.validate = .ok () →
      load vars file = .ok s) ∧
    (∀ before after name value, vars = before ++ after → Environment.Unknown name →
      load (before ++ (name, value) :: after) file = load vars file) ∧
    (∀ file', (∀ name, fileName? vars = some name → SameFields (file name) (file' name)) →
      load vars file' = load vars file) ∧
    (∀ file', (∀ name, fileName? vars = some name → file name = none ∧ file' name = some "") →
      load vars file' = load vars file) := by
  refine ⟨fun honce s h ↦ layered_of_load honce h,
    fun hflat s document hdocument h hvalid ↦ h.load hflat hdocument hvalid,
    fun before after name value hvars hname ↦ ?_,
    fun file' hsame ↦ (load_of_sameFields hsame).symm, fun file' hfile ↦ ?_⟩
  · rw [load_insert hname, hvars]
  · refine (load_of_sameFields fun name hname ↦ ?_).symm
    have hempty : members? (some "") = some [] := rfl
    rw [(hfile name hname).1, (hfile name hname).2]
    exact sameFields_none hempty fun _ _ ↦ List.not_mem_nil

/-- Variables that name the file and three settings, one of them in mixed case. -/
def mixedVars : List (String × String) :=
  [("CLOUDINFO_CONFIG_FILE", "c.toml"), ("CLOUDINFO_PROVIDERS", "[amazon, google]"),
    ("cloudinfo_Renewal_Interval_Secs", "7200"), ("CLOUDINFO_SHUTDOWN_TIMEOUT_MS", "+250")]

/-- The text of a file that says the same of two of them, and has the other settings. -/
def mixedFile : String → Option String := fun _ ↦ some
  ("providers = [\"azure\"]\nrenewal_interval_secs = 3600\ncatalog_dir = \"/srv/catalogs\"\n" ++
    "cache_long_ttl_secs = 9_000\ncache_short_ttl_secs = 0x1e\nport = 8000\n")

theorem load_layered_mixedVars :
    let s : Settings := ⟨["amazon", "google"], "/srv/catalogs", 7200, 9000, 30, 250⟩
    Once mixedVars ∧ Flat mixedVars ∧ load mixedVars mixedFile = .ok s ∧ s.validate = .ok () ∧
      (∃ document, document? mixedVars mixedFile = some document ∧ Layered mixedVars document s) ∧
      Environment.Unknown "CLOUDINFO_LOG" ∧
      load (("CLOUDINFO_LOG", "debug") :: mixedVars) mixedFile = load mixedVars mixedFile ∧
      SameFields none (some "port = 8000") ∧
      load mixedVars (fun _ ↦ some "port = 8000") = load mixedVars (fun _ ↦ none) ∧
      load mixedVars (fun _ ↦ some "") = load mixedVars (fun _ ↦ none) := by
  intro s
  have honce : Once mixedVars := by decide +kernel
  have hflat : Flat mixedVars := by decide +kernel
  have hname : Environment.Unknown "CLOUDINFO_LOG" := by decide
  have hload : load mixedVars mixedFile = .ok s := by decide +kernel
  obtain ⟨hvalid, document, hdocument, hlayered⟩ := (load_layered mixedVars mixedFile).1 honce s hload
  have hsame : SameFields none (some "port = 8000") := by
    have hport : (members? (some "port = 8000")).map (List.map Prod.fst) = some ["port"] := by decide +kernel
    obtain ⟨document, hdocument, hkeys⟩ := Option.map_eq_some_iff.1 hport
    exact sameFields_none hdocument (hkeys ▸ by decide)
  exact ⟨honce, hflat, (load_layered mixedVars mixedFile).2.1 hflat s document hdocument hlayered hvalid, hvalid,
    ⟨document, hdocument, hlayered⟩, hname,
    (load_layered mixedVars mixedFile).2.2.1 [] mixedVars _ _ rfl hname, hsame,
    (load_layered mixedVars fun _ ↦ none).2.2.2.1 _ fun _ _ ↦ hsame,
    (load_layered mixedVars fun _ ↦ none).2.2.2.2 _ fun _ _ ↦ ⟨rfl, rfl⟩⟩

end Settings

end CloudOffers
