import CloudOffers.Catalog
import CloudOffers.Proofs.Json.RoundTrip
import CloudOffers.Proofs.Offer.Document
import CloudOffers.Settings.Basic
/-!
The formats of the data: whatever is written in one of them is read back. Texts may hold any characters, and maps
and lists may be of any size. What has been read once is read again from what is written of it.
-/

namespace CloudOffers

open Json Json.Document Json.LawfulDocument Relation

theorem Catalog.ofJson?_eq_some_iff {w : Json} {c : Catalog} : ofJson? w = some c ↔
    ∃ services regions products images versions shortLived,
      w = .obj [("services", services), ("regions", regions), ("products", products), ("images", images),
        ("versions", versions), ("shortLivedPrices", shortLived)] ∧
      ofJson? services = some c.services ∧ ofJson? regions = some c.regions ∧ ofJson? products = some c.products ∧
      ofJson? images = some c.images ∧ ofJson? versions = some c.versions ∧
      ofJson? shortLived = some c.shortLivedPrices := by
  constructor
  · intro h
    unfold ofJson? instDocumentCatalog at h
    dsimp only at h
    split at h
    · simp only [Option.bind_eq_bind, Option.bind_eq_some_iff, Option.some.injEq] at h
      obtain ⟨_, hservices, _, hregions, _, hproducts, _, himages, _, hversions, _, hshort, rfl⟩ := h
      exact ⟨_, _, _, _, _, _, rfl, hservices, hregions, hproducts, himages, hversions, hshort⟩
    · cases h
  · rintro ⟨_, _, _, _, _, _, rfl, hservices, hregions, hproducts, himages, hversions, hshort⟩
    refine Option.bind_eq_some_iff.2 ⟨_, hservices, Option.bind_eq_some_iff.2 ⟨_, hregions, ?_⟩⟩
    refine Option.bind_eq_some_iff.2 ⟨_, hproducts, Option.bind_eq_some_iff.2 ⟨_, himages, ?_⟩⟩
    exact Option.bind_eq_some_iff.2 ⟨_, hversions, Option.bind_eq_some_iff.2 ⟨_, hshort, rfl⟩⟩

theorem Catalog.sound : Sound [field "services" (List String), field "regions" (Dict String String),
    fieldWith "products" (Dict.empty : Dict String (List Product)),
    fieldWith "images" (Dict.empty : Dict String (List Image)),
    fieldWith "versions" (Dict.empty : Dict String (List String)), fieldWith "shortLivedPrices" false] where
  nodup := by decide
  defaults := by
    simp only [List.forall_mem_cons]
    exact ⟨defaultFits_field _ _, defaultFits_field _ _, defaultFits_fieldWith _ (fits_obj_nil _),
      defaultFits_fieldWith _ (fits_obj_nil _), defaultFits_fieldWith _ (fits_obj_nil _), defaultFits_fieldWith _ .bool,
      List.forall_mem_nil _⟩

instance : LawfulDocument Catalog where
  depth := 5
  canonical c := .obj [("services", canonical c.services), ("regions", canonical c.regions),
    ("products", canonical c.products), ("images", canonical c.images), ("versions", canonical c.versions),
    ("shortLivedPrices", canonical c.shortLivedPrices)]
  Proper c := Proper c.products
  ofJson?_canonical c := Catalog.ofJson?_eq_some_iff.2 ⟨_, _, _, _, _, _, rfl, ofJson?_canonical _, ofJson?_canonical _,
    ofJson?_canonical _, ofJson?_canonical _, ofJson?_canonical _, ofJson?_canonical _⟩
  written hc := by
    refine Aligned.written ?_ Catalog.sound.nodup
    exact .present (written fun _ _ ↦ trivial) (by decide) <| .present (written fun _ _ ↦ trivial) (by decide) <|
      .present (written hc) (by decide) <| .present (written fun _ _ _ _ ↦ trivial) (by decide) <|
      .present (written fun _ _ _ _ ↦ trivial) (by decide) <| .present (written trivial) (by decide) .nil
  proper_of_fits {w c} hw hc := by
    obtain ⟨_, _, _, _, _, _, rfl, _, _, hproducts, _⟩ := Catalog.ofJson?_eq_some_iff.1 hc
    cases hw with
    | record h =>
      simp only [List.forall_mem_cons] at h
      exact proper_of_fits (h.2.2.1.fits Catalog.sound rfl) hproducts

theorem Settings.ofJson?_eq_some_iff {w : Json} {s : Settings} : ofJson? w = some s ↔
    ∃ providers dir renewal long short shutdown,
      w = .obj [("providers", providers), ("catalog_dir", dir), ("renewal_interval_secs", renewal),
        ("cache_long_ttl_secs", long), ("cache_short_ttl_secs", short), ("shutdown_timeout_ms", shutdown)] ∧
      ofJson? providers = some s.providers ∧ ofJson? dir = some s.catalogDir ∧ ofJson? renewal = some s.renewalSecs ∧
      ofJson? long = some s.longTtlSecs ∧ ofJson? short = some s.shortTtlSecs ∧ ofJson? shutdown = some s.shutdownMs := by
  constructor
  · intro h
    unfold ofJson? instDocumentSettings at h
    dsimp only at h
    split at h
    · simp only [Option.bind_eq_bind, Option.bind_eq_some_iff, Option.some.injEq] at h
      obtain ⟨_, hproviders, _, hdir, _, hrenewal, _, hlong, _, hshort, _, hshutdown, rfl⟩ := h
      exact ⟨_, _, _, _, _, _, rfl, hproviders, hdir, hrenewal, hlong, hshort, hshutdown⟩
    · cases h
  · rintro ⟨_, _, _, _, _, _, rfl, hproviders, hdir, hrenewal, hlong, hshort, hshutdown⟩
    refine Option.bind_eq_some_iff.2 ⟨_, hproviders, Option.bind_eq_some_iff.2 ⟨_, hdir, ?_⟩⟩
    refine Option.bind_eq_some_iff.2 ⟨_, hrenewal, Option.bind_eq_some_iff.2 ⟨_, hlong, ?_⟩⟩
    exact Option.bind_eq_some_iff.2 ⟨_, hshort, Option.bind_eq_some_iff.2 ⟨_, hshutdown, rfl⟩⟩

theorem Settings.sound : Sound [fieldWith "providers" Settings.default.providers,
    Field.optional "catalog_dir" .path (toJson Settings.default.catalogDir),
    fieldWith "renewal_interval_secs" Settings.default.renewalSecs,
    fieldWith "cache_long_ttl_secs" Settings.default.longTtlSecs,
    fieldWith "cache_short_ttl_secs" Settings.default.shortTtlSecs,
    fieldWith "shutdown_timeout_ms" Settings.default.shutdownMs] where
  nodup := by decide
  defaults := by
    simp only [List.forall_mem_cons]
    exact ⟨defaultFits_fieldWith _ (.list nofun), fun _ h ↦ Option.some.inj h ▸ .path,
      defaultFits_fieldWith _ (.nat (by decide)), defaultFits_fieldWith _ (.nat (by decide)),
      defaultFits_fieldWith _ (.nat (by decide)), defaultFits_fieldWith _ (.nat (by decide)), nofun⟩

/-- A path is written as a text. -/
theorem written_path (s : String) : Written 0 .path (.str s) (.str s) := ⟨nofun, fun _ _ _ ↦ rfl⟩

instance : LawfulDocument Settings where
  depth := 2
  canonical s := .obj [("providers", canonical s.providers), ("catalog_dir", canonical s.catalogDir),
    ("renewal_interval_secs", canonical s.renewalSecs), ("cache_long_ttl_secs", canonical s.longTtlSecs),
    ("cache_short_ttl_secs", canonical s.shortTtlSecs), ("shutdown_timeout_ms", canonical s.shutdownMs)]
  Proper s := Proper s.renewalSecs ∧ Proper s.longTtlSecs ∧ Proper s.shortTtlSecs ∧ Proper s.shutdownMs
  ofJson?_canonical s := Settings.ofJson?_eq_some_iff.2 ⟨_, _, _, _, _, _, rfl, ofJson?_canonical _, ofJson?_canonical _,
    ofJson?_canonical _, ofJson?_canonical _, ofJson?_canonical _, ofJson?_canonical _⟩
  written {s} hs := by
    obtain ⟨hrenewal, hlong, hshort, hshutdown⟩ := hs
    refine Aligned.written ?_ Settings.sound.nodup
    exact .present (written fun _ _ ↦ trivial) (by decide) <| .present (written_path s.catalogDir) (by decide) <|
      .present (written hrenewal) (by decide) <| .present (written hlong) (by decide) <|
      .present (written hshort) (by decide) <| .present (written hshutdown) (by decide) .nil
  proper_of_fits {w s} hw hs := by
    obtain ⟨_, _, _, _, _, _, rfl, _, _, hrenewal, hlong, hshort, hshutdown⟩ := Settings.ofJson?_eq_some_iff.1 hs
    cases hw with
    | record h =>
      simp only [List.forall_mem_cons] at h
      obtain ⟨_, _, frenewal, flong, fshort, fshutdown, _⟩ := h
      exact ⟨proper_of_fits (frenewal.fits Settings.sound rfl) hrenewal,
        proper_of_fits (flong.fits Settings.sound rfl) hlong, proper_of_fits (fshort.fits Settings.sound rfl) hshort,
        proper_of_fits (fshutdown.fits Settings.sound rfl) hshutdown⟩

/-- The types of data that have a format of their own. -/
inductive Format where
  | price
  | product
  | service
  | provider
  | attributeValue
  | attributeValues
  | image
  | zonePrice
  | catalog
  | settings
deriving DecidableEq

namespace Format

def Value : Format → Type
  | .price => Price
  | .product => Product
  | .service => Service
  | .provider => Provider
  | .attributeValue => AttributeValue
  | .attributeValues => AttributeValues
  | .image => Image
  | .zonePrice => ZonePrice
  | .catalog => Catalog
  | .settings => Settings

instance : (f : Format) → Document f.Value
  | .price => inferInstanceAs (Document Price)
  | .product => inferInstanceAs (Document Product)
  | .service => inferInstanceAs (Document Service)
  | .provider => inferInstanceAs (Document Provider)
  | .attributeValue => inferInstanceAs (Document AttributeValue)
  | .attributeValues => inferInstanceAs (Document AttributeValues)
  | .image => inferInstanceAs (Document Image)
  | .zonePrice => inferInstanceAs (Document ZonePrice)
  | .catalog => inferInstanceAs (Document Catalog)
  | .settings => inferInstanceAs (Document Settings)

instance : (f : Format) → LawfulDocument f.Value
  | .price => inferInstanceAs (LawfulDocument Price)
  | .product => inferInstanceAs (LawfulDocument Product)
  | .service => inferInstanceAs (LawfulDocument Service)
  | .provider => inferInstanceAs (LawfulDocument Provider)
  | .attributeValue => inferInstanceAs (LawfulDocument AttributeValue)
  | .attributeValues => inferInstanceAs (LawfulDocument AttributeValues)
  | .image => inferInstanceAs (LawfulDocument Image)
  | .zonePrice => inferInstanceAs (LawfulDocument ZonePrice)
  | .catalog => inferInstanceAs (LawfulDocument Catalog)
  | .settings => inferInstanceAs (LawfulDocument Settings)

theorem depth_lt_nesting (f : Format) : depth f.Value < nesting := by
  cases f <;> decide

/-- A value is read back from its texts, compact or indented. The entries of its maps, and the members of its records,
may as well be written in another order. -/
structure ReadBack (f : Format) (v : f.Value) : Prop where
  compact : parse f.Value (bytes (toJson v).compact) = .ok v
  pretty : parse f.Value (bytes (toJson v).pretty) = .ok v
  edited : ∀ t, ReflTransGen (Edits Parts.read? nesting (shape f.Value)) (toJson v).tree t →
    ∀ bs, Spells t bs → parse f.Value bs = .ok v

/-- Every value whose floats are finite is read back, if each of its floats is parsed from its own text. A value that
was parsed from some text has only such floats. -/
theorem parse_toJson (f : Format) (v : f.Value)
    (hfloats : ∀ x, .float x ∈ (toJson v).numbers → parse Binary64 (bytes (toJson x).compact) = .ok x) :
    (Proper v → f.ReadBack v) ∧ ∀ bs, parse f.Value bs = .ok v → f.ReadBack v := by
  have hreads (hv : Proper v) : f.ReadBack v := by
    obtain ⟨hcompact, hpretty⟩ := (written hv).spells
    have hdepth := f.depth_lt_nesting
    exact
      { compact := parse_of_spells hv hdepth hfloats .refl hcompact
        pretty := parse_of_spells hv hdepth hfloats .refl hpretty
        edited := fun t ht bs hbs ↦ parse_of_spells hv hdepth hfloats ht hbs }
  exact ⟨hreads, fun _ hbs ↦ hreads (proper_of_parse hbs)⟩

/-- A price of a quarter, and of a tenth in a zone with a quote and a line break in its name. -/
def spotOffer : Price where
  onDemand := ⟨0x3fd0000000000000⟩
  spot := Dict.ofList [("eu-west-1\"a\"\n", ⟨0x3fb999999999999a⟩)]

theorem parse_toJson_spotOffer : Proper spotOffer ∧ Format.price.ReadBack spotOffer ∧
    parse Price (bytes (toJson spotOffer).compact) = .ok spotOffer := by
  have hproper : Proper spotOffer := ⟨rfl, List.forall_mem_singleton.2 rfl⟩
  have hnumbers : (toJson spotOffer).numbers = [.float ⟨0x3fd0000000000000⟩, .float ⟨0x3fb999999999999a⟩] := by
    decide +kernel
  have hfloats (x : Binary64) (hx : .float x ∈ (toJson spotOffer).numbers) :
      parse Binary64 (bytes (toJson x).compact) = .ok x := by
    simp only [hnumbers, List.mem_cons, Number.float.injEq, List.not_mem_nil, or_false] at hx
    rcases hx with rfl | rfl
    · exact toOption_eq_some_iff.1 (by decide +kernel)
    · exact toOption_eq_some_iff.1 (by decide +kernel)
  have hread := (parse_toJson .price spotOffer hfloats).1 hproper
  exact ⟨hproper, hread, hread.compact⟩

end Format

end CloudOffers
