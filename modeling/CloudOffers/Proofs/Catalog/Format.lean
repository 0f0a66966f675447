import CloudOffers.Catalog
import CloudOffers.Proofs.Json.Edit
import CloudOffers.Proofs.Json.RoundTrip
/-!
The format of catalogs: only the content of a text counts. Where its records are written as objects, their
members may stand in any order, those that may be left out and hold what stands for them then may go, and
others that the format does not know may come. Nothing can be left out that has nothing to stand for it.
-/

namespace CloudOffers.Catalog

open Json Json.Document Relation

theorem ofBytes_eq_ok_iff {bs : Bytes} {c : Catalog} : ofBytes bs = .ok c ↔ parse Catalog bs = .ok c := by
  rw [ofBytes]
  cases parse Catalog bs with
  | ok c' => exact Iff.intro (fun h ↦ congrArg _ (Except.ok.inj h)) fun h ↦ congrArg _ (Except.ok.inj h)
  | error e => exact Iff.intro nofun nofun

/-- The members of an image; what stands for one that may be left out comes with it. -/
def imageFormat : Shape :=
  .record "Image"
    [("name", .text, none), ("version", .text, some (.str "")), ("gpuAvailable", .bool, some (.bool false))]

/-- The members of a product. -/
def productFields : List Field :=
  [("type", .text, none), ("onDemandPrice", .float, some (.num (.float ⟨0⟩))),
    ("spotPrice", .map .float, some (.obj [])), ("cpusPerVm", .float, none), ("memPerVm", .float, none),
    ("gpusPerVm", .float, some (.num (.float ⟨0⟩))), ("ntwPerf", .text, some (.str "")),
    ("ntwPerfCategory", .text, some (.str "")), ("zones", .list .text, some (.arr [])),
    ("attributes", .map .text, some (.obj [])), ("currentGen", .bool, some (.bool false))]

def productFormat : Shape := .record "VmInfo" productFields

/-- The members of a catalog. -/
def fields : List Field :=
  [("services", .list .text, none), ("regions", .map .text, none),
    ("products", .map (.list productFormat), some (.obj [])), ("images", .map (.list imageFormat), some (.obj [])),
    ("versions", .map (.list .text), some (.obj [])), ("shortLivedPrices", .bool, some (.bool false))]

def format : Shape := .record "Catalog" fields

theorem shape_eq_format : shape Catalog = format := rfl

theorem ofBytes_of_decode {bs : Bytes} {c : Catalog} {t : Tree} {v : Json} (ht : Spells t bs)
    (hv : decode Parts.read? 128 format t = some v) (hc : ofJson? v = some c) : ofBytes bs = .ok c :=
  ofBytes_eq_ok_iff.2 (parse_eq_ok_iff.2 ⟨t, v, ht, hv, hc⟩)

theorem ofBytes_of_decode_none {bs : Bytes} {t : Tree} (ht : Spells t bs)
    (hv : decode Parts.read? 128 format t = none) : ∃ e, ofBytes bs = .error e := by
  have hparse := parse_eq Catalog ht
  rw [shape_eq_format, show nesting = 128 from rfl, hv, Option.bind_none] at hparse
  cases hbytes : ofBytes bs with
  | error e => exact ⟨e, rfl⟩
  | ok c =>
    rw [ofBytes_eq_ok_iff.1 hbytes] at hparse
    cases hparse

/-- A catalog is read from every text of its tree, edited in any way; and from none that lost a member, before
or after. -/
theorem ofBytes_edited {bs : Bytes} {c : Catalog} (h : ofBytes bs = .ok c) :
    (∃ t, Spells t bs) ∧ ∀ t, Spells t bs → ∀ t', ReflTransGen (Edits Parts.read? 128 format) t t' →
      (∀ bs', Spells t' bs' → ofBytes bs' = .ok c) ∧
      ∀ t'' bs'', Loses format t' t'' → Spells t'' bs'' → ∃ e, ofBytes bs'' = .error e := by
  obtain ⟨t, v, ht, hv, hc⟩ := parse_eq_ok_iff.1 (ofBytes_eq_ok_iff.1 h)
  refine ⟨⟨t, ht⟩, fun s hs t' hedits ↦ ?_⟩
  obtain rfl := ht.unique hs
  have hv' := decode_edited hedits hv
  refine ⟨fun _ ht' ↦ ofBytes_of_decode ht' hv' hc, fun _ _ hloses ht'' ↦ ?_⟩
  exact ofBytes_of_decode_none ht'' (hloses.decode hv')

/-- A catalog of one product, in the one region of the one service. -/
def ireland : Catalog :=
  { services := ["compute"], regions := Dict.ofList [("Ireland", "eu-west-1")],
    products := Dict.ofList [("eu-west-1", [
      { instanceType := "m5", onDemandPrice := .zero, spotPrices := Dict.empty, cpus := .ofRatio false 2 1,
        memory := .ofRatio false 8 1, gpus := .zero, network := "", networkCategory := "", zones := [],
        attributes := Dict.empty, currentGeneration := false }])],
    images := Dict.empty, versions := Dict.empty, shortLivedPrices := false }

namespace Ireland

def services : String × Json := ("services", .arr [.str "compute"])

def regions : String × Json := ("regions", .obj [("Ireland", .str "eu-west-1")])

def type : String × Json := ("type", .str "m5")

def cpus : String × Json := ("cpusPerVm", .num (.nat 2))

def memory : String × Json := ("memPerVm", .num (.nat 8))

def currentGen : String × Json := ("currentGen", .bool false)

def note : String × Json := ("note", .null)

def products (product : List (String × Json)) : String × Json :=
  ("products", .obj [("eu-west-1", .arr [.obj product])])

/-- Some of what may be left out is written. -/
def full : Json :=
  .obj [services, regions, products [type, cpus, memory, currentGen], ("images", .obj [])]

/-- Nothing of it is, and the order is another. -/
def brief : Json := .obj [note, products [memory, type, cpus], services, regions]

/-- The memory of the product is missing. -/
def short : Json := .obj [note, products [type, cpus], services, regions]

theorem written {v : Json} (h : v.numbers ⊆ [.nat 2, .nat 8]) : ∀ n ∈ v.numbers, n.Written := by
  intro n hn
  have hproper : n.Proper := by
    rcases List.mem_cons.1 (h hn) with rfl | hn
    · show 2 < 2 ^ 64
      decide
    · obtain rfl := List.mem_singleton.1 hn
      show 8 < 2 ^ 64
      decide
  exact hproper.written

theorem isField_products : IsField fields "products" (.map (.list productFormat)) (some (.obj [])) :=
  IsField.of_nodup (by decide) (by simp [fields])

theorem isField_images : IsField fields "images" (.map (.list imageFormat)) (some (.obj [])) :=
  IsField.of_nodup (by decide) (by simp [fields])

theorem isField_currentGen : IsField productFields "currentGen" .bool (some (.bool false)) :=
  IsField.of_nodup (by decide) (by simp [productFields])

theorem isField_memPerVm : IsField productFields "memPerVm" .float none :=
  IsField.of_nodup (by decide) (by simp [productFields])

theorem edits_product : ReflTransGen (Edits Parts.read? 125 productFormat)
    (Json.obj [type, cpus, memory, currentGen]).tree (Json.obj [memory, type, cpus]).tree := by
  have hdrop : Edits Parts.read? 125 productFormat (Json.obj [type, cpus, memory, currentGen]).tree
      (Json.obj [type, cpus, memory]).tree :=
    .drop (l := treeMembers [type, cpus, memory]) (r := []) isField_currentGen rfl
  have hperm : (treeMembers [type, cpus] ++ treeMembers [memory]).Perm (treeMembers [memory, type, cpus]) :=
    List.perm_append_comm
  exact .tail (.single hdrop) (.permuteRecord hperm)

/-- The catalog around a product. -/
def around (product : Tree) : Tree :=
  .obj (treeMembers [services, regions] ++ [(some "products", .obj [(some "eu-west-1", .arr [product])])])

theorem edits_full_brief : ReflTransGen (Edits Parts.read? 128 format) full.tree brief.tree := by
  have hdrop : Edits Parts.read? 128 format full.tree (around (Json.obj [type, cpus, memory, currentGen]).tree) :=
    .drop (l := treeMembers [services, regions, products [type, cpus, memory, currentGen]]) (r := []) isField_images rfl
  have hproduct : ReflTransGen (Edits Parts.read? 128 format)
      (around (Json.obj [type, cpus, memory, currentGen]).tree) (around (Json.obj [memory, type, cpus]).tree) :=
    edits_product.lift around fun _ _ h ↦
      .member isField_products (.entry (l := []) (r := []) (.item (l := []) (r := []) h))
  have hperm : (treeMembers [services, regions] ++ treeMembers [products [memory, type, cpus]]).Perm
      (treeMembers [products [memory, type, cpus], services, regions]) :=
    List.perm_append_comm
  have hinsert : Edits Parts.read? 128 format
      (Json.obj [products [memory, type, cpus], services, regions]).tree brief.tree :=
    .insert (l := []) (by decide)
  exact .tail (.tail (.head hdrop hproduct) (.permuteRecord hperm)) hinsert

theorem loses_brief_short : Loses format brief.tree short.tree :=
  .member (l := treeMembers [note]) (r := treeMembers [services, regions]) isField_products
    (.entry (l := []) (r := []) (.item (l := []) (r := [])
      (.required (l := []) (r := treeMembers [type, cpus]) isField_memPerVm)))

end Ireland

open Ireland

/-- Whether the text is full or brief, it is the same catalog; without the memory it is none. -/
theorem ofBytes_edited_ireland :
    ofBytes (bytes full.compact) = .ok ireland ∧ ofBytes (bytes brief.compact) = .ok ireland ∧
      ∃ e, ofBytes (bytes short.compact) = .error e := by
  have h : ofBytes (bytes full.compact) = .ok ireland := toOption_eq_some_iff.1 (by decide +kernel)
  obtain ⟨-, hedited⟩ := ofBytes_edited h
  obtain ⟨hread, hrefused⟩ := hedited full.tree (spells_compact (written (by decide))) brief.tree edits_full_brief
  exact ⟨h, hread _ (spells_compact (written (by decide))),
    hrefused short.tree _ loses_brief_short (spells_compact (written (by decide)))⟩

end CloudOffers.Catalog
