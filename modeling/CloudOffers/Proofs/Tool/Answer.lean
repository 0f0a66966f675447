import CloudOffers.Proofs.Inventory
import CloudOffers.Proofs.Tool.Arguments
import CloudOffers.Proofs.Offer.Served
import CloudOffers.Tool.Rpc
/-!
Calls of tools hand on what the inventory answers. The text that a caller gets is JSON, whatever characters the
arguments and the cached texts hold, and the value of its one field is what the inventory answered; a refusal keeps
its text and has a code of its own.
-/

namespace CloudOffers

open Json Json.Document Json.LawfulDocument

namespace Region

instance : LawfulDocument Region where
  depth := 1
  canonical r := .obj [("id", canonical r.id), ("name", canonical r.name)]
  Proper _ := True
  ofJson?_canonical _ := rfl
  written _ := Aligned.written
    (.present (written trivial) (by decide) <| .present (written trivial) (by decide) .nil) (by decide)
  proper_of_fits _ _ := trivial

variable {d : Dict String String}

theorem pairwise_ofDict (d : Dict String String) : (ofDict d).Pairwise (fun r r' ↦ r.name < r'.name) :=
  List.pairwise_map.2 d.ascending

theorem mem_ofDict {r : Region} : r ∈ ofDict d ↔ d.get? r.name = some r.id := by
  rw [← Dict.mem_entries_iff, ofDict, List.mem_map]
  constructor
  · rintro ⟨e, he, rfl⟩
    exact he
  · exact fun h ↦ ⟨_, h, rfl⟩

end Region

namespace Category

instance : (c : Category) → Document c.Payload
  | .services => inferInstanceAs (Document (List Service))
  | .regions => inferInstanceAs (Document (Dict String String))
  | .zones | .versions => inferInstanceAs (Document (List String))
  | .attributes => inferInstanceAs (Document AttributeValues)
  | .products => inferInstanceAs (Document (List Product))
  | .prices => inferInstanceAs (Document Price)
  | .images => inferInstanceAs (Document (List Image))
  | .status => inferInstanceAs (Document String)

instance : (c : Category) → LawfulDocument c.Payload
  | .services => inferInstanceAs (LawfulDocument (List Service))
  | .regions => inferInstanceAs (LawfulDocument (Dict String String))
  | .zones | .versions => inferInstanceAs (LawfulDocument (List String))
  | .attributes => inferInstanceAs (LawfulDocument AttributeValues)
  | .products => inferInstanceAs (LawfulDocument (List Product))
  | .prices => inferInstanceAs (LawfulDocument Price)
  | .images => inferInstanceAs (LawfulDocument (List Image))
  | .status => inferInstanceAs (LawfulDocument String)

end Category

/-- All floats that are held are finite. -/
def Lookup.Finite (held : Lookup) : Prop :=
  ∀ (k : Key) (v : k.category.Payload), held k = some v → Proper v

section Details

variable {held : Lookup} {provider region : String} {p : Product}

theorem Inventory.proper_details (hheld : held.Finite) (hp : LawfulDocument.Proper p) :
    (details held provider region p).Proper := by
  rw [details]
  cases hprice : held (.price provider region p.instanceType) with
  | none => exact ProductDetails.proper_ofProduct hp
  | some price => exact ProductDetails.proper_withPrice (ProductDetails.proper_ofProduct hp) (hheld _ price hprice)

end Details

namespace Query

/-- What stands under the field of an answer. -/
def Value : Query → Type
  | .providers => List Provider
  | .provider _ => Provider
  | .attributes => List String
  | .attributeValues .. => List Binary64
  | .regions .. => List Region
  | .zones .. => List String
  | .products .. => List ProductDetails
  | .images .. => List Image
  | .versions .. => List String
  | .status _ => String
  | .metrics => String

instance : (q : Query) → Document q.Value
  | .providers => inferInstanceAs (Document (List Provider))
  | .provider _ => inferInstanceAs (Document Provider)
  | .attributes | .zones .. | .versions .. => inferInstanceAs (Document (List String))
  | .attributeValues .. => inferInstanceAs (Document (List Binary64))
  | .regions .. => inferInstanceAs (Document (List Region))
  | .products .. => inferInstanceAs (Document (List ProductDetails))
  | .images .. => inferInstanceAs (Document (List Image))
  | .status _ | .metrics => inferInstanceAs (Document String)

def field : Query → String
  | .providers => "providers"
  | .provider _ => "provider"
  | .attributes => "attributes"
  | .attributeValues .. => "attributeValues"
  | .regions .. => "regions"
  | .zones .. => "zones"
  | .products .. => "products"
  | .images .. => "images"
  | .versions .. => "versions"
  | .status _ => "status"
  | .metrics => "metrics"

/-- Puts a query to the inventory. -/
def ask (inv : Inventory) (held : Lookup) (metrics : Except Refusal String) : (q : Query) → Except Refusal q.Value
  | .providers => .ok (inv.providers held)
  | .provider p => inv.provider held p
  | .attributes => .ok Inventory.attributes
  | .attributeValues p s a => inv.attributeValues held p s a
  | .regions p s => (inv.regions held p s).map Region.ofDict
  | .zones p r => inv.zones held p r
  | .products p s r => inv.products held p s r
  | .images p s r => inv.images held p s r
  | .versions p s r => inv.versions held p s r
  | .status p => inv.status held p
  | .metrics => metrics

/-- Products come with the time of the last full refresh, if that is held. -/
def time? (held : Lookup) : Query → Option String
  | .products p _ _ => held (.status p)
  | _ => none

/-- The answer that is written of a value. -/
def object (held : Lookup) (q : Query) (v : q.Value) : Json :=
  .obj ((q.field, toJson v) :: (q.time? held).toList.map (fun time ↦ ("scrapingTime", .str time)))

/-- What is written of it, where the value is said by a tree. -/
def tree (held : Lookup) (q : Query) (t : Tree) : Tree :=
  .obj ((some q.field, t) :: (q.time? held).toList.map (fun time ↦ (some "scrapingTime", .str (some time))))

variable {inv : Inventory} {held : Lookup} {metrics : Except Refusal String} {q : Query}

theorem answer_products (inv : Inventory) (held : Lookup) (metrics : Except Refusal String) (p s r : String) :
    (products p s r).answer inv held metrics =
      ((products p s r).ask inv held metrics).map ((products p s r).object held) := by
  have hobject (found : List ProductDetails) : (products p s r).object held found =
      .obj (("products", toJson found) :: (held (.status p)).toList.map (fun time ↦ ("scrapingTime", .str time))) := rfl
  rw [answer, ask]
  cases hfound : inv.products held p s r with
  | error e => rfl
  | ok found =>
    have hp : p ∈ inv.names := by
      by_contra hp
      rw [Inventory.products, Inventory.ask_of_not_mem hp] at hfound
      cases hfound
    have hstatus : inv.status held p = _ := if_pos hp
    refine congrArg Except.ok ?_
    rw [hstatus, hobject]
    cases held (.status p) <;> rfl

theorem answer_eq (inv : Inventory) (held : Lookup) (metrics : Except Refusal String) (q : Query) :
    q.answer inv held metrics = (q.ask inv held metrics).map (q.object held) := by
  cases q with
  | providers | attributes => rfl
  | provider p => rw [answer, ask]; cases inv.provider held p <;> rfl
  | attributeValues p s a => rw [answer, ask]; cases inv.attributeValues held p s a <;> rfl
  | regions p s => rw [answer, ask]; cases inv.regions held p s <;> rfl
  | zones p r => rw [answer, ask]; cases inv.zones held p r <;> rfl
  | products p s r => exact answer_products inv held metrics p s r
  | images p s r => rw [answer, ask]; cases inv.images held p s r <;> rfl
  | versions p s r => rw [answer, ask]; cases inv.versions held p s r <;> rfl
  | status p => rw [answer, ask]; cases inv.status held p <;> rfl
  | metrics => rw [answer, ask]; cases metrics <;> rfl

theorem proper_attributeValues (hheld : held.Finite) {p s a : String} {v : List Binary64}
    (hv : inv.attributeValues held p s a = .ok v) : Proper v := by
  rw [Inventory.attributeValues] at hv
  split at hv
  · cases hv
  obtain ⟨values, hvalues, rfl⟩ := map_eq_ok_iff.1 hv
  intro x hx
  obtain ⟨value, hvalue, rfl⟩ := List.mem_map.1 hx
  exact hheld (.attributes p s a) values (Inventory.ask_eq_ok_iff.1 hvalues).2 value hvalue

theorem proper_products (hheld : held.Finite) {p s r : String} {v : List ProductDetails}
    (hv : inv.products held p s r = .ok v) : ∀ d ∈ v, d.Proper := by
  obtain ⟨products, hproducts, rfl⟩ := map_eq_ok_iff.1 (show (inv.ask held (.products p s r)).map _ = .ok v from hv)
  intro d hd
  obtain ⟨product, hproduct, rfl⟩ := List.mem_map.1 hd
  have hheldProducts := (Inventory.ask_eq_ok_iff.1 hproducts).2
  exact Inventory.proper_details hheld (hheld (.products p s r) products hheldProducts product hproduct)

theorem readable_products {l : List ProductDetails} (hl : ∀ d ∈ l, d.Proper) : Readable l :=
  ⟨4, _, .list fun d hd ↦ ProductDetails.written (hl d hd), mapM_map_eq_some ProductDetails.ofJson?_canonical l, by decide⟩

/-- Whatever is answered is read back. -/
theorem readable_ask (hheld : held.Finite) {v : q.Value} (hv : q.ask inv held metrics = .ok v) : Readable v := by
  cases q with
  | providers => exact readable (α := List Provider) (fun _ _ ↦ trivial) (by decide)
  | provider => exact readable (α := Provider) trivial (by decide)
  | attributeValues => exact readable (α := List Binary64) (proper_attributeValues hheld hv) (by decide)
  | regions => exact readable (α := List Region) (fun _ _ ↦ trivial) (by decide)
  | products => exact readable_products (proper_products hheld hv)
  | images => exact readable (α := List Image) (fun _ _ ↦ trivial) (by decide)
  | attributes | zones | versions => exact readable (α := List String) (fun _ _ ↦ trivial) (by decide)
  | status | metrics => exact readable (α := String) trivial (by decide)

/-- The text of an answer is JSON, an object of the field and nothing else but for the time. -/
theorem spells_object {v : q.Value} (hv : Readable v) :
    Spells (q.tree held (toJson v).tree) (bytes (q.object held v).pretty) := by
  have hwritten : ∀ n ∈ (q.object held v).numbers, n.Written := by
    refine forall_numbers_obj.2 (List.forall_mem_cons.2 ⟨hv.written, fun e he ↦ ?_⟩)
    obtain ⟨time, _, rfl⟩ := List.mem_map.1 he
    exact nofun
  have htree : (q.object held v).tree = q.tree held (toJson v).tree := by
    rw [object, tree]
    cases q.time? held <;> rfl
  exact htree ▸ spells_pretty hwritten

end Query

namespace Tool

theorem ofName?_name (t : Tool) : ofName? t.name = some t := by
  cases t <;> rfl

variable {t : Tool} {args : Option Json} {inv : Inventory} {held : Lookup} {metrics : Except Refusal String}

/-- The query that is read from the arguments. -/
def queryOf (t : Tool) (args : Option Json) : Query := t.query (argument (args.getD .null))

theorem call_eq (hargs : t.WellFormed args) : call inv held metrics t.name args =
    match (t.queryOf args).answer inv held metrics with
    | .ok v => .ok v.pretty
    | .error e => .error (.refused e) := by
  rw [call, readCall, ofName?_name]
  simp only [readQuery_eq hargs]
  rfl

end Tool

namespace Rpc

variable {inv : Inventory} {held : Lookup} {metrics : Except Refusal String} {q : Query} {name : String}
  {texts : List (String × String)}

/-- The tools by name, each with the texts that it needs and the query that they make. -/
inductive Asks : String → List (String × String) → Query → Prop
  | listProviders : Asks "list_providers" [] .providers
  | getProvider (p : String) : Asks "get_provider" [("provider", p)] (.provider p)
  | listAttributes : Asks "list_attributes" [] .attributes
  | getAttributeValues (p s a : String) :
      Asks "get_attribute_values" [("provider", p), ("service", s), ("attribute", a)] (.attributeValues p s a)
  | getRegions (p s : String) : Asks "get_regions" [("provider", p), ("service", s)] (.regions p s)
  | getZones (p r : String) : Asks "get_zones" [("provider", p), ("region", r)] (.zones p r)
  | getProducts (p s r : String) :
      Asks "get_products" [("provider", p), ("service", s), ("region", r)] (.products p s r)
  | getImages (p s r : String) :
      Asks "get_images" [("provider", p), ("service", s), ("region", r)] (.images p s r)
  | getVersions (p s r : String) :
      Asks "get_versions" [("provider", p), ("service", s), ("region", r)] (.versions p s r)
  | getStatus (p : String) : Asks "get_status" [("provider", p)] (.status p)
  | getMetrics : Asks "get_metrics" [] .metrics

/-- The parameters of a call: the name of a tool, and its arguments as an object, or none where it needs none.
There may be other arguments. -/
inductive Calls : Json → String → List (String × String) → Prop
  | bare (members : List (String × Json)) (name : String) : LastEntry members "name" (.str name) →
      (∀ e ∈ members, e.1 ≠ "arguments") → Calls (.obj members) name []
  | null (members : List (String × Json)) (name : String) : LastEntry members "name" (.str name) →
      LastEntry members "arguments" .null → Calls (.obj members) name []
  | object (members : List (String × Json)) (name : String) (args : List (String × Json))
      (texts : List (String × String)) : LastEntry members "name" (.str name) →
      LastEntry members "arguments" (.obj args) → (∀ e ∈ texts, LastEntry args e.1 (.str e.2)) →
      Calls (.obj members) name texts

theorem member?_of_lastEntry {members : List (String × Json)} {v : Json} (h : LastEntry members name v) :
    (Json.obj members).member? name = some v := by
  rw [member?_obj]
  exact lastEntry_iff.1 h

theorem Calls.wellFormed {t : Tool} {params : Json} (h : Calls params name texts)
    (ht : t.params.2.map (·.name) = texts.map (·.1)) :
    toolName params = name ∧ t.WellFormed (params.member? "arguments") ∧
      ∀ e ∈ texts, Tool.argument ((params.member? "arguments").getD .null) e.1 = e.2 := by
  have hname {members : List (String × Json)} (hmember : LastEntry members "name" (.str name)) :
      toolName (.obj members) = name := by rw [toolName, member?_of_lastEntry hmember]
  have hnone (hnil : t.params.2.map (·.name) = []) {p : Tool.Param} (hp : p ∈ t.params.2) : False := by
    rw [List.map_eq_nil_iff.1 hnil] at hp
    cases hp
  cases h with
  | bare members _ hmember hargs =>
    have hmissing : (Json.obj members).member? "arguments" = none := by
      have hnone : members.filter (·.1 = "arguments") = [] :=
        List.filter_eq_nil_iff.2 fun e he ↦ by simpa using hargs e he
      rw [Json.member?, hnone]
      rfl
    exact ⟨hname hmember, ⟨.inl hmissing, fun p hp ↦ (hnone ht hp).elim⟩, List.forall_mem_nil _⟩
  | null members _ hmember hargs =>
    exact ⟨hname hmember, ⟨.inr (.inl (member?_of_lastEntry hargs)), fun p hp ↦ (hnone ht hp).elim⟩, List.forall_mem_nil _⟩
  | object members _ args _ hmember hargs htexts =>
    rw [member?_of_lastEntry hargs]
    refine ⟨hname hmember, ⟨.inr (.inr ⟨args, rfl⟩), fun p hp ↦ ?_⟩, fun e he ↦ ?_⟩
    · obtain ⟨e, he, hkey⟩ := List.mem_map.1 (ht ▸ List.mem_map_of_mem (f := Tool.Param.name) hp)
      exact ⟨e.2, hkey ▸ member?_of_lastEntry (htexts e he)⟩
    · exact Tool.argument_eq (member?_of_lastEntry (htexts e he))

/-- A call is made to the tool of its name, which makes the query of the arguments. -/
theorem Asks.exists_tool {params : Json} (h : Asks name texts q) (hcalls : Calls params name texts) :
    ∃ t : Tool, toolName params = t.name ∧ t.WellFormed (params.member? "arguments") ∧
      t.queryOf (params.member? "arguments") = q := by
  obtain ⟨t, hname, hparams, hquery⟩ : ∃ t : Tool, t.name = name ∧ t.params.2.map (·.name) = texts.map (·.1) ∧
      ∀ arg : String → String, (∀ e ∈ texts, arg e.1 = e.2) → t.query arg = q := by
    cases h with
    | listProviders => exact ⟨.listProviders, rfl, rfl, fun arg h ↦ rfl⟩
    | getProvider p => exact ⟨.getProvider, rfl, rfl, fun arg h ↦ by simp_all [Tool.query]⟩
    | listAttributes => exact ⟨.listAttributes, rfl, rfl, fun arg h ↦ rfl⟩
    | getAttributeValues p s a => exact ⟨.getAttributeValues, rfl, rfl, fun arg h ↦ by simp_all [Tool.query]⟩
    | getRegions p s => exact ⟨.getRegions, rfl, rfl, fun arg h ↦ by simp_all [Tool.query]⟩
    | getZones p r => exact ⟨.getZones, rfl, rfl, fun arg h ↦ by simp_all [Tool.query]⟩
    | getProducts p s r => exact ⟨.getProducts, rfl, rfl, fun arg h ↦ by simp_all [Tool.query]⟩
    | getImages p s r => exact ⟨.getImages, rfl, rfl, fun arg h ↦ by simp_all [Tool.query]⟩
    | getVersions p s r => exact ⟨.getVersions, rfl, rfl, fun arg h ↦ by simp_all [Tool.query]⟩
    | getStatus p => exact ⟨.getStatus, rfl, rfl, fun arg h ↦ by simp_all [Tool.query]⟩
    | getMetrics => exact ⟨.getMetrics, rfl, rfl, fun arg h ↦ rfl⟩
  obtain ⟨htool, hargs, htexts⟩ := hcalls.wellFormed hparams
  exact ⟨t, htool.trans hname.symm, hargs, hquery _ htexts⟩

/-- How the reply to a call stands to the query, which is put to the inventory or to what renders the metrics. -/
structure Transports (inv : Inventory) (held : Lookup) (metrics : Except Refusal String) (q : Query)
    (reply : Except Json Json) : Prop where
  succeeds_iff : (∃ result, reply = .ok result) ↔ ∃ v, q.ask inv held metrics = .ok v
  answered : ∀ v, q.ask inv held metrics = .ok v → ∃ text,
    reply = .ok (.obj [("content", .arr [.obj [("type", .str "text"), ("text", .str text)]]), ("isError", .bool false)]) ∧
    Spells (q.tree held (toJson v).tree) (bytes text) ∧ Says (toJson v).tree v
  refused : ∀ e, q.ask inv held metrics = .error e → ∃ code,
    reply = .error (.obj [("code", .num (.negative code)), ("message", .str e.message)]) ∧
    match e with
    | .notCached k => code = 32001 ∧
      e.message = "NOT_CACHED: " ++ k.category.name ++ " not yet cached (" ++ k.text ++ ")"
    | .unsupportedProvider name => code = 32003 ∧ e.message = "UNSUPPORTED_PROVIDER: " ++ name
    | .invalidInput reason => code = 32602 ∧ e.message = "INVALID_INPUT: " ++ reason
    | .metrics reason => code = 32002 ∧ e.message = "METRICS_ERROR: " ++ reason

theorem callTool_eq {t : Tool} {params : Json} (hname : toolName params = t.name)
    (hargs : t.WellFormed (params.member? "arguments")) : callTool inv held metrics params =
    match (t.queryOf (params.member? "arguments")).answer inv held metrics with
    | .ok v => .ok (resultJson v.pretty)
    | .error e => .error (errorJson e.code e.message) := by
  rw [callTool, hname, Tool.call_eq hargs]
  cases (t.queryOf (params.member? "arguments")).answer inv held metrics <;> rfl

/-- A call with all its arguments succeeds if the query behind it is answered. Then the text says the answer and
nothing else, whatever characters there are in it; regions are listed by name, one for each entry of the map. -/
theorem callTool_transports {params : Json} (hasks : Asks name texts q) (hcalls : Calls params name texts)
    (hheld : held.Finite) :
    Transports inv held metrics q (callTool inv held metrics params) ∧
      ∀ d : Dict String String, (Region.ofDict d).Pairwise (fun r r' ↦ r.name < r'.name) ∧
        ∀ r, r ∈ Region.ofDict d ↔ d.get? r.name = some r.id := by
  refine ⟨?_, fun d ↦ ⟨Region.pairwise_ofDict d, fun r ↦ Region.mem_ofDict⟩⟩
  obtain ⟨t, hname, hargs, hquery⟩ := hasks.exists_tool hcalls
  rw [callTool_eq hname hargs, hquery, Query.answer_eq]
  cases hask : q.ask inv held metrics with
  | ok v =>
    have hv := Query.readable_ask hheld hask
    exact
      { succeeds_iff := ⟨fun _ ↦ ⟨v, hask⟩, fun _ ↦ ⟨_, rfl⟩⟩
        answered := fun w hw ↦ by
          obtain rfl : v = w := Except.ok.inj (hask.symm.trans hw)
          exact ⟨_, rfl, Query.spells_object hv, hv.says⟩
        refused := fun e he ↦ nomatch hask.symm.trans he }
  | error e =>
    exact
      { succeeds_iff := ⟨fun ⟨_, h⟩ ↦ (nomatch h), fun ⟨_, h⟩ ↦ (nomatch hask.symm.trans h)⟩
        answered := fun v hv ↦ nomatch hask.symm.trans hv
        refused := fun e' he ↦ by
          obtain rfl : e = e' := Except.error.inj (hask.symm.trans he)
          cases e <;> exact ⟨_, rfl, rfl, rfl⟩ }

/-- A product whose texts have quotes and line breaks. -/
def quotedProduct : Product :=
  ⟨"t\"1\n", ⟨0x3fd0000000000000⟩, Dict.empty, ⟨0x3ff0000000000000⟩, ⟨0x4000000000000000⟩, Binary64.zero, "", "", ["a"],
    Dict.ofList [("\\", "\"")], true⟩

def quotedPrice : Price := ⟨⟨0x3fe0000000000000⟩, Dict.ofList [("a", ⟨0x3fb999999999999a⟩)]⟩

def quotedHeld : Lookup
  | .products .. => some [quotedProduct]
  | .price .. => some quotedPrice
  | .status _ => some "1700000000000"
  | _ => none

def quotedParams : Json := .obj [("name", .str "get_products"), ("arguments",
  .obj [("region", .str "eu\n"), ("provider", .str "\"p\""), ("service", .str "compute")])]

/-- The product is served with the price that is held for it. -/
def quotedDetails : ProductDetails :=
  ⟨{ quotedProduct with onDemandPrice := ⟨0x3fe0000000000000⟩ }, true, [⟨"a", ⟨0x3fb999999999999a⟩⟩]⟩

theorem callTool_transports_quoted :
    Asks "get_products" [("provider", "\"p\""), ("service", "compute"), ("region", "eu\n")]
        (.products "\"p\"" "compute" "eu\n") ∧
      Calls quotedParams "get_products" [("provider", "\"p\""), ("service", "compute"), ("region", "eu\n")] ∧
      quotedHeld.Finite ∧ ∃ text, callTool ⟨["\"p\""]⟩ quotedHeld (.ok "") quotedParams =
        .ok (.obj [("content", .arr [.obj [("type", .str "text"), ("text", .str text)]]), ("isError", .bool false)]) ∧
      Spells (.obj [(some "products", (toJson [quotedDetails]).tree), (some "scrapingTime", .str (some "1700000000000"))])
        (bytes text) ∧ Says (toJson [quotedDetails]).tree [quotedDetails] := by
  have hasks : Asks "get_products" [("provider", "\"p\""), ("service", "compute"), ("region", "eu\n")]
      (.products "\"p\"" "compute" "eu\n") := .getProducts ..
  have hcalls : Calls quotedParams "get_products"
      [("provider", "\"p\""), ("service", "compute"), ("region", "eu\n")] := by
    refine .object _ _ _ _ ⟨[], _, rfl, by decide⟩ ⟨[_], [], rfl, List.forall_mem_nil _⟩ ?_
    simp only [List.forall_mem_cons]
    exact ⟨⟨[_], _, rfl, by decide⟩, ⟨[_, _], [], rfl, List.forall_mem_nil _⟩, ⟨[], _, rfl, by decide⟩,
      List.forall_mem_nil _⟩
  have hproduct : Proper quotedProduct := ⟨rfl, List.forall_mem_nil _, rfl, rfl, rfl⟩
  have hprice : Proper quotedPrice := ⟨rfl, List.forall_mem_singleton.2 rfl⟩
  have hfinite : quotedHeld.Finite := by
    intro k v h
    cases k with
    | products =>
      cases h
      exact List.forall_mem_singleton.2 hproduct
    | price =>
      cases h
      exact hprice
    | status => exact trivial
    | _ => cases h
  have h : Transports ⟨["\"p\""]⟩ quotedHeld (.ok "") _ _ := (callTool_transports hasks hcalls hfinite).1
  exact ⟨hasks, hcalls, hfinite, h.answered [quotedDetails] rfl⟩

end Rpc

end CloudOffers
