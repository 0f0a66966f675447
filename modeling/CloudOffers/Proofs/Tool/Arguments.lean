import CloudOffers.Proofs.Json.Extended
import CloudOffers.Tool.Call
/-!
Arguments of a call. Where each parameter of the tool is there as a text, the call is read as the query with these
texts; other members do not matter, and of members of one name the last counts.
-/

namespace CloudOffers.Json

theorem member?_obj (name : String) (members : List (String × Json)) :
    (obj members).member? name = (members.reverse.find? (fun e ↦ e.1 = name)).map (·.2) := by
  rw [member?, ← List.head?_filter, List.filter_reverse, List.head?_reverse]

/-- Members whose values depend on their names alone. -/
theorem member?_map {l : List String} {name : String} (value : String → Json) (h : name ∈ l) :
    (obj (l.map (fun k ↦ (k, value k)))).member? name = some (value name) := by
  rw [member?_obj, ← Dict.get?_ofList, Dict.get?_ofList_map, if_pos h]

theorem lookup_of_mem {k : String} {v : Json} {members : List (String × Json)} (hd : (members.map (·.1)).Nodup)
    (h : (k, v) ∈ members) : lookup k members = some v := by
  induction members with
  | nil => cases h
  | cons e members ih =>
    rw [List.map_cons, List.nodup_cons] at hd
    rw [lookup]
    rcases List.mem_cons.1 h with rfl | h
    · exact if_pos rfl
    · have hne : k ≠ e.1 := fun heq ↦ hd.1 (heq ▸ List.mem_map_of_mem h)
      rw [if_neg hne, ih hd.2 h]

theorem assemble_eq {members : List (String × Json)} {fields : List Field} (value : String → Json)
    (h : ∀ f ∈ fields, lookup f.1 members = some (value f.1)) :
    assemble members fields = .ok (fields.map (fun f ↦ (f.1, value f.1))) := by
  refine toOption_eq_some_iff.1 ?_
  induction fields with
  | nil => rfl
  | cons f fields ih =>
    obtain ⟨name, shape, absent⟩ := f
    obtain ⟨hhead, htail⟩ := List.forall_mem_cons.1 h
    rw [assemble_cons, hhead, ih htail]
    rfl

/-- Whether a member is a field. -/
def isField (fields : List Field) (e : String × Json) : Bool := (fields.find? (fun f ↦ f.1 = e.1)).isSome

/-- Fields that are texts are kept as they are, and other members are passed over. -/
theorem settleFields_texts {fields : List Field} (hfields : ∀ f ∈ fields, f.2.1 = .text) :
    ∀ (members done : List (String × Json)), (members.map (·.1)).Nodup → (∀ e ∈ done, e.1 ∉ members.map (·.1)) →
      (∀ e ∈ members, isField fields e = true → ∃ s, e.2 = .str s) →
      settleFields fields done members = .ok (done ++ members.filter (isField fields))
  | [], done, _, _, _ => by rw [settleFields, List.filter_nil, List.append_nil]
  | (name, v) :: members, done, hd, hdone, htexts => by
    rw [List.map_cons, List.nodup_cons] at hd
    rw [List.forall_mem_cons] at htexts
    obtain ⟨hname, hd⟩ := hd
    obtain ⟨htext, htexts⟩ := htexts
    have hrest : ∀ e ∈ done, e.1 ∉ members.map (·.1) := fun e he hmem ↦ hdone e he (List.mem_cons_of_mem _ hmem)
    rw [settleFields]
    cases hfind : fields.find? (fun f ↦ f.1 = name) with
    | none =>
      have hother : isField fields (name, v) = false := by rw [isField, hfind]; rfl
      rw [List.filter_cons_of_neg (by rw [hother]; exact Bool.false_ne_true)]
      exact settleFields_texts hfields members done hd hrest htexts
    | some f =>
      obtain ⟨k, shape, absent⟩ := f
      obtain rfl : shape = .text := hfields _ (List.mem_of_find?_eq_some hfind)
      have hfield : isField fields (name, v) = true := by rw [isField, hfind]; rfl
      obtain ⟨s, rfl⟩ := htext hfield
      have hmissing : lookup name done = none := lookup_eq_none_iff.2 fun e he heq ↦ hdone e he (heq ▸ List.mem_cons_self)
      have hsettle : Shape.text.settle (.str s) = .ok (.str s) := by
        rw [Shape.settle]
        · rfl
        all_goals exact nofun
      simp only [hmissing, hsettle]
      rw [List.filter_cons_of_pos hfield, ← List.singleton_append, ← List.append_assoc]
      have hrest' := List.forall_mem_append.2 ⟨hrest, List.forall_mem_singleton.2 hname⟩
      exact settleFields_texts hfields members _ hd hrest' htexts

/-- Required fields that are texts. -/
def textFields (names : List String) : List Field := names.map (fun k ↦ .required k .text)

theorem isField_textFields {names : List String} {e : String × Json} :
    isField (textFields names) e = true ↔ e.1 ∈ names := by
  simp [isField, textFields, List.find?_isSome, Field.required]

/-- A record of texts is settled to those that a map has under the names of its fields. -/
theorem settle_record_texts {name : String} {names : List String} {value : String → String} {d : Dict String Json}
    (h : ∀ k ∈ names, (k, .str (value k)) ∈ d.entries) :
    (Shape.record name (textFields names)).settle (ofDict d) =
      .ok (.obj (names.map (fun k ↦ (k, .str (value k))))) := by
  have htext : ∀ f ∈ textFields names, f.2.1 = .text := fun f hf ↦ by
    obtain ⟨k, _, rfl⟩ := List.mem_map.1 hf
    rfl
  have hentries : ∀ e ∈ d.entries, isField (textFields names) e = true → ∃ s, e.2 = .str s := fun e he hmem ↦ by
    have hentry := Dict.mem_entries_iff.1 (h e.1 (isField_textFields.1 hmem))
    rw [Dict.mem_entries_iff.1 (show (e.1, e.2) ∈ d.entries from he)] at hentry
    exact ⟨_, Option.some.inj hentry⟩
  have hkept : ∀ f ∈ textFields names,
      lookup f.1 (d.entries.filter (isField (textFields names))) = some (.str (value f.1)) := fun f hf ↦ by
    obtain ⟨k, hk, rfl⟩ := List.mem_map.1 hf
    refine lookup_of_mem (d.nodup_keys.sublist (List.filter_sublist.map _)) ?_
    exact List.mem_filter.2 ⟨h k hk, isField_textFields.2 hk⟩
  have hassembled := assemble_eq (fun k ↦ .str (value k)) hkept
  rw [ofDict, Shape.settle, settleFields_texts htext _ [] d.nodup_keys nofun hentries, List.nil_append]
  change (assemble _ _ >>= fun members ↦ Except.ok (Json.obj members)) = _
  rw [hassembled, textFields, List.map_map]
  rfl

end CloudOffers.Json

namespace CloudOffers.Tool

open Json

/-- The arguments are an object or left out, and each parameter of the tool is there as a text. -/
structure WellFormed (t : Tool) (args : Option Json) : Prop where
  object : args = none ∨ args = some .null ∨ ∃ members, args = some (.obj members)
  texts : ∀ p ∈ t.params.2, ∃ s, (args.getD .null).member? p.name = some (.str s)

theorem query_congr {t : Tool} {arg arg' : String → String} (h : ∀ p ∈ t.params.2, arg p.name = arg' p.name) :
    t.query arg = t.query arg' := by
  cases t <;> simp only [params, regionParam, List.forall_mem_cons] at h <;> simp only [query, h]

theorem argument_eq {args : Json} {name s : String} (h : args.member? name = some (.str s)) : argument args name = s := by
  rw [argument, h]

theorem settle_arguments {t : Tool} {members : List (String × Json)}
    (h : ∀ p ∈ t.params.2, ∃ s, (Json.obj members).member? p.name = some (.str s)) :
    t.shape.settle (ascendingMembers (.obj members)) =
      .ok (.obj ((t.params.2.map (·.name)).map (fun k ↦ (k, .str (argument (.obj members) k))))) := by
  have hshape : t.shape = .record t.params.1 (textFields (t.params.2.map (·.name))) := by
    rw [shape, textFields, List.map_map]
    rfl
  rw [hshape]
  refine settle_record_texts fun k hk ↦ ?_
  obtain ⟨p, hp, rfl⟩ := List.mem_map.1 hk
  obtain ⟨s, hs⟩ := h p hp
  rw [argument_eq hs, Dict.mem_entries_iff, Dict.get?_ofList, ← member?_obj, hs]

/-- A call with such arguments is the query of the tool with them. -/
theorem readQuery_eq {t : Tool} {args : Option Json} (h : t.WellFormed args) :
    t.readQuery args = .ok (t.query (argument (args.getD .null))) := by
  have hread (members : List (String × Json))
      (htexts : ∀ p ∈ t.params.2, ∃ s, (Json.obj members).member? p.name = some (.str s)) :
      (t.shape.settle (ascendingMembers (.obj members)) >>= fun settled ↦ .ok (t.query (argument settled))) =
        (.ok (t.query (argument (.obj members))) : Except Json.Error Query) := by
    rw [settle_arguments htexts]
    refine congrArg Except.ok (query_congr fun p hp ↦ argument_eq ?_)
    exact member?_map (fun k ↦ .str (argument (.obj members) k)) (List.mem_map_of_mem hp)
  obtain ⟨hobject, htexts⟩ := h
  rcases hobject with rfl | rfl | ⟨members, rfl⟩
  · exact hread [] htexts
  · exact hread [] htexts
  · exact hread members htexts

end CloudOffers.Tool
