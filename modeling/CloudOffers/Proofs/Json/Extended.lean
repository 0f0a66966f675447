import CloudOffers.Proofs.Json.Lawful
/-!
Records that have the fields of another record among their members. Those members are read as they come, and only
settled when the record ends.
-/

namespace CloudOffers.Json

section Any

variable {depth : Nat} {number : Parts → Option Number}

theorem Written.any_list {β : Type} {l : List β} {f : β → Json} (hl : ∀ b ∈ l, Written depth .any (f b) (f b)) :
    Written (depth + 1) .any (.arr (l.map f)) (.arr (l.map f)) where
  numbers := (Written.list hl).numbers
  decode hn room hroom := by
    have hitems := decodeItems_written hl (forall_numbers_arr.1 hn) (show depth < room - 1 by omega)
    rw [tree, decode_arr, if_neg (by omega), hitems]
    rfl

theorem Written.any_map {α : Type} {f : α → Json} (d : Dict String α)
    (hd : ∀ e ∈ d.entries, Written depth .any (f e.2) (f e.2)) :
    Written (depth + 1) .any (Document.ofDict f d) (Document.ofDict f d) where
  numbers := (Written.map d hd).numbers
  decode {number} hn room hroom := by
    have hmembers := decodeMembers_others (fun _ _ ↦ rfl) hd (forall_numbers_obj.1 hn) (show depth < room - 1 by omega)
      (show decodeMembers number (room - 1) .any [] = some ⟨[], []⟩ from rfl)
    rw [List.append_nil] at hmembers
    exact decode_obj_eq_some_iff.2 ⟨by omega, rfl, _, hmembers, rfl⟩

theorem written_any_text (s : String) : Written 0 .any (.str s) (.str s) := ⟨nofun, fun _ _ _ ↦ rfl⟩

theorem written_any_bool (b : Bool) : Written 0 .any (.bool b) (.bool b) := ⟨nofun, fun _ _ _ ↦ rfl⟩

theorem written_any_number {n : Number} (hn : n.Proper) : Written 0 .any (.num n) (.num n) :=
  ⟨List.forall_mem_singleton.2 hn, fun hread room _ ↦ decode_number (hread n List.mem_cons_self) room .any⟩

theorem Written.weaken {shape : Shape} {v w : Json} {d : Nat} (h : Written d shape v w) (hd : d ≤ depth) :
    Written depth shape v w :=
  ⟨h.numbers, fun hn _ hroom ↦ h.decode hn (Nat.lt_of_le_of_lt hd hroom)⟩

end Any

section Settle

theorem settleItems_texts (l : List String) : Shape.text.settleItems (l.map .str) = .ok (l.map .str) := by
  induction l with
  | nil => rw [List.map_nil, Shape.settleItems]
  | cons s l ih =>
    rw [List.map_cons, Shape.settleItems, ih]
    rfl

theorem settleMembers_texts (l : List (String × String)) :
    Shape.text.settleMembers (l.map (fun e ↦ (e.1, .str e.2))) = .ok (l.map (fun e ↦ (e.1, .str e.2))) := by
  induction l with
  | nil => rw [List.map_nil, Shape.settleMembers]
  | cons e l ih =>
    rw [List.map_cons, Shape.settleMembers, ih]
    rfl

theorem settle_texts (l : List String) : (Shape.list .text).settle (.arr (l.map .str)) = .ok (.arr (l.map .str)) := by
  rw [Shape.settle, settleItems_texts]
  rfl

theorem settle_textMap (d : Dict String String) :
    (Shape.map .text).settle (Document.ofDict .str d) = .ok (Document.ofDict .str d) := by
  have hsame : Dict.ofList (d.map (fun _ s ↦ Json.str s)).entries = d.map (fun _ s ↦ Json.str s) := Dict.ofList_entries _
  rw [Document.ofDict, Shape.settle, settleMembers_texts]
  exact congrArg (fun d ↦ Except.ok (Json.ofDict d)) hsame

end Settle

section Records

variable {fields : List Field} {members values : List (String × Json)}

/-- The members that are settled as the fields of a record, in their order, and what they are settled to. -/
inductive Settles : List Field → List (String × Json) → List (String × Json) → Prop
  | nil : Settles [] [] []
  | present {k : String} {item : Shape} {absent : Option Json} {v w : Json} {fields : List Field}
      {members values : List (String × Json)} (hv : item.settle v = .ok w) (h : Settles fields members values) :
      Settles ((k, item, absent) :: fields) ((k, v) :: members) ((k, w) :: values)
  | omitted {k : String} {item : Shape} {w : Json} {fields : List Field} {members values : List (String × Json)}
      (h : Settles fields members values) : Settles ((k, item, some w) :: fields) members ((k, w) :: values)

theorem Settles.settleFields (h : Settles fields members values) {all : List Field}
    (hall : ∀ f ∈ fields, all.find? (fun g ↦ g.1 = f.1) = some f) (hd : (fields.map (·.1)).Nodup)
    (done : List (String × Json)) (hdone : ∀ e ∈ done, e.1 ∉ fields.map (·.1)) :
    ∃ read, Json.settleFields all done members = .ok (done ++ read) ∧ (∀ e ∈ read, e.1 ∈ fields.map (·.1)) ∧
      ∀ before : List (String × Json), (∀ e ∈ before, e.1 ∉ fields.map (·.1)) →
        (assemble (before ++ read) fields).toOption = some values := by
  induction h generalizing done with
  | nil =>
    refine ⟨[], ?_, nofun, fun _ _ ↦ rfl⟩
    rw [Json.settleFields, List.append_nil]
  | @present k item absent v w left members values hv _ ih =>
    obtain ⟨hfind, hleft⟩ := List.forall_mem_cons.1 hall
    obtain ⟨hk, hd⟩ := List.nodup_cons.1 hd
    have hmissing : lookup k done = none := lookup_eq_none_iff.2 fun e he heq ↦ hdone e he (heq ▸ List.mem_cons_self)
    obtain ⟨read, hread, hnames, hassemble⟩ := ih hleft hd (done ++ [(k, w)]) <| List.forall_mem_append.2
      ⟨fun e he hmem ↦ hdone e he (List.mem_cons_of_mem _ hmem), List.forall_mem_singleton.2 hk⟩
    refine ⟨(k, w) :: read, ?_, ?_, fun before hbefore ↦ assemble_front hk hbefore hassemble⟩
    · rw [Json.settleFields]
      simp only [hfind, hmissing, hv]
      rw [← List.singleton_append, ← List.append_assoc]
      exact hread
    · exact List.forall_mem_cons.2 ⟨List.mem_cons_self, fun e he ↦ List.mem_cons_of_mem _ (hnames e he)⟩
  | @omitted k item w left members values _ ih =>
    obtain ⟨_, hleft⟩ := List.forall_mem_cons.1 hall
    obtain ⟨hk, hd⟩ := List.nodup_cons.1 hd
    obtain ⟨read, hread, hnames, hassemble⟩ :=
      ih hleft hd done fun e he hmem ↦ hdone e he (List.mem_cons_of_mem _ hmem)
    exact ⟨read, hread, fun e he ↦ List.mem_cons_of_mem _ (hnames e he),
      fun before hbefore ↦ assemble_absent hk hnames hbefore hassemble⟩

theorem treeMembers_append (l r : List (String × Json)) : treeMembers (l ++ r) = treeMembers l ++ treeMembers r := by
  induction l with
  | nil => rfl
  | cons e l ih => rw [List.cons_append, treeMembers, treeMembers, ih, List.cons_append]

theorem Aligned.written_extended {depth : Nat} {name : String} {own : List Field}
    {ownMembers ownValues : List (String × Json)}
    (hown : Aligned depth own ownMembers ownValues) (hd : (own.map (·.1)).Nodup) (hs : Settles fields members values)
    (hfields : (fields.map (·.1)).Nodup) (hmembers : ∀ e ∈ members, Written depth .any e.2 e.2)
    (hapart : ∀ k ∈ members.map (·.1), k ∉ own.map (·.1)) :
    Written (depth + 1) (.extended name own fields) (.obj (members ++ ownMembers)) (.obj (values ++ ownValues)) where
  numbers := forall_numbers_obj.2 (List.forall_mem_append.2 ⟨fun e he ↦ (hmembers e he).numbers, hown.numbers⟩)
  decode {number} hn room hroom := by
    obtain ⟨hnmembers, hnown⟩ := List.forall_mem_append.1 (forall_numbers_obj.1 hn)
    have hpurpose : ∀ f ∈ own, (Shape.extended name own fields).purpose f.1 = .field f.2.1 := fun f hf ↦ by
      rw [Shape.purpose, (IsField.of_nodup hd (show (f.1, f.2.1, f.2.2) ∈ own from hf)).find?_eq]
    have hothers : ∀ e ∈ members, (Shape.extended name own fields).purpose e.1 = .other .any := fun e he ↦ by
      have hnone : own.find? (fun f ↦ f.1 = e.1) = none := List.find?_eq_none.2 fun f hf hname ↦
        hapart e.1 (List.mem_map_of_mem he) (List.mem_map.2 ⟨f, hf, by simpa using hname⟩)
      rw [Shape.purpose, hnone]
    obtain ⟨read, hread, _, hassemble⟩ := hown.decodeMembers (show depth < room - 1 by omega) hnown hpurpose hd
    obtain ⟨settled, hsettled, _, hinner⟩ := hs.settleFields
      (fun f hf ↦ (IsField.of_nodup hfields (show (f.1, f.2.1, f.2.2) ∈ fields from hf)).find?_eq) hfields
      [] (List.forall_mem_nil _)
    have hsame : members.map (fun e ↦ (e.1, e.2)) = members := List.map_id' members
    have hall := decodeMembers_others (f := fun v ↦ v) (g := fun v ↦ v) hothers hmembers (hsame.symm ▸ hnmembers)
      (show depth < room - 1 by omega) hread
    rw [hsame, ← treeMembers_append] at hall
    refine decode_obj_eq_some_iff.2 ⟨by omega, rfl, _, hall, ?_⟩
    have hassembled := toOption_eq_some_iff.1 (hassemble [] (List.forall_mem_nil _))
    have hinnerAssembled := toOption_eq_some_iff.1 (hinner [] (List.forall_mem_nil _))
    rw [List.nil_append] at hassembled hinnerAssembled hsettled
    rw [Shape.ofMembers, hassembled, hsettled]
    change (assemble settled fields >>= fun rest ↦ Except.ok (Json.obj (rest ++ ownValues))).toOption = _
    rw [hinnerAssembled]
    rfl

end Records

end CloudOffers.Json
