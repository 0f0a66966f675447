import CloudOffers.Proofs.Json.Extended
/-!
What is read of a record that has the fields of another one among its members. Each value fits its field, and a
field of the other record that has the name of an own one is left to what stands for it.
-/

namespace CloudOffers.Json

variable {number : Parts → Option Number}

section Any

theorem proper_scalar (hn : ∀ p n, number p = some n → n.Proper) {t : Tree} {v : Json}
    (h : (t.scalar? number).bind (fun v ↦ (Shape.any.ofScalar v).toOption) = some v) : ∀ n ∈ v.numbers, n.Proper := by
  obtain ⟨w, hw, hv⟩ := Option.bind_eq_some_iff.1 h
  cases hv
  cases t with
  | num p =>
    obtain ⟨n, hnumber, rfl⟩ := Option.map_eq_some_iff.1 hw
    exact List.forall_mem_singleton.2 (hn p n hnumber)
  | str s =>
    obtain ⟨_, _, rfl⟩ := Option.map_eq_some_iff.1 hw
    exact List.forall_mem_nil _
  | null | bool _ =>
    cases hw
    exact List.forall_mem_nil _
  | _ => cases hw

mutual

/-- All numbers are as they were read where any value is asked for. -/
theorem proper_decode_any (hn : ∀ p n, number p = some n → n.Proper) : ∀ (t : Tree) {room : Nat} {v : Json},
    decode number room .any t = some v → ∀ n ∈ v.numbers, n.Proper
  | .null, _, _, h | .bool _, _, _, h | .num _, _, _, h | .str _, _, _, h => by
    rw [decode] at h
    · exact proper_scalar hn h
    all_goals
      intros
      contradiction
  | .arr items, room, v, h => by
    rw [decode_arr] at h
    split at h
    · cases h
    · obtain ⟨vs, hvs, rfl⟩ := Option.map_eq_some_iff.1 h
      exact forall_numbers_arr.2 (proper_decodeItems_any hn items hvs)
  | .obj members, room, v, h => by
    obtain ⟨_, _, m, hm, hv⟩ := decode_obj_eq_some_iff.1 h
    cases hv
    exact forall_numbers_obj.2 (proper_decodeMembers_any hn (fun _ _ h ↦ by cases h; rfl) members hm)

theorem proper_decodeItems_any (hn : ∀ p n, number p = some n → n.Proper) : ∀ (items : List Tree) {room : Nat}
    {vs : List Json}, decodeItems number room .any items = some vs → ∀ v ∈ vs, ∀ n ∈ v.numbers, n.Proper
  | [], _, _, h => by
    rw [decodeItems] at h
    cases h
    exact List.forall_mem_nil _
  | t :: items, room, vs, h => by
    simp only [decodeItems, Option.bind_eq_bind, Option.bind_eq_some_iff, Option.some.injEq] at h
    obtain ⟨v, hv, rest, hrest, rfl⟩ := h
    exact List.forall_mem_cons.2 ⟨proper_decode_any hn t hv, proper_decodeItems_any hn items hrest⟩

theorem proper_decodeMembers_any (hn : ∀ p n, number p = some n → n.Proper) {shape : Shape}
    (hshape : ∀ k item, shape.purpose k = .other item → item = .any) : ∀ (members : List (Option String × Tree))
    {room : Nat} {m : Members}, decodeMembers number room shape members = some m →
    ∀ e ∈ m.others, ∀ n ∈ e.2.numbers, n.Proper
  | [], _, _, h => by
    rw [decodeMembers] at h
    cases h
    exact List.forall_mem_nil _
  | (k, t) :: members, room, m, h => by
    obtain ⟨name, own, rest, _, hown, hrest, hjoin⟩ := decodeMembers_cons_eq_some_iff.1 h
    obtain ⟨_, rfl⟩ := Members.join_eq_some_iff.1 hjoin
    refine List.forall_mem_append.2 ⟨?_, proper_decodeMembers_any hn hshape members hrest⟩
    cases hp : shape.purpose name with
    | field item =>
      rw [hp] at hown
      obtain ⟨v, _, rfl⟩ := Option.map_eq_some_iff.1 hown
      exact List.forall_mem_nil _
    | other item =>
      obtain rfl := hshape name item hp
      rw [hp] at hown
      obtain ⟨v, hv, rfl⟩ := Option.map_eq_some_iff.1 hown
      exact List.forall_mem_singleton.2 (proper_decode_any hn t hv)
    | unwanted =>
      rw [hp] at hown
      cases hown
      exact List.forall_mem_nil _

end

end Any

section Settle

/-- A member is passed over, or settled as the field of its name. -/
theorem settleFields_cons_eq_ok {fields : List Field} {done members settled : List (String × Json)} {k : String}
    {v : Json} (h : settleFields fields done ((k, v) :: members) = .ok settled) :
    (fields.find? (fun f ↦ f.1 = k) = none ∧ settleFields fields done members = .ok settled) ∨
    ∃ f w, fields.find? (fun f ↦ f.1 = k) = some f ∧ f.2.1.settle v = .ok w ∧
      settleFields fields (done ++ [(k, w)]) members = .ok settled := by
  rw [settleFields] at h
  cases hfind : fields.find? (fun f ↦ f.1 = k) with
  | none =>
    rw [hfind] at h
    exact .inl ⟨rfl, h⟩
  | some f =>
    rw [hfind] at h
    cases hdone : lookup k done with
    | some w =>
      rw [hdone] at h
      cases h
    | none =>
      rw [hdone] at h
      obtain ⟨w, hw, h⟩ := bind_eq_ok_iff.1 h
      exact .inr ⟨f, w, rfl, hw, h⟩

mutual

theorem fits_settle : ∀ (v : Json) {shape : Shape} {w : Json},
    (∀ n ∈ v.numbers, n.Proper) → shape.settle v = .ok w → Fits shape w
  | .arr items, shape, w, hn, h => by
    cases shape with
    | any =>
      rw [Shape.settle] at h
      cases h
      exact .any
    | list item =>
      rw [Shape.settle] at h
      obtain ⟨ws, hws, h⟩ := bind_eq_ok_iff.1 h
      cases h
      exact .list (fits_settleItems items (forall_numbers_arr.1 hn) hws)
    | _ =>
      rw [Shape.settle] at h
      · cases h
      all_goals
        intros
        contradiction
  | .obj members, shape, w, hn, h => by
    cases shape with
    | any =>
      rw [Shape.settle] at h
      cases h
      exact .any
    | map item =>
      rw [Shape.settle] at h
      obtain ⟨ws, hws, h⟩ := bind_eq_ok_iff.1 h
      cases h
      have hfits := fits_settleMembers members (forall_numbers_obj.1 hn) hws
      exact .map fun e he ↦ hfits e (Dict.mem_of_mem_entries_ofList he)
    | record name fields =>
      rw [Shape.settle] at h
      obtain ⟨settled, hsettled, h⟩ := bind_eq_ok_iff.1 h
      obtain ⟨all, hall, h⟩ := bind_eq_ok_iff.1 h
      cases h
      have hfits := fits_settleFields members (forall_numbers_obj.1 hn) (List.forall_mem_nil _) hsettled
      exact .record (fieldFits_assemble (fun _ hf ↦ hf) hfits (toOption_eq_some_iff.2 hall))
    | _ =>
      rw [Shape.settle] at h
      · cases h
      all_goals
        intros
        contradiction
  | .null, shape, w, hn, h | .bool _, shape, w, hn, h | .num _, shape, w, hn, h | .str _, shape, w, hn, h => by
    rw [Shape.settle] at h
    · refine fits_ofScalar (fun n hnum ↦ hn n ?_) h
      rw [hnum]
      exact List.mem_singleton_self n
    all_goals
      intros
      contradiction

theorem fits_settleItems : ∀ (items : List Json) {shape : Shape} {ws : List Json},
    (∀ v ∈ items, ∀ n ∈ v.numbers, n.Proper) → shape.settleItems items = .ok ws → ∀ w ∈ ws, Fits shape w
  | [], shape, ws, hn, h => by
    rw [Shape.settleItems] at h
    cases h
    exact List.forall_mem_nil _
  | v :: items, shape, ws, hn, h => by
    obtain ⟨hv, hitems⟩ := List.forall_mem_cons.1 hn
    rw [Shape.settleItems] at h
    obtain ⟨w, hw, h⟩ := bind_eq_ok_iff.1 h
    obtain ⟨rest, hrest, h⟩ := bind_eq_ok_iff.1 h
    cases h
    exact List.forall_mem_cons.2 ⟨fits_settle v hv hw, fits_settleItems items hitems hrest⟩

theorem fits_settleMembers : ∀ (members : List (String × Json)) {shape : Shape} {ws : List (String × Json)},
    (∀ e ∈ members, ∀ n ∈ e.2.numbers, n.Proper) → shape.settleMembers members = .ok ws → ∀ e ∈ ws, Fits shape e.2
  | [], shape, ws, hn, h => by
    rw [Shape.settleMembers] at h
    cases h
    exact List.forall_mem_nil _
  | (k, v) :: members, shape, ws, hn, h => by
    obtain ⟨hv, hmembers⟩ := List.forall_mem_cons.1 hn
    rw [Shape.settleMembers] at h
    obtain ⟨w, hw, h⟩ := bind_eq_ok_iff.1 h
    obtain ⟨rest, hrest, h⟩ := bind_eq_ok_iff.1 h
    cases h
    exact List.forall_mem_cons.2 ⟨fits_settle v hv hw, fits_settleMembers members hmembers hrest⟩

theorem fits_settleFields : ∀ (members : List (String × Json)) {fields : List Field}
    {done settled : List (String × Json)},
    (∀ e ∈ members, ∀ n ∈ e.2.numbers, n.Proper) → (∀ e ∈ done, FieldFits fields e) →
    settleFields fields done members = .ok settled → ∀ e ∈ settled, FieldFits fields e
  | [], fields, done, settled, hn, hdone, h => by
    rw [settleFields] at h
    cases h
    exact hdone
  | (k, v) :: members, fields, done, settled, hn, hdone, h => by
    obtain ⟨hv, hmembers⟩ := List.forall_mem_cons.1 hn
    obtain ⟨_, h⟩ | ⟨f, w, hfind, hw, h⟩ := settleFields_cons_eq_ok h
    · exact fits_settleFields members hmembers hdone h
    · refine fits_settleFields members hmembers (List.forall_mem_append.2 ⟨hdone, List.forall_mem_singleton.2 ?_⟩) h
      obtain rfl : f.1 = k := by simpa using List.find?_some hfind
      exact .value (List.mem_of_find?_eq_some hfind) (fits_settle v hv hw)

end

end Settle

section Extended

variable {name : String} {own inner : List Field} {room : Nat} {t : Tree} {w : Json}

/-- No more fields are settled than there are members. -/
theorem mem_of_mem_settleFields {fields : List Field} {done members settled : List (String × Json)}
    (h : settleFields fields done members = .ok settled) {e : String × Json} (he : e ∈ settled) :
    e ∈ done ∨ e.1 ∈ members.map (·.1) := by
  induction members generalizing done with
  | nil =>
    rw [settleFields] at h
    cases h
    exact .inl he
  | cons e' members ih =>
    obtain ⟨k, v⟩ := e'
    obtain ⟨_, h⟩ | ⟨_, w, _, _, h⟩ := settleFields_cons_eq_ok h
    · exact (ih h).imp_right (List.mem_cons_of_mem _)
    · obtain hmem | hmem := ih h
      · obtain hmem | hmem := List.mem_append.1 hmem
        · exact .inl hmem
        · obtain rfl := List.mem_singleton.1 hmem
          exact .inr List.mem_cons_self
      · exact .inr (List.mem_cons_of_mem _ hmem)

theorem map_assemble {fields : List Field} {members all : List (String × Json)}
    (h : (assemble members fields).toOption = some all) : all.map (·.1) = fields.map (·.1) := by
  induction fields generalizing all with
  | nil =>
    cases h
    rfl
  | cons f fields ih =>
    obtain ⟨k, shape, absent⟩ := f
    rw [assemble_cons] at h
    obtain ⟨v, _, h⟩ := Option.bind_eq_some_iff.1 h
    obtain ⟨rest, hrest, rfl⟩ := Option.map_eq_some_iff.1 h
    rw [List.map_cons, List.map_cons, ih hrest]

/-- A field that is not among the members is what stands for it. -/
theorem absent_of_mem_assemble {fields : List Field} {members all : List (String × Json)}
    (h : (assemble members fields).toOption = some all) {e : String × Json} (he : e ∈ all)
    (hmissing : e.1 ∉ members.map (·.1)) : ∃ f ∈ fields, f.1 = e.1 ∧ f.2.2 = some e.2 := by
  induction fields generalizing all with
  | nil =>
    cases h
    cases he
  | cons f fields ih =>
    obtain ⟨k, shape, absent⟩ := f
    rw [assemble_cons] at h
    obtain ⟨v, hv, h⟩ := Option.bind_eq_some_iff.1 h
    obtain ⟨rest, hrest, rfl⟩ := Option.map_eq_some_iff.1 h
    obtain rfl | he := List.mem_cons.1 he
    · have hnone : lookup k members = none :=
        lookup_eq_none_iff.2 fun e he heq ↦ hmissing (List.mem_map.2 ⟨e, he, heq⟩)
      rw [hnone, Option.none_or] at hv
      exact ⟨_, List.mem_cons_self, rfl, hv⟩
    · obtain ⟨f, hf, hfields⟩ := ih hrest he
      exact ⟨f, List.mem_cons_of_mem _ hf, hfields⟩

/-- What is read of a record that extends another one: the fields of the other, and its own. -/
structure Extends (own inner : List Field) (innerMembers ownMembers : List (String × Json)) : Prop where
  innerFits : ∀ e ∈ innerMembers, FieldFits inner e
  ownFits : ∀ e ∈ ownMembers, FieldFits own e
  names : innerMembers.map (·.1) = inner.map (·.1)
  shadowed : ∀ e ∈ innerMembers, e.1 ∈ own.map (·.1) → ∃ f ∈ inner, f.1 = e.1 ∧ f.2.2 = some e.2

theorem mem_of_purpose_extended {k : String} {item : Shape}
    (h : (Shape.extended name own inner).purpose k = .field item) : ∃ f ∈ own, f.1 = k ∧ f.2.1 = item := by
  rw [Shape.purpose] at h
  split at h
  · next f hfind =>
    cases h
    exact ⟨_, List.mem_of_find?_eq_some hfind, by simpa using List.find?_some hfind, rfl⟩
  · cases h

theorem not_mem_of_purpose_extended {k : String} {item : Shape}
    (h : (Shape.extended name own inner).purpose k = .other item) : k ∉ own.map (·.1) ∧ item = .any := by
  rw [Shape.purpose] at h
  split at h
  · cases h
  · next hnone =>
    cases h
    refine ⟨fun hmem ↦ ?_, rfl⟩
    obtain ⟨f, hf, heq⟩ := List.mem_map.1 hmem
    exact List.find?_eq_none.1 hnone f hf (decide_eq_true heq)

theorem extends_of_decode (hn : ∀ p n, number p = some n → n.Proper)
    (h : decode number room (.extended name own inner) t = some w) :
    ∃ innerMembers ownMembers, w = .obj (innerMembers ++ ownMembers) ∧ Extends own inner innerMembers ownMembers := by
  cases t with
  | obj members =>
    obtain ⟨_, _, m, hm, hw⟩ := decode_obj_eq_some_iff.1 h
    obtain ⟨hfields, hothers⟩ := fits_decodeMembers hn members hm
    have hproper := proper_decodeMembers_any hn (fun _ _ hp ↦ (not_mem_of_purpose_extended hp).2) members hm
    rw [Shape.ofMembers, toOption_bind] at hw
    obtain ⟨ownMembers, hown, hw⟩ := Option.bind_eq_some_iff.1 hw
    rw [toOption_bind] at hw
    obtain ⟨settled, hsettled, hw⟩ := Option.bind_eq_some_iff.1 hw
    rw [toOption_bind] at hw
    obtain ⟨innerMembers, hinner, hw⟩ := Option.bind_eq_some_iff.1 hw
    cases hw
    have hsettled := toOption_eq_some_iff.1 hsettled
    have hsettledFits := fits_settleFields m.others hproper (List.forall_mem_nil _) hsettled
    refine ⟨innerMembers, ownMembers, rfl, fieldFits_assemble (fun _ hf ↦ hf) hsettledFits hinner,
      fieldFits_assemble (fun _ hf ↦ hf) (fun e he ↦ ?_) hown, map_assemble hinner, fun e he hname ↦ ?_⟩
    · obtain ⟨item, hp, hfit⟩ := hfields e he
      obtain ⟨f, hf, hname, rfl⟩ := mem_of_purpose_extended hp
      obtain ⟨k, v⟩ := e
      obtain rfl : f.1 = k := hname
      exact .value hf hfit
    · -- a member with the name of an own field is none of the others, from which the fields are settled
      refine absent_of_mem_assemble hinner he fun hmem ↦ ?_
      obtain ⟨e', he', heq⟩ := List.mem_map.1 hmem
      obtain hmem | hmem := mem_of_mem_settleFields hsettled he'
      · cases hmem
      · obtain ⟨e'', he'', heq'⟩ := List.mem_map.1 hmem
        obtain ⟨item, hp, -⟩ := hothers e'' he''
        exact (not_mem_of_purpose_extended hp).1 (heq' ▸ heq ▸ hname)
  | arr items =>
    rw [decode_arr] at h
    split at h <;> cases h
  | _ =>
    rw [decode] at h
    · obtain ⟨v, _, hv⟩ := Option.bind_eq_some_iff.1 h
      cases hv
    all_goals
      intros
      contradiction

end Extended

end CloudOffers.Json
