import CloudOffers.Json.Document
import CloudOffers.Proofs.Json.Edit
import CloudOffers.Proofs.Json.Number
/-!
Types whose values are read back from what is printed of them. The numbers that a value holds are told
apart from its JSON form, since floats that are not finite have none.
-/

namespace CloudOffers.Json

section Fits

mutual

/-- A value as reading yields it: of the shape, with numbers that are finite and fit their kind. -/
inductive Fits : Shape → Json → Prop
  | any {v : Json} : Fits .any v
  | text {s : String} : Fits .text (.str s)
  | path {s : String} : Fits .path (.str s)
  | bool {b : Bool} : Fits .bool (.bool b)
  | float {x : Binary64} (h : x.isFinite = true) : Fits .float (.num (.float x))
  | nat {n : Nat} (h : n < 2 ^ 64) : Fits .nat (.num (.nat n))
  | list {item : Shape} {items : List Json} (h : ∀ v ∈ items, Fits item v) : Fits (.list item) (.arr items)
  | map {item : Shape} {d : Dict String Json} (h : ∀ e ∈ d.entries, Fits item e.2) : Fits (.map item) (ofDict d)
  | record {name : String} {fields : List Field} {members : List (String × Json)}
      (h : ∀ e ∈ members, FieldFits fields e) : Fits (.record name fields) (.obj members)
  | extended {name : String} {fields inner : List Field} {v : Json} : Fits (.extended name fields inner) v

/-- The value of a field is of its shape, or what stands for the field where it is left out. -/
inductive FieldFits : List Field → String × Json → Prop
  | absent {fields : List Field} {f : Field} {v : Json} (hf : f ∈ fields) (hv : f.2.2 = some v) :
      FieldFits fields (f.1, v)
  | value {fields : List Field} {f : Field} {v : Json} (hf : f ∈ fields) (hv : Fits f.2.1 v) :
      FieldFits fields (f.1, v)

end

variable {number : Parts → Option Number}

theorem fits_ofScalar {shape : Shape} {v w : Json} (hv : ∀ n, v = .num n → n.Proper)
    (h : shape.ofScalar v = .ok w) : Fits shape w := by
  rw [Shape.ofScalar.eq_def] at h
  split at h
  · exact .any
  · cases h; exact .text
  · cases h; exact .path
  · cases h; exact .bool
  · cases h; exact .float (hv _ rfl).isFinite
  · cases h; exact .nat (hv _ rfl)
  · cases h
  · cases h

theorem fieldFits_assemble {fields left : List Field} {members all : List (String × Json)} (hleft : ∀ f ∈ left, f ∈ fields)
    (hm : ∀ e ∈ members, FieldFits fields e) (h : (assemble members left).toOption = some all) :
    ∀ e ∈ all, FieldFits fields e := by
  induction left generalizing all with
  | nil =>
    cases h
    exact nofun
  | cons f left ih =>
    obtain ⟨name, shape, absent⟩ := f
    obtain ⟨hhead, htail⟩ := List.forall_mem_cons.1 hleft
    rw [assemble_cons] at h
    obtain ⟨v, hv, h⟩ := Option.bind_eq_some_iff.1 h
    obtain ⟨rest, hrest, rfl⟩ := Option.map_eq_some_iff.1 h
    refine List.forall_mem_cons.2 ⟨?_, ih htail hrest⟩
    rcases Option.or_eq_some_iff.1 hv with hfound | ⟨_, habsent⟩
    · rw [lookup_eq_find?, Option.map_eq_some_iff] at hfound
      obtain ⟨e, he, rfl⟩ := hfound
      have hname : e.1 = name := by simpa using List.find?_some he
      exact hname ▸ hm e (List.mem_of_find?_eq_some he)
    · exact .absent hhead habsent

theorem mem_of_purpose {name k : String} {fields : List Field} {item : Shape}
    (h : (Shape.record name fields).purpose k = .field item) : ∃ f ∈ fields, f.1 = k ∧ f.2.1 = item := by
  rw [Shape.purpose] at h
  split at h
  · next f hfind =>
    cases h
    exact ⟨_, List.mem_of_find?_eq_some hfind, by simpa using List.find?_some hfind, rfl⟩
  · cases h

theorem fieldFits_defaults {fields left : List Field} {members : List (String × Json)} (hleft : ∀ f ∈ left, f ∈ fields)
    (h : defaults left = some members) : ∀ e ∈ members, FieldFits fields e := by
  induction left generalizing members with
  | nil =>
    cases h
    exact nofun
  | cons f left ih =>
    obtain ⟨hhead, htail⟩ := List.forall_mem_cons.1 hleft
    simp only [defaults, Option.bind_eq_bind, Option.bind_eq_some_iff, Option.some.injEq] at h
    obtain ⟨v, hv, rest, hrest, rfl⟩ := h
    exact List.forall_mem_cons.2 ⟨.absent hhead hv, ih htail hrest⟩

theorem fits_scalar (hn : ∀ p n, number p = some n → n.Proper) {t : Tree} {shape : Shape} {w : Json}
    (h : (t.scalar? number).bind (fun v ↦ (shape.ofScalar v).toOption) = some w) : Fits shape w := by
  obtain ⟨v, hv, hw⟩ := Option.bind_eq_some_iff.1 h
  refine fits_ofScalar (fun n hnum ↦ ?_) (toOption_eq_some_iff.1 hw)
  subst hnum
  cases t with
  | num p =>
    obtain ⟨n', hnumber, heq⟩ := Option.map_eq_some_iff.1 hv
    cases heq
    exact hn p n hnumber
  | str s =>
    obtain ⟨s', _, heq⟩ := Option.map_eq_some_iff.1 hv
    cases heq
  | _ => cases hv

mutual

/-- Whatever a tree says fits the shape, if numbers are read as they should be. -/
theorem fits_decode (hn : ∀ p n, number p = some n → n.Proper) : ∀ (t : Tree) {room : Nat} {shape : Shape} {v : Json},
    decode number room shape t = some v → Fits shape v
  | .null, _, _, _, h | .bool _, _, _, _, h | .num _, _, _, _, h | .str _, _, _, _, h => by
    rw [decode] at h
    · exact fits_scalar hn h
    all_goals exact nofun
  | .arr items, room, shape, v, h => by
    rw [decode_arr] at h
    split at h
    · cases h
    split at h
    · obtain ⟨vs, _, rfl⟩ := Option.map_eq_some_iff.1 h
      exact .any
    · obtain ⟨vs, hvs, rfl⟩ := Option.map_eq_some_iff.1 h
      exact .list (fits_decodeItems hn items hvs)
    · obtain ⟨vs, hvs, rfl⟩ := Option.map_eq_some_iff.1 h
      exact .record (fits_decodeFields hn items (fun _ hf ↦ hf) hvs)
    · cases h
  | .obj members, room, shape, v, h => by
    obtain ⟨_, htakes, m, hm, hv⟩ := decode_obj_eq_some_iff.1 h
    obtain ⟨hfields, hothers⟩ := fits_decodeMembers hn members hm
    cases shape with
    | any => cases hv; exact .any
    | map item =>
      cases hv
      refine .map fun e he ↦ ?_
      obtain ⟨_, hp, hfit⟩ := hothers e (Dict.mem_of_mem_entries_ofList he)
      cases hp
      exact hfit
    | record name fields =>
      rw [ofMembers_record] at hv
      obtain ⟨all, hall, rfl⟩ := Option.map_eq_some_iff.1 hv
      refine .record (fieldFits_assemble (fun _ hf ↦ hf) (fun e he ↦ ?_) hall)
      obtain ⟨item, hp, hfit⟩ := hfields e he
      obtain ⟨f, hf, hname, rfl⟩ := mem_of_purpose hp
      obtain ⟨k, w⟩ := e
      obtain rfl : f.1 = k := hname
      exact .value hf hfit
    | extended => exact .extended
    | _ => cases htakes

theorem fits_decodeItems (hn : ∀ p n, number p = some n → n.Proper) : ∀ (items : List Tree) {room : Nat} {item : Shape}
    {vs : List Json}, decodeItems number room item items = some vs → ∀ v ∈ vs, Fits item v
  | [], _, _, _, h => by
    rw [decodeItems] at h
    cases h
    exact nofun
  | t :: items, room, item, vs, h => by
    simp only [decodeItems, Option.bind_eq_bind, Option.bind_eq_some_iff, Option.some.injEq] at h
    obtain ⟨v, hv, rest, hrest, rfl⟩ := h
    exact List.forall_mem_cons.2 ⟨fits_decode hn t hv, fits_decodeItems hn items hrest⟩

theorem fits_decodeFields (hn : ∀ p n, number p = some n → n.Proper) : ∀ (items : List Tree) {room : Nat}
    {fields left : List Field} {members : List (String × Json)}, (∀ f ∈ left, f ∈ fields) →
    decodeFields number room left items = some members → ∀ e ∈ members, FieldFits fields e
  | [], _, _, _, _, hleft, h => by
    rw [decodeFields] at h
    exact fieldFits_defaults hleft h
  | t :: items, room, fields, [], members, _, h => by
    rw [decodeFields] at h
    cases h
  | t :: items, room, fields, (name, shape, absent) :: left, members, hleft, h => by
    obtain ⟨hhead, htail⟩ := List.forall_mem_cons.1 hleft
    simp only [decodeFields, Option.bind_eq_bind, Option.bind_eq_some_iff, Option.some.injEq] at h
    obtain ⟨v, hv, rest, hrest, rfl⟩ := h
    exact List.forall_mem_cons.2 ⟨.value hhead (fits_decode hn t hv), fits_decodeFields hn items htail hrest⟩

theorem fits_decodeMembers (hn : ∀ p n, number p = some n → n.Proper) : ∀ (members : List (Option String × Tree))
    {room : Nat} {shape : Shape} {m : Members}, decodeMembers number room shape members = some m →
    (∀ e ∈ m.fields, ∃ item, shape.purpose e.1 = .field item ∧ Fits item e.2) ∧
    ∀ e ∈ m.others, ∃ item, shape.purpose e.1 = .other item ∧ Fits item e.2
  | [], _, _, _, h => by
    rw [decodeMembers] at h
    cases h
    exact ⟨nofun, nofun⟩
  | (k, t) :: members, room, shape, m, h => by
    obtain ⟨name, own, rest, _, hown, hrest, hjoin⟩ := decodeMembers_cons_eq_some_iff.1 h
    obtain ⟨_, rfl⟩ := Members.join_eq_some_iff.1 hjoin
    obtain ⟨hfields, hothers⟩ := fits_decodeMembers hn members hrest
    simp only [List.forall_mem_append]
    cases hp : shape.purpose name with
    | field item =>
      rw [hp] at hown
      obtain ⟨v, hv, rfl⟩ := Option.map_eq_some_iff.1 hown
      have hown : ∀ e ∈ [(name, v)], ∃ item, shape.purpose e.1 = .field item ∧ Fits item e.2 :=
        List.forall_mem_singleton.2 ⟨item, hp, fits_decode hn t hv⟩
      exact ⟨⟨hown, hfields⟩, nofun, hothers⟩
    | other item =>
      rw [hp] at hown
      obtain ⟨v, hv, rfl⟩ := Option.map_eq_some_iff.1 hown
      have hown : ∀ e ∈ [(name, v)], ∃ item, shape.purpose e.1 = .other item ∧ Fits item e.2 :=
        List.forall_mem_singleton.2 ⟨item, hp, fits_decode hn t hv⟩
      exact ⟨⟨nofun, hfields⟩, hown, hothers⟩
    | unwanted =>
      rw [hp] at hown
      cases hown
      exact ⟨⟨nofun, hfields⟩, nofun, hothers⟩

end

end Fits

section Numbers

theorem forall_numbers_arr {P : Number → Prop} {items : List Json} :
    (∀ n ∈ (Json.arr items).numbers, P n) ↔ ∀ v ∈ items, ∀ n ∈ v.numbers, P n := by
  rw [numbers]
  induction items with
  | nil => simp [numbersItems]
  | cons v items ih => rw [numbersItems, List.forall_mem_append, List.forall_mem_cons, ih]

theorem forall_numbers_obj {P : Number → Prop} {members : List (String × Json)} :
    (∀ n ∈ (Json.obj members).numbers, P n) ↔ ∀ e ∈ members, ∀ n ∈ e.2.numbers, P n := by
  rw [numbers]
  induction members with
  | nil => simp [numbersMembers]
  | cons e members ih => rw [numbersMembers, List.forall_mem_append, List.forall_mem_cons, ih]

theorem decode_num (number : Parts → Option Number) (room : Nat) (shape : Shape) (p : Parts) :
    decode number room shape (.num p) = ((number p).map .num).bind (fun v ↦ (shape.ofScalar v).toOption) := by
  rw [decode]
  · rfl
  all_goals exact nofun

theorem decode_number {number : Parts → Option Number} {n : Number} (hn : n.ReadBy number) (room : Nat) (shape : Shape) :
    decode number room shape (Json.num n).tree = (shape.ofScalar (.num n)).toOption := by
  obtain ⟨p, hp, hread⟩ := hn
  rw [tree, Number.tree_eq hp, decode_num, hread]
  rfl

end Numbers

/-- A value that opens so many levels has a text, of which another value of the shape is read: the canonical one,
which has all fields of its records. -/
structure Written (depth : Nat) (shape : Shape) (v w : Json) : Prop where
  numbers : ∀ n ∈ v.numbers, n.Proper
  decode : ∀ {number : Parts → Option Number}, (∀ n ∈ v.numbers, n.ReadBy number) → ∀ {room : Nat}, depth < room →
    Json.decode number room shape v.tree = some w

section Collections

variable {depth : Nat} {item : Shape} {number : Parts → Option Number} {room : Nat} {β : Type}

theorem decodeItems_written {l : List β} {f g : β → Json} (hl : ∀ b ∈ l, Written depth item (f b) (g b))
    (hn : ∀ v ∈ l.map f, ∀ n ∈ v.numbers, n.ReadBy number) (hroom : depth < room) :
    decodeItems number room item (treeItems (l.map f)) = some (l.map g) := by
  induction l with
  | nil => rfl
  | cons b l ih =>
    obtain ⟨hb, hl⟩ := List.forall_mem_cons.1 hl
    obtain ⟨hnb, hnl⟩ := List.forall_mem_cons.1 hn
    rw [List.map_cons, treeItems, decodeItems, hb.decode hnb hroom, ih hl hnl]
    rfl

theorem Written.list {l : List β} {f g : β → Json} (hl : ∀ b ∈ l, Written depth item (f b) (g b)) :
    Written (depth + 1) (.list item) (.arr (l.map f)) (.arr (l.map g)) where
  numbers := forall_numbers_arr.2 fun v hv ↦ by
    obtain ⟨b, hb, rfl⟩ := List.mem_map.1 hv
    exact (hl b hb).numbers
  decode hn room hroom := by
    have hitems := decodeItems_written hl (forall_numbers_arr.1 hn) (show depth < room - 1 by omega)
    exact decode_list_eq_some_iff.2 ⟨by omega, _, hitems, rfl⟩

/-- The members of an object none of whose names is a field. -/
theorem decodeMembers_others {shape : Shape} {l : List (String × β)} {f g : β → Json}
    (hshape : ∀ e ∈ l, shape.purpose e.1 = .other item) (hl : ∀ e ∈ l, Written depth item (f e.2) (g e.2))
    (hn : ∀ e ∈ l.map (fun e ↦ (e.1, f e.2)), ∀ n ∈ e.2.numbers, n.ReadBy number) (hroom : depth < room)
    {rest : List (Option String × Tree)} {read : List (String × Json)}
    (hrest : decodeMembers number room shape rest = some ⟨read, []⟩) :
    decodeMembers number room shape (treeMembers (l.map (fun e ↦ (e.1, f e.2))) ++ rest) =
      some ⟨read, l.map (fun e ↦ (e.1, g e.2))⟩ := by
  induction l with
  | nil => exact hrest
  | cons e l ih =>
    obtain ⟨hname, hshape⟩ := List.forall_mem_cons.1 hshape
    obtain ⟨he, hl⟩ := List.forall_mem_cons.1 hl
    obtain ⟨hne, hnl⟩ := List.forall_mem_cons.1 hn
    refine decodeMembers_cons_eq_some_iff.2 ⟨e.1, ⟨[], [(e.1, g e.2)]⟩, _, rfl, ?_, ih hshape hl hnl, ?_⟩
    · rw [hname]
      exact Option.map_eq_some_iff.2 ⟨_, he.decode hne hroom, rfl⟩
    · exact Members.join_eq_some_iff.2 ⟨Members.fresh_iff.2 nofun, rfl⟩

theorem Written.map {α : Type} {f g : α → Json} (d : Dict String α)
    (hd : ∀ e ∈ d.entries, Written depth item (f e.2) (g e.2)) :
    Written (depth + 1) (.map item) (Document.ofDict f d) (Document.ofDict g d) where
  numbers := forall_numbers_obj.2 fun m hm ↦ by
    obtain ⟨e, he, rfl⟩ := List.mem_map.1 hm
    exact (hd e he).numbers
  decode {number} hn room hroom := by
    have hmembers := decodeMembers_others (fun _ _ ↦ rfl) hd (forall_numbers_obj.1 hn) (show depth < room - 1 by omega)
      (show decodeMembers number (room - 1) (.map item) [] = some ⟨[], []⟩ from rfl)
    rw [List.append_nil] at hmembers
    have hsame : Dict.ofList (d.map (fun _ v ↦ g v)).entries = d.map (fun _ v ↦ g v) := Dict.ofList_entries _
    refine decode_obj_eq_some_iff.2 ⟨by omega, rfl, _, hmembers, ?_⟩
    exact congrArg (fun d ↦ some (Json.ofDict d)) hsame

end Collections

section Records

variable {depth : Nat} {name : String} {fields : List Field} {members values : List (String × Json)}

/-- The members of a record in the order of its fields, and what is read of them. A member may be left out under a
condition, if it holds then what stands for it. -/
inductive Aligned (depth : Nat) : List Field → List (String × Json) → List (String × Json) → Prop
  | nil : Aligned depth [] [] []
  | present {d : Nat} {k : String} {item : Shape} {absent : Option Json} {v w : Json} {fields : List Field}
      {members values : List (String × Json)} (hv : Written d item v w) (hd : d ≤ depth)
      (h : Aligned depth fields members values) :
      Aligned depth ((k, item, absent) :: fields) ((k, v) :: members) ((k, w) :: values)
  | optional {d : Nat} {k : String} {item : Shape} {absent v w : Json} {c : Bool} {fields : List Field}
      {members values : List (String × Json)} (hc : c = true → absent = w) (hv : Written d item v w) (hd : d ≤ depth)
      (h : Aligned depth fields members values) :
      Aligned depth ((k, item, some absent) :: fields) ((if c then [] else [(k, v)]) ++ members) ((k, w) :: values)

theorem IsField.of_nodup (hd : (fields.map (·.1)).Nodup) {k : String} {item : Shape} {absent : Option Json}
    (h : (k, item, absent) ∈ fields) : IsField fields k item absent :=
  ⟨h, fun _ hf hname ↦ List.inj_on_of_nodup_map hd hf h hname⟩

theorem Aligned.numbers (h : Aligned depth fields members values) : ∀ e ∈ members, ∀ n ∈ e.2.numbers, n.Proper := by
  induction h with
  | nil => exact nofun
  | present hv _ _ ih => exact List.forall_mem_cons.2 ⟨hv.numbers, ih⟩
  | optional _ hv _ _ ih =>
    refine List.forall_mem_append.2 ⟨?_, ih⟩
    split
    · exact nofun
    · exact List.forall_mem_singleton.2 hv.numbers

/-- The field at the front, before the others are read. -/
theorem assemble_front {k : String} {item : Shape} {absent : Option Json} {w : Json} {before read : List (String × Json)}
    (hk : k ∉ fields.map (·.1)) (hbefore : ∀ e ∈ before, e.1 ∉ k :: fields.map (·.1))
    (hall : ∀ before : List (String × Json), (∀ e ∈ before, e.1 ∉ fields.map (·.1)) →
      (assemble (before ++ read) fields).toOption = some values) :
    (assemble (before ++ (k, w) :: read) ((k, item, absent) :: fields)).toOption = some ((k, w) :: values) := by
  have hmissing : lookup k before = none :=
    lookup_eq_none_iff.2 fun e he heq ↦ hbefore e he (heq ▸ List.mem_cons_self)
  have hrest := hall (before ++ [(k, w)]) (List.forall_mem_append.2
    ⟨fun e he hmem ↦ hbefore e he (List.mem_cons_of_mem _ hmem), List.forall_mem_singleton.2 hk⟩)
  rw [List.append_assoc, List.singleton_append] at hrest
  rw [assemble_cons, lookup_append, hmissing, hrest, lookup, if_pos rfl]
  rfl

theorem assemble_absent {k : String} {item : Shape} {w : Json} {before read : List (String × Json)}
    (hk : k ∉ fields.map (·.1)) (hread : ∀ e ∈ read, e.1 ∈ fields.map (·.1))
    (hbefore : ∀ e ∈ before, e.1 ∉ k :: fields.map (·.1))
    (hall : ∀ before : List (String × Json), (∀ e ∈ before, e.1 ∉ fields.map (·.1)) →
      (assemble (before ++ read) fields).toOption = some values) :
    (assemble (before ++ read) ((k, item, some w) :: fields)).toOption = some ((k, w) :: values) := by
  have hmissing : lookup k (before ++ read) = none := lookup_eq_none_iff.2 <| List.forall_mem_append.2
    ⟨fun e he heq ↦ hbefore e he (heq ▸ List.mem_cons_self), fun e he heq ↦ hk (heq ▸ hread e he)⟩
  rw [assemble_cons, hmissing, hall before fun e he hmem ↦ hbefore e he (List.mem_cons_of_mem _ hmem)]
  rfl

theorem decodeMembers_field {number : Parts → Option Number} {room : Nat} {shape item : Shape} {k : String} {t : Tree}
    {w : Json} {rest : List (Option String × Tree)} {read : List (String × Json)} (hk : shape.purpose k = .field item)
    (hw : decode number room item t = some w) (hrest : decodeMembers number room shape rest = some ⟨read, []⟩)
    (hfresh : ∀ e ∈ read, e.1 ≠ k) :
    decodeMembers number room shape ((some k, t) :: rest) = some ⟨(k, w) :: read, []⟩ := by
  refine decodeMembers_cons_eq_some_iff.2 ⟨k, ⟨[(k, w)], []⟩, _, rfl, ?_, hrest, ?_⟩
  · rw [hk, Purpose.members, hw]
    rfl
  · refine Members.join_eq_some_iff.2 ⟨Members.fresh_iff.2 ?_, rfl⟩
    rintro _ he e' he' heq
    obtain rfl := List.mem_singleton.1 he
    exact hfresh e' he' heq.symm

/-- The members that are read come in the order of the fields, so those before them are of other names. -/
theorem Aligned.decodeMembers (h : Aligned depth fields members values) {number : Parts → Option Number} {room : Nat}
    (hroom : depth < room) {shape : Shape} (hn : ∀ e ∈ members, ∀ n ∈ e.2.numbers, n.ReadBy number)
    (hfields : ∀ f ∈ fields, shape.purpose f.1 = .field f.2.1) (hd : (fields.map (·.1)).Nodup) :
    ∃ read, Json.decodeMembers number room shape (treeMembers members) = some ⟨read, []⟩ ∧
      (∀ e ∈ read, e.1 ∈ fields.map (·.1)) ∧
      ∀ before : List (String × Json), (∀ e ∈ before, e.1 ∉ fields.map (·.1)) →
        (assemble (before ++ read) fields).toOption = some values := by
  induction h with
  | nil => exact ⟨[], rfl, nofun, fun _ _ ↦ rfl⟩
  | @present d k item absent v w left members values hv hle _ ih =>
    obtain ⟨hhead, htail⟩ := List.forall_mem_cons.1 hfields
    obtain ⟨hnhead, hntail⟩ := List.forall_mem_cons.1 hn
    obtain ⟨hk, hd⟩ := List.nodup_cons.1 hd
    obtain ⟨read, hread, hnames, hall⟩ := ih hntail htail hd
    refine ⟨(k, w) :: read, ?_, ?_, fun before hbefore ↦ assemble_front hk hbefore hall⟩
    · exact decodeMembers_field hhead (hv.decode hnhead (by omega)) hread fun e he heq ↦ hk (heq ▸ hnames e he)
    · exact List.forall_mem_cons.2 ⟨List.mem_cons_self, fun e he ↦ List.mem_cons_of_mem _ (hnames e he)⟩
  | @optional d k item absent v w c left members values hc hv hle _ ih =>
    obtain ⟨hhead, htail⟩ := List.forall_mem_cons.1 hfields
    obtain ⟨hnhead, hntail⟩ := List.forall_mem_append.1 hn
    obtain ⟨hk, hd⟩ := List.nodup_cons.1 hd
    obtain ⟨read, hread, hnames, hall⟩ := ih hntail htail hd
    cases c with
    | true =>
      obtain rfl := hc rfl
      exact ⟨read, hread, fun e he ↦ List.mem_cons_of_mem _ (hnames e he),
        fun before hbefore ↦ assemble_absent hk hnames hbefore hall⟩
    | false =>
      refine ⟨(k, w) :: read, ?_, ?_, fun before hbefore ↦ assemble_front hk hbefore hall⟩
      · exact decodeMembers_field hhead (hv.decode (List.forall_mem_singleton.1 hnhead) (by omega)) hread
          fun e he heq ↦ hk (heq ▸ hnames e he)
      · exact List.forall_mem_cons.2 ⟨List.mem_cons_self, fun e he ↦ List.mem_cons_of_mem _ (hnames e he)⟩

/-- A record is written in the order of its fields. -/
theorem Aligned.written (h : Aligned depth fields members values) (hd : (fields.map (·.1)).Nodup) :
    Written (depth + 1) (.record name fields) (.obj members) (.obj values) where
  numbers := forall_numbers_obj.2 h.numbers
  decode {number} hn room hroom := by
    have hpurpose : ∀ f ∈ fields, (Shape.record name fields).purpose f.1 = .field f.2.1 := fun f hf ↦
      (IsField.of_nodup hd hf).purpose
    obtain ⟨read, hread, _, hall⟩ :=
      h.decodeMembers (show depth < room - 1 by omega) (forall_numbers_obj.1 hn) hpurpose hd
    refine decode_obj_eq_some_iff.2 ⟨by omega, rfl, _, hread, ?_⟩
    rw [ofMembers_record]
    exact Option.map_eq_some_iff.2 ⟨values, hall [] nofun, rfl⟩

/-- What stands for a field that is left out is a value of its shape. -/
def DefaultFits (f : Field) : Prop := ∀ v, f.2.2 = some v → Fits f.2.1 v

theorem defaultFits_field (name : String) (α : Type) [Document α] : DefaultFits (field name α) :=
  fun _ h ↦ absurd h (Option.some_ne_none _).symm

theorem defaultFits_fieldWith {α : Type} [Document α] (name : String) {absent : α}
    (h : Fits (Document.shape α) (Document.toJson absent)) : DefaultFits (fieldWith name absent) :=
  fun _ hv ↦ Option.some.inj hv ▸ h

theorem fits_obj_nil (item : Shape) : Fits (.map item) (.obj []) := .map (d := Dict.empty) nofun

/-- Fields of different names, with defaults that are values of their shapes. -/
structure Sound (fields : List Field) : Prop where
  nodup : (fields.map (·.1)).Nodup
  defaults : ∀ f ∈ fields, DefaultFits f

theorem FieldFits.fits (hs : Sound fields) {k : String} {v : Json} (h : FieldFits fields (k, v)) {item : Shape}
    (hk : (Shape.record "" fields).purpose k = .field item) : Fits item v := by
  obtain ⟨f, hf, rfl, rfl⟩ := mem_of_purpose hk
  have hunique := (IsField.of_nodup hs.nodup hf).2
  generalize hname : (f.1, v) = e at h
  cases h with
  | @absent _ g _ hg hv =>
    obtain ⟨hsame, rfl⟩ := Prod.mk.inj hname
    obtain rfl := hunique g hg hsame.symm
    exact hs.defaults _ hf _ hv
  | @value _ g _ hg hv =>
    obtain ⟨hsame, rfl⟩ := Prod.mk.inj hname
    obtain rfl := hunique g hg hsame.symm
    exact hv

end Records

/-- A type whose values are read back from what is printed of them, unless they hold a number that has no text or
whose text is read as another one. -/
class LawfulDocument (α : Type) [Document α] where
  /-- How many levels a value opens. -/
  depth : Nat
  canonical : α → Json
  /-- All numbers of the value are finite and fit their kind. -/
  Proper : α → Prop
  ofJson?_canonical (v : α) : Document.ofJson? (canonical v) = some v
  written {v : α} (hv : Proper v) : Written depth (Document.shape α) (Document.toJson v) (canonical v)
  proper_of_fits {w : Json} {v : α} (hw : Fits (Document.shape α) w) (hv : Document.ofJson? w = some v) : Proper v

namespace LawfulDocument

open Document

instance : LawfulDocument String where
  depth := 0
  canonical := .str
  Proper _ := True
  ofJson?_canonical _ := rfl
  written _ := ⟨nofun, fun _ _ _ ↦ rfl⟩
  proper_of_fits _ _ := trivial

instance : LawfulDocument Bool where
  depth := 0
  canonical := .bool
  Proper _ := True
  ofJson?_canonical _ := rfl
  written _ := ⟨nofun, fun _ _ _ ↦ rfl⟩
  proper_of_fits _ _ := trivial

instance : LawfulDocument Binary64 where
  depth := 0
  canonical x := .num (.float x)
  Proper x := x.isFinite = true
  ofJson?_canonical _ := rfl
  written {x} hx := by
    rw [show toJson x = .num (.float x) from if_pos hx]
    exact ⟨List.forall_mem_singleton.2 hx, fun hn room _ ↦ decode_number (hn _ List.mem_cons_self) room .float⟩
  proper_of_fits {w x} hw hx := by
    cases hw with
    | float h =>
      cases hx
      exact h

instance : LawfulDocument Nat where
  depth := 0
  canonical n := .num (.nat n)
  Proper n := n < 2 ^ 64
  ofJson?_canonical _ := rfl
  written {n} hn := ⟨List.forall_mem_singleton.2 hn, fun hread room _ ↦
    decode_number (hread (.nat n) List.mem_cons_self) room .nat⟩
  proper_of_fits {w n} hw hn := by
    cases hw with
    | nat h =>
      cases hn
      exact h

variable {α : Type} [Document α] [LawfulDocument α]

theorem exists_of_mem_mapM {β γ : Type} {f : β → Option γ} {l : List β} {l' : List γ} (h : l.mapM f = some l') {y : γ}
    (hy : y ∈ l') : ∃ x ∈ l, f x = some y := by
  induction l generalizing l' with
  | nil =>
    cases h
    cases hy
  | cons x l ih =>
    simp only [List.mapM_cons, Option.bind_eq_bind, Option.bind_eq_some_iff, Option.pure_def, Option.some.injEq] at h
    obtain ⟨z, hz, rest, hrest, rfl⟩ := h
    rcases List.mem_cons.1 hy with rfl | hy
    · exact ⟨x, List.mem_cons_self, hz⟩
    · exact (ih hrest hy).imp fun _ h ↦ ⟨List.mem_cons_of_mem _ h.1, h.2⟩

theorem mapM_map_eq_some {β γ : Type} {f : β → Option γ} {g : γ → β} (h : ∀ y, f (g y) = some y) (l : List γ) :
    (l.map g).mapM f = some l := by
  induction l with
  | nil => rfl
  | cons y l ih =>
    rw [List.map_cons, List.mapM_cons, h, ih]
    rfl

instance : LawfulDocument (List α) where
  depth := depth α + 1
  canonical l := .arr (l.map canonical)
  Proper l := ∀ v ∈ l, Proper v
  ofJson?_canonical := mapM_map_eq_some ofJson?_canonical
  written hl := .list fun v hv ↦ written (hl v hv)
  proper_of_fits {w l} hw hl := by
    cases hw with
    | list h =>
      intro v hv
      obtain ⟨w, hw, hofJson⟩ := exists_of_mem_mapM hl hv
      exact proper_of_fits (h w hw) hofJson

instance : LawfulDocument (Dict String α) where
  depth := depth α + 1
  canonical := Document.ofDict canonical
  Proper d := ∀ e ∈ d.entries, Proper e.2
  ofJson?_canonical d := by
    have hmap : (d.entries.map (fun e ↦ (e.1, canonical e.2))).mapM (fun e ↦ (ofJson? e.2).map (e.1, ·)) = some d.entries :=
      mapM_map_eq_some (fun e ↦ congrArg (Option.map (e.1, ·)) (ofJson?_canonical e.2)) d.entries
    exact (congrArg (Option.map Dict.ofList) hmap).trans (congrArg some (Dict.ofList_entries d))
  written {d} hd := .map d fun e he ↦ written (hd e he)
  proper_of_fits {w d} hw hd := by
    cases hw with
    | map h =>
      obtain ⟨l, hl, rfl⟩ := Option.map_eq_some_iff.1 hd
      intro e he
      obtain ⟨e', he', heq⟩ := exists_of_mem_mapM hl (Dict.mem_of_mem_entries_ofList he)
      obtain ⟨v, hv, rfl⟩ := Option.map_eq_some_iff.1 heq
      exact proper_of_fits (h e' he') hv

end LawfulDocument

end CloudOffers.Json
