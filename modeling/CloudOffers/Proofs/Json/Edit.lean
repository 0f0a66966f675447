import Mathlib.Logic.Relation
import Mathlib.Data.List.Nodup
import CloudOffers.Proofs.Dict
import CloudOffers.Proofs.Json.Decode
/-!
Changes to a tree that change nothing of what it says under a shape: members in another order, members
that nobody asked for, members that hold what stands for them anyway. And one that is always noticed: a
member is missing that has nothing to stand for it.
-/

namespace CloudOffers.Json

namespace Members

/-- The same members in another order. -/
structure Perm (a b : Members) : Prop where
  fields : a.fields.Perm b.fields
  others : a.others.Perm b.others

variable {a a' b b' c : Members}

theorem Perm.refl (a : Members) : a.Perm a := ⟨.refl _, .refl _⟩

theorem Perm.trans (h : a.Perm b) (h' : b.Perm c) : a.Perm c :=
  ⟨h.fields.trans h'.fields, h.others.trans h'.others⟩

theorem join_perm (ha : a.Perm a') (hb : b.Perm b') (hj : a.join b = some c) :
    ∃ c', a'.join b' = some c' ∧ c.Perm c' := by
  obtain ⟨hfresh, rfl⟩ := join_eq_some_iff.1 hj
  rw [fresh_iff] at hfresh
  refine ⟨_, join_eq_some_iff.2 ⟨fresh_iff.2 fun e he e' he' ↦ ?_, rfl⟩, ?_⟩
  · exact hfresh e (ha.fields.mem_iff.2 he) e' (hb.fields.mem_iff.2 he')
  · exact ⟨ha.fields.append hb.fields, ha.others.append hb.others⟩

theorem join_comm (hj : a.join b = some c) : ∃ c', b.join a = some c' ∧ c.Perm c' := by
  obtain ⟨hfresh, rfl⟩ := join_eq_some_iff.1 hj
  rw [fresh_iff] at hfresh
  refine ⟨_, join_eq_some_iff.2 ⟨fresh_iff.2 fun e he e' he' ↦ (hfresh e' he' e he).symm, rfl⟩, ?_⟩
  exact ⟨List.perm_append_comm, List.perm_append_comm⟩

end Members

theorem lookup_perm {l l' : List (String × Json)} (hl : (l.map (·.1)).Nodup) (h : l.Perm l')
    (name : String) : lookup name l = lookup name l' := by
  induction h with
  | nil => rfl
  | cons e _ ih => rw [lookup, lookup, ih (List.nodup_cons.1 hl).2]
  | swap e e' l =>
    have hne : e'.1 ≠ e.1 := fun h ↦ (List.nodup_cons.1 hl).1 (by simp [h])
    simp only [lookup]
    split
    · next h => rw [if_neg (h ▸ hne)]
    · rfl
  | trans h _ ih ih' => rw [ih hl, ih' ((h.map _).nodup_iff.1 hl)]

theorem lookup_eq_find? (name : String) (l : List (String × Json)) :
    lookup name l = (l.find? (fun e ↦ e.1 = name)).map (·.2) := by
  induction l with
  | nil => rfl
  | cons e l ih =>
    rw [lookup, List.find?_cons, ih]
    by_cases h : name = e.1
    · simp [h]
    · simp [h, Ne.symm h]

theorem assemble_cons (members : List (String × Json)) (name : String) (shape : Shape) (absent : Option Json)
    (fields : List Field) :
    (assemble members ((name, shape, absent) :: fields)).toOption =
      ((lookup name members).or absent).bind (fun v ↦
        (assemble members fields).toOption.map ((name, v) :: ·)) := by
  have hlater (v : Json) : (do (.ok ((name, v) :: (← assemble members fields)) :
      Except Error (List (String × Json)))).toOption = (assemble members fields).toOption.map ((name, v) :: ·) := by
    cases assemble members fields <;> rfl
  rw [assemble.eq_def]
  simp only
  split
  · next _ v h => rw [h]; exact hlater v
  · next v h => rw [h]; exact hlater v
  · next h => rw [h]; rfl

theorem assemble_congr {a b : List (String × Json)} {fields : List Field}
    (h : ∀ f ∈ fields, (lookup f.1 a).or f.2.2 = (lookup f.1 b).or f.2.2) :
    (assemble a fields).toOption = (assemble b fields).toOption := by
  induction fields with
  | nil => rfl
  | cons f fields ih =>
    obtain ⟨name, shape, absent⟩ := f
    obtain ⟨hhead, htail⟩ := List.forall_mem_cons.1 h
    rw [assemble_cons, assemble_cons, hhead, ih htail]

theorem assemble_missing {members : List (String × Json)} {fields : List Field} {f : Field} (hf : f ∈ fields)
    (habsent : f.2.2 = none) (hmissing : lookup f.1 members = none) :
    (assemble members fields).toOption = none := by
  induction fields with
  | nil => cases hf
  | cons g fields ih =>
    obtain ⟨name, shape, absent⟩ := g
    rw [assemble_cons]
    rcases List.mem_cons.1 hf with rfl | hf
    · obtain rfl : absent = none := habsent
      rw [hmissing]
      rfl
    · rw [ih hf]
      cases (lookup name members).or absent <;> rfl

section Members

variable {number : Parts → Option Number} {room : Nat} {shape : Shape} {members members' : List (Option String × Tree)}

theorem decodeMembers_cons_eq_some_iff {name : Option String} {t : Tree} {m : Members} :
    decodeMembers number room shape ((name, t) :: members) = some m ↔
      ∃ k own rest, name = some k ∧ (shape.purpose k).members k (decode number room · t) = some own ∧
        decodeMembers number room shape members = some rest ∧ own.join rest = some m := by
  simp only [decodeMembers_cons, Option.bind_eq_some_iff]
  constructor
  · rintro ⟨k, hk, own, hown, rest, hrest, hjoin⟩
    exact ⟨k, own, rest, hk, hown, hrest, hjoin⟩
  · rintro ⟨k, own, rest, hk, hown, hrest, hjoin⟩
    exact ⟨k, hk, own, hown, rest, hrest, hjoin⟩

theorem decodeMembers_perm (h : members.Perm members') {m : Members}
    (hm : decodeMembers number room shape members = some m) :
    ∃ m', decodeMembers number room shape members' = some m' ∧ m.Perm m' := by
  induction h generalizing m with
  | nil => exact ⟨m, hm, .refl m⟩
  | cons e _ ih =>
    obtain ⟨k, own, rest, hk, hown, hrest, hjoin⟩ := decodeMembers_cons_eq_some_iff.1 hm
    obtain ⟨rest', hrest', hperm⟩ := ih hrest
    obtain ⟨m', hm', hperm'⟩ := Members.join_perm (.refl own) hperm hjoin
    exact ⟨m', decodeMembers_cons_eq_some_iff.2 ⟨k, own, rest', hk, hown, hrest', hm'⟩, hperm'⟩
  | swap e e' l =>
    obtain ⟨k, a, _, hk, ha, hrest, hjoin⟩ := decodeMembers_cons_eq_some_iff.1 hm
    obtain ⟨k', b, rest, hk', hb, hrest, hjoin'⟩ := decodeMembers_cons_eq_some_iff.1 hrest
    -- both before the rest, then in the other order
    have hassoc := Members.join_assoc a b rest
    rw [hjoin', Option.bind_some, hjoin] at hassoc
    obtain ⟨ab, hab, habr⟩ := Option.bind_eq_some_iff.1 hassoc.symm
    obtain ⟨ba, hba, hperm⟩ := Members.join_comm hab
    obtain ⟨m', hm', hperm'⟩ := Members.join_perm hperm (.refl rest) habr
    have hassoc' := Members.join_assoc b a rest
    rw [hba, Option.bind_some, hm'] at hassoc'
    obtain ⟨ar, har, hbar⟩ := Option.bind_eq_some_iff.1 hassoc'
    refine ⟨m', decodeMembers_cons_eq_some_iff.2 ⟨k', b, ar, hk', hb, ?_, hbar⟩, hperm'⟩
    exact decodeMembers_cons_eq_some_iff.2 ⟨k, a, rest, hk, ha, hrest, har⟩
  | trans _ _ ih ih' =>
    obtain ⟨m', hm', hperm⟩ := ih hm
    obtain ⟨m'', hm'', hperm'⟩ := ih' hm'
    exact ⟨m'', hm'', hperm.trans hperm'⟩

theorem decodeMembers_nodup {m : Members} (hm : decodeMembers number room shape members = some m) :
    (m.fields.map (·.1)).Nodup := by
  induction members generalizing m with
  | nil =>
    rw [decodeMembers] at hm
    cases hm
    exact .nil
  | cons e members ih =>
    obtain ⟨k, own, rest, hk, hown, hrest, hjoin⟩ := decodeMembers_cons_eq_some_iff.1 hm
    obtain ⟨hfresh, rfl⟩ := Members.join_eq_some_iff.1 hjoin
    rw [Members.fresh_iff] at hfresh
    rw [List.map_append, List.nodup_append]
    refine ⟨?_, ih hrest, ?_⟩
    · cases hp : shape.purpose k <;> rw [hp, Purpose.members] at hown
      · obtain ⟨v, _, rfl⟩ := Option.map_eq_some_iff.1 hown
        exact List.pairwise_singleton _ k
      · obtain ⟨v, _, rfl⟩ := Option.map_eq_some_iff.1 hown
        exact .nil
      · cases hown
        exact .nil
    · rintro _ hname _ hname' rfl
      obtain ⟨e, he, rfl⟩ := List.mem_map.1 hname
      obtain ⟨e', he', heq⟩ := List.mem_map.1 hname'
      exact hfresh e he e' he' heq.symm

theorem decodeMembers_append_congr (l : List (Option String × Tree))
    (h : decodeMembers number room shape members = decodeMembers number room shape members') :
    decodeMembers number room shape (l ++ members) = decodeMembers number room shape (l ++ members') := by
  induction l with
  | nil => exact h
  | cons e l ih => rw [List.cons_append, List.cons_append, decodeMembers_cons, decodeMembers_cons, ih]

theorem decodeMembers_middle (l r : List (Option String × Tree)) (e : Option String × Tree) {m : Members}
    (hm : decodeMembers number room shape (l ++ e :: r) = some m) :
    ∃ m', decodeMembers number room shape (e :: (l ++ r)) = some m' ∧ m.Perm m' :=
  decodeMembers_perm List.perm_middle hm

end Members

/-- The field of a name, if no other one has it. -/
def IsField (fields : List Field) (name : String) (item : Shape) (absent : Option Json) : Prop :=
  (name, item, absent) ∈ fields ∧ ∀ f ∈ fields, f.1 = name → f = (name, item, absent)

section

variable (number : Parts → Option Number)

/-- A change of a tree that leaves what it says under a shape as it is. -/
inductive Edits : Nat → Shape → Tree → Tree → Prop
  | permuteRecord {room : Nat} {name : String} {fields : List Field} {members members' : List (Option String × Tree)}
      (h : members.Perm members') : Edits room (.record name fields) (.obj members) (.obj members')
  | permuteMap {room : Nat} {item : Shape} {members members' : List (Option String × Tree)}
      (hd : (members.map (·.1)).Nodup) (h : members.Perm members') :
      Edits room (.map item) (.obj members) (.obj members')
  | insert {room : Nat} {name k : String} {fields : List Field} {l r : List (Option String × Tree)} {t : Tree}
      (hk : ∀ f ∈ fields, f.1 ≠ k) :
      Edits room (.record name fields) (.obj (l ++ r)) (.obj (l ++ (some k, t) :: r))
  | drop {room : Nat} {name k : String} {fields : List Field} {item : Shape} {absent : Json}
      {l r : List (Option String × Tree)} {t : Tree} (hk : IsField fields k item (some absent))
      (ht : decode number (room - 1) item t = some absent) :
      Edits room (.record name fields) (.obj (l ++ (some k, t) :: r)) (.obj (l ++ r))
  | item {room : Nat} {item : Shape} {l r : List Tree} {t t' : Tree} (h : Edits (room - 1) item t t') :
      Edits room (.list item) (.arr (l ++ t :: r)) (.arr (l ++ t' :: r))
  | entry {room : Nat} {item : Shape} {k : Option String} {l r : List (Option String × Tree)} {t t' : Tree}
      (h : Edits (room - 1) item t t') :
      Edits room (.map item) (.obj (l ++ (k, t) :: r)) (.obj (l ++ (k, t') :: r))
  | member {room : Nat} {name k : String} {fields : List Field} {item : Shape} {absent : Option Json}
      {l r : List (Option String × Tree)} {t t' : Tree} (hk : IsField fields k item absent)
      (h : Edits (room - 1) item t t') :
      Edits room (.record name fields) (.obj (l ++ (some k, t) :: r)) (.obj (l ++ (some k, t') :: r))

end

/-- Somewhere in a tree a member is left out that must be there. -/
inductive Loses : Shape → Tree → Tree → Prop
  | required {name k : String} {fields : List Field} {item : Shape} {l r : List (Option String × Tree)} {t : Tree}
      (hk : IsField fields k item none) :
      Loses (.record name fields) (.obj (l ++ (some k, t) :: r)) (.obj (l ++ r))
  | item {item : Shape} {l r : List Tree} {t t' : Tree} (h : Loses item t t') :
      Loses (.list item) (.arr (l ++ t :: r)) (.arr (l ++ t' :: r))
  | entry {item : Shape} {k : Option String} {l r : List (Option String × Tree)} {t t' : Tree} (h : Loses item t t') :
      Loses (.map item) (.obj (l ++ (k, t) :: r)) (.obj (l ++ (k, t') :: r))
  | member {name k : String} {fields : List Field} {item : Shape} {absent : Option Json}
      {l r : List (Option String × Tree)} {t t' : Tree} (hk : IsField fields k item absent) (h : Loses item t t') :
      Loses (.record name fields) (.obj (l ++ (some k, t) :: r)) (.obj (l ++ (some k, t') :: r))

section Fields

variable {fields : List Field} {name k : String} {item : Shape} {absent : Option Json}

theorem IsField.find?_eq (h : IsField fields k item absent) :
    fields.find? (fun f ↦ f.1 = k) = some (k, item, absent) := by
  cases hf : fields.find? (fun f ↦ f.1 = k) with
  | none => exact absurd (List.find?_eq_none.1 hf _ h.1) (by simp)
  | some f =>
    have hname : f.1 = k := by simpa using List.find?_some hf
    rw [h.2 f (List.mem_of_find?_eq_some hf) hname]

theorem IsField.purpose (h : IsField fields k item absent) : (Shape.record name fields).purpose k = .field item := by
  rw [Shape.purpose, h.find?_eq]

theorem purpose_unwanted (h : ∀ f ∈ fields, f.1 ≠ k) : (Shape.record name fields).purpose k = .unwanted := by
  have hfind : fields.find? (fun f ↦ f.1 = k) = none := List.find?_eq_none.2 fun f hf ↦ by simpa using h f hf
  rw [Shape.purpose, hfind]

end Fields

section Content

variable {number : Parts → Option Number} {room : Nat} {shape item : Shape}

theorem decode_obj_eq_some_iff {members : List (Option String × Tree)} {v : Json} :
    decode number room shape (.obj members) = some v ↔ ¬room ≤ 1 ∧ shape.takesObject = true ∧
      ∃ m, decodeMembers number (room - 1) shape members = some m ∧ (shape.ofMembers m).toOption = some v := by
  rw [decode_obj]
  by_cases hroom : room ≤ 1
  · simp [hroom]
  · by_cases htakes : shape.takesObject = true
    · simp [hroom, htakes, Option.bind_eq_some_iff]
    · simp [hroom, htakes]

theorem ofMembers_record (name : String) (fields : List Field) (m : Members) :
    ((Shape.record name fields).ofMembers m).toOption = (assemble m.fields fields).toOption.map .obj := by
  rw [Shape.ofMembers]
  cases assemble m.fields fields <;> rfl

theorem ofMembers_record_perm {name : String} {fields : List Field} {m m' : Members}
    (hm : (m.fields.map (·.1)).Nodup) (h : m.Perm m') :
    ((Shape.record name fields).ofMembers m).toOption = ((Shape.record name fields).ofMembers m').toOption := by
  have hcongr : (assemble m.fields fields).toOption = (assemble m'.fields fields).toOption :=
    assemble_congr fun f _ ↦ by rw [lookup_perm hm h.fields]
  rw [ofMembers_record, ofMembers_record, hcongr]

theorem decodeItems_mem {items : List Tree} {vs : List Json} (hvs : decodeItems number room item items = some vs)
    {t : Tree} (ht : t ∈ items) : ∃ v, decode number room item t = some v := by
  induction items generalizing vs with
  | nil => cases ht
  | cons s items ih =>
    simp only [decodeItems, Option.bind_eq_bind, Option.bind_eq_some_iff] at hvs
    obtain ⟨v, hv, rest, hrest, _⟩ := hvs
    rcases List.mem_cons.1 ht with rfl | ht
    · exact ⟨v, hv⟩
    · exact ih hrest ht

theorem decodeMembers_mem {members : List (Option String × Tree)} {m : Members}
    (hm : decodeMembers number room shape members = some m) {k : Option String} {t : Tree} (ht : (k, t) ∈ members) :
    ∃ name own, k = some name ∧ (shape.purpose name).members name (decode number room · t) = some own := by
  induction members generalizing m with
  | nil => cases ht
  | cons e members ih =>
    obtain ⟨name, own, rest, hk, hown, hrest, _⟩ := decodeMembers_cons_eq_some_iff.1 hm
    rcases List.mem_cons.1 ht with rfl | ht
    · exact ⟨name, own, hk, hown⟩
    · exact ih hrest ht

/-- What can be said instead of one item of a list can be said in the list. -/
theorem decodeItems_replace {l r : List Tree} {t t' : Tree}
    (h : ∀ v, decode number room item t = some v → decode number room item t' = some v) {vs : List Json}
    (hvs : decodeItems number room item (l ++ t :: r) = some vs) :
    decodeItems number room item (l ++ t' :: r) = some vs := by
  induction l generalizing vs with
  | nil =>
    simp only [List.nil_append, decodeItems, Option.bind_eq_bind, Option.bind_eq_some_iff] at hvs ⊢
    obtain ⟨v, hv, hrest⟩ := hvs
    exact ⟨v, h v hv, hrest⟩
  | cons s l ih =>
    simp only [List.cons_append, decodeItems, Option.bind_eq_bind, Option.bind_eq_some_iff] at hvs ⊢
    obtain ⟨v, hv, rest, hrest, hcons⟩ := hvs
    exact ⟨v, hv, rest, ih hrest, hcons⟩

theorem decodeMembers_replace {k : Option String} {l r : List (Option String × Tree)} {t t' : Tree}
    (h : ∀ name own, k = some name → (shape.purpose name).members name (decode number room · t) = some own →
      (shape.purpose name).members name (decode number room · t') = some own) {m : Members}
    (hm : decodeMembers number room shape (l ++ (k, t) :: r) = some m) :
    decodeMembers number room shape (l ++ (k, t') :: r) = some m := by
  induction l generalizing m with
  | nil =>
    obtain ⟨name, own, rest, hk, hown, hrest⟩ := decodeMembers_cons_eq_some_iff.1 hm
    exact decodeMembers_cons_eq_some_iff.2 ⟨name, own, rest, hk, h name own hk hown, hrest⟩
  | cons e l ih =>
    obtain ⟨name, own, rest, hk, hown, hrest, hjoin⟩ := decodeMembers_cons_eq_some_iff.1 hm
    exact decodeMembers_cons_eq_some_iff.2 ⟨name, own, rest, hk, hown, ih hrest, hjoin⟩

theorem decode_list_eq_some_iff {items : List Tree} {v : Json} :
    decode number room (.list item) (.arr items) = some v ↔
      ¬room ≤ 1 ∧ ∃ vs, decodeItems number (room - 1) item items = some vs ∧ .arr vs = v := by
  rw [decode_arr]
  by_cases hroom : room ≤ 1
  · simp [hroom]
  · simp [hroom, Option.map_eq_some_iff]

theorem decodeMembers_map_names {members : List (Option String × Tree)} {m : Members}
    (hm : decodeMembers number room (.map item) members = some m) :
    members.map (·.1) = (m.others.map (·.1)).map some := by
  induction members generalizing m with
  | nil =>
    rw [decodeMembers] at hm
    cases hm
    rfl
  | cons e members ih =>
    obtain ⟨k, own, rest, hk, hown, hrest, hjoin⟩ := decodeMembers_cons_eq_some_iff.1 hm
    obtain ⟨v, _, rfl⟩ := Option.map_eq_some_iff.1 hown
    obtain ⟨_, rfl⟩ := Members.join_eq_some_iff.1 hjoin
    rw [List.map_cons, hk, ih hrest]
    rfl

theorem ofList_perm {l l' : List (String × Json)} (hl : (l.map (·.1)).Nodup) (h : l.Perm l') :
    Dict.ofList l = Dict.ofList l' := by
  refine Dict.ext_get? fun k ↦ ?_
  rw [Dict.get?_ofList, Dict.get?_ofList, ← lookup_eq_find?, ← lookup_eq_find?]
  refine lookup_perm ?_ ((l.reverse_perm.trans h).trans l'.reverse_perm.symm) k
  rw [List.map_reverse]
  exact List.nodup_reverse.2 hl

/-- An edited tree says the same. -/
theorem Edits.decode {t t' : Tree} (h : Edits number room shape t t') {v : Json}
    (hv : Json.decode number room shape t = some v) : Json.decode number room shape t' = some v := by
  induction h generalizing v with
  | permuteRecord h =>
    obtain ⟨hroom, htakes, m, hm, hv⟩ := decode_obj_eq_some_iff.1 hv
    obtain ⟨m', hm', hperm⟩ := decodeMembers_perm h hm
    rw [ofMembers_record_perm (decodeMembers_nodup hm) hperm] at hv
    exact decode_obj_eq_some_iff.2 ⟨hroom, htakes, m', hm', hv⟩
  | permuteMap hd h =>
    obtain ⟨hroom, htakes, m, hm, hv⟩ := decode_obj_eq_some_iff.1 hv
    obtain ⟨m', hm', hperm⟩ := decodeMembers_perm h hm
    rw [decodeMembers_map_names hm] at hd
    have hsame : Dict.ofList m.others = Dict.ofList m'.others := ofList_perm (hd.of_map some) hperm.others
    rw [Shape.ofMembers, hsame] at hv
    exact decode_obj_eq_some_iff.2 ⟨hroom, htakes, m', hm', hv⟩
  | insert hk =>
    obtain ⟨hroom, htakes, m, hm, hv⟩ := decode_obj_eq_some_iff.1 hv
    refine decode_obj_eq_some_iff.2 ⟨hroom, htakes, m, ?_, hv⟩
    rw [← hm]
    refine decodeMembers_append_congr _ ?_
    rw [decodeMembers_cons, Option.bind_some, purpose_unwanted hk, Purpose.members, Option.bind_some,
      Members.bind_none_join]
  | @drop room name k fields item absent l r t hk ht =>
    obtain ⟨hroom, htakes, m, hm, hv⟩ := decode_obj_eq_some_iff.1 hv
    obtain ⟨m', hm', hperm⟩ := decodeMembers_middle _ _ _ hm
    rw [ofMembers_record_perm (decodeMembers_nodup hm) hperm] at hv
    obtain ⟨_, own, rest, heq, hown, hrest, hjoin⟩ := decodeMembers_cons_eq_some_iff.1 hm'
    cases heq
    rw [hk.purpose, Purpose.members, ht] at hown
    cases hown
    obtain ⟨hfresh, rfl⟩ := Members.join_eq_some_iff.1 hjoin
    have hmissing : lookup k rest.fields = none :=
      lookup_eq_none_iff.2 fun e he ↦ (Members.fresh_iff.1 hfresh _ List.mem_cons_self e he).symm
    have hsame : (assemble rest.fields fields).toOption = (assemble ((k, absent) :: rest.fields) fields).toOption := by
      refine assemble_congr fun f hf ↦ ?_
      by_cases hname : f.1 = k
      · rw [hk.2 f hf hname, lookup, if_pos rfl, hmissing]
        rfl
      · rw [lookup, if_neg hname]
    refine decode_obj_eq_some_iff.2 ⟨hroom, htakes, rest, hrest, ?_⟩
    rw [← hv, ofMembers_record, ofMembers_record, hsame]
    rfl
  | item h ih =>
    obtain ⟨hroom, vs, hvs, rfl⟩ := decode_list_eq_some_iff.1 hv
    exact decode_list_eq_some_iff.2 ⟨hroom, vs, decodeItems_replace (fun _ ↦ ih) hvs, rfl⟩
  | entry h ih =>
    obtain ⟨hroom, htakes, m, hm, hv⟩ := decode_obj_eq_some_iff.1 hv
    refine decode_obj_eq_some_iff.2 ⟨hroom, htakes, m, decodeMembers_replace ?_ hm, hv⟩
    intro name own _ hown
    obtain ⟨v, hv, rfl⟩ := Option.map_eq_some_iff.1 hown
    exact Option.map_eq_some_iff.2 ⟨v, ih hv, rfl⟩
  | member hk h ih =>
    obtain ⟨hroom, htakes, m, hm, hv⟩ := decode_obj_eq_some_iff.1 hv
    refine decode_obj_eq_some_iff.2 ⟨hroom, htakes, m, decodeMembers_replace ?_ hm, hv⟩
    rintro _ own ⟨⟩ hown
    rw [hk.purpose] at hown ⊢
    obtain ⟨v, hv, rfl⟩ := Option.map_eq_some_iff.1 hown
    exact Option.map_eq_some_iff.2 ⟨v, ih hv, rfl⟩

theorem decode_edited {t t' : Tree} (h : Relation.ReflTransGen (Edits number room shape) t t') {v : Json}
    (hv : Json.decode number room shape t = some v) : Json.decode number room shape t' = some v := by
  induction h with
  | refl => exact hv
  | tail _ hedit ih => exact hedit.decode ih

/-- A tree that lost a member says nothing any more. -/
theorem Loses.decode {t t' : Tree} (h : Loses shape t t') {v : Json}
    (hv : Json.decode number room shape t = some v) : Json.decode number room shape t' = none := by
  induction h generalizing room v with
  | @required name k fields item l r t hk =>
    obtain ⟨hroom, htakes, m, hm, hv⟩ := decode_obj_eq_some_iff.1 hv
    obtain ⟨m', hm', _⟩ := decodeMembers_middle _ _ _ hm
    obtain ⟨_, own, rest, heq, hown, hrest, hjoin⟩ := decodeMembers_cons_eq_some_iff.1 hm'
    cases heq
    rw [hk.purpose] at hown
    obtain ⟨w, _, rfl⟩ := Option.map_eq_some_iff.1 hown
    obtain ⟨hfresh, _⟩ := Members.join_eq_some_iff.1 hjoin
    have hmissing : lookup k rest.fields = none :=
      lookup_eq_none_iff.2 fun e he ↦ (Members.fresh_iff.1 hfresh _ List.mem_cons_self e he).symm
    rw [decode_obj, if_neg hroom, if_pos htakes, hrest, Option.bind_some, ofMembers_record,
      assemble_missing hk.1 rfl hmissing]
    rfl
  | item h ih =>
    obtain ⟨_, vs, hvs, _⟩ := decode_list_eq_some_iff.1 hv
    obtain ⟨w, hw⟩ := decodeItems_mem hvs (List.mem_append_right _ List.mem_cons_self)
    refine Option.eq_none_iff_forall_ne_some.2 fun v' hv' ↦ ?_
    obtain ⟨_, vs', hvs', _⟩ := decode_list_eq_some_iff.1 hv'
    obtain ⟨w', hw'⟩ := decodeItems_mem hvs' (List.mem_append_right _ List.mem_cons_self)
    cases (ih hw).symm.trans hw'
  | entry h ih =>
    obtain ⟨_, _, m, hm, _⟩ := decode_obj_eq_some_iff.1 hv
    obtain ⟨_, own, _, hown⟩ := decodeMembers_mem hm (List.mem_append_right _ List.mem_cons_self)
    obtain ⟨w, hw, _⟩ := Option.map_eq_some_iff.1 hown
    refine Option.eq_none_iff_forall_ne_some.2 fun v' hv' ↦ ?_
    obtain ⟨_, _, m', hm', _⟩ := decode_obj_eq_some_iff.1 hv'
    obtain ⟨_, own', _, hown'⟩ := decodeMembers_mem hm' (List.mem_append_right _ List.mem_cons_self)
    obtain ⟨w', hw', _⟩ := Option.map_eq_some_iff.1 hown'
    cases (ih hw).symm.trans hw'
  | member hk h ih =>
    obtain ⟨_, _, m, hm, _⟩ := decode_obj_eq_some_iff.1 hv
    obtain ⟨_, own, ⟨⟩, hown⟩ := decodeMembers_mem hm (List.mem_append_right _ List.mem_cons_self)
    rw [hk.purpose] at hown
    obtain ⟨w, hw, _⟩ := Option.map_eq_some_iff.1 hown
    refine Option.eq_none_iff_forall_ne_some.2 fun v' hv' ↦ ?_
    obtain ⟨_, _, m', hm', _⟩ := decode_obj_eq_some_iff.1 hv'
    obtain ⟨_, own', ⟨⟩, hown'⟩ := decodeMembers_mem hm' (List.mem_append_right _ List.mem_cons_self)
    rw [hk.purpose] at hown'
    obtain ⟨w', hw', _⟩ := Option.map_eq_some_iff.1 hown'
    cases (ih hw).symm.trans hw'

end Content

end CloudOffers.Json
