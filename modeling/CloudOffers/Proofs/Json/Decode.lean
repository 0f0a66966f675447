import CloudOffers.Proofs.Json.Grammar
/-!
What a tree says when a shape is asked of it. Unlike the reader this looks at no bytes, and how a number is
made of its parts is left open.
-/

namespace CloudOffers.Json

/-- The number that the reader makes of the parts, if one holds it. -/
def Parts.read? (p : Parts) : Option Number := p.number.toOption

/-- What stands for the fields that a list leaves out. -/
def defaults : List Field → Option (List (String × Json))
  | [] => some []
  | (name, _, absent) :: left => do
    let v ← absent
    some ((name, v) :: (← defaults left))

theorem completeFields_eq (name : String) (fields : List Field) (i : Nat) (left : List Field) :
    (completeFields name fields i left).toOption = defaults left := by
  induction left generalizing i with
  | nil => rfl
  | cons f left ih =>
    obtain ⟨fieldName, shape, _ | v⟩ := f
    · rfl
    · rw [completeFields, defaults, toOption_bind, ih]
      rfl

theorem lookup_eq_none_iff {name : String} {members : List (String × Json)} :
    lookup name members = none ↔ ∀ e ∈ members, e.1 ≠ name := by
  induction members with
  | nil => simp [lookup]
  | cons e members ih =>
    rw [lookup, List.forall_mem_cons, ← ih]
    by_cases h : name = e.1
    · simp [h]
    · simp [h, Ne.symm h]

theorem lookup_append (name : String) (l r : List (String × Json)) :
    lookup name (l ++ r) = (lookup name l).or (lookup name r) := by
  induction l with
  | nil => rfl
  | cons e l ih =>
    rw [List.cons_append, lookup, lookup]
    split
    · rfl
    · exact ih

namespace Members

def none : Members := ⟨[], []⟩

/-- Whether no name is a field on both sides. -/
def fresh (a b : Members) : Bool := b.fields.all (fun e ↦ (lookup e.1 a.fields).isNone)

/-- Both one after the other. A field of the record must not come twice. -/
def join (a b : Members) : Option Members :=
  if a.fresh b then some ⟨a.fields ++ b.fields, a.others ++ b.others⟩ else .none

variable {a b c : Members}

theorem fresh_iff : a.fresh b = true ↔ ∀ e ∈ a.fields, ∀ e' ∈ b.fields, e.1 ≠ e'.1 := by
  simp only [fresh, List.all_eq_true, Option.isNone_iff_eq_none, lookup_eq_none_iff]
  exact ⟨fun h e he e' he' ↦ h e' he' e he, fun h e' he' e he ↦ h e he e' he'⟩

theorem join_eq_some_iff : a.join b = some c ↔
    a.fresh b = true ∧ (⟨a.fields ++ b.fields, a.others ++ b.others⟩ : Members) = c := by
  rw [join]
  split
  · next h => simp [h]
  · next h => simp [h]

theorem join_none (a : Members) : a.join none = some a :=
  join_eq_some_iff.2 ⟨rfl, by simp [none]⟩

theorem none_join (a : Members) : none.join a = some a :=
  join_eq_some_iff.2 ⟨fresh_iff.2 nofun, rfl⟩

theorem join_assoc (a b c : Members) : (b.join c).bind a.join = (a.join b).bind (·.join c) := by
  ext m
  simp only [Option.bind_eq_some_iff, join_eq_some_iff, fresh_iff]
  constructor
  · rintro ⟨_, ⟨hbc, rfl⟩, ha, rfl⟩
    refine ⟨_, ⟨fun e he e' he' ↦ ha e he e' (List.mem_append_left _ he'), rfl⟩, fun e he e' he' ↦ ?_, ?_⟩
    · rcases List.mem_append.1 he with he | he
      · exact ha e he e' (List.mem_append_right _ he')
      · exact hbc e he e' he'
    · simp only [List.append_assoc]
  · rintro ⟨_, ⟨hab, rfl⟩, hc, rfl⟩
    refine ⟨_, ⟨fun e he e' he' ↦ hc e (List.mem_append_right _ he) e' he', rfl⟩, fun e he e' he' ↦ ?_, ?_⟩
    · rcases List.mem_append.1 he' with he' | he'
      · exact hab e he e' he'
      · exact hc e (List.mem_append_left _ he) e' he'
    · simp only [List.append_assoc]

theorem bind_none_join (o : Option Members) : o.bind none.join = o := by
  cases o with
  | none => rfl
  | some m => exact none_join m

theorem bind_join (a b : Members) (o : Option Members) :
    (o.bind b.join).bind a.join = (a.join b).bind (fun ab ↦ o.bind ab.join) := by
  cases o with
  | none => cases a.join b <;> rfl
  | some c => exact join_assoc a b c

theorem join_field {name : String} (v : Json) (h : lookup name a.fields = .none) :
    a.join ⟨[(name, v)], []⟩ = some { a with fields := a.fields ++ [(name, v)] } :=
  join_eq_some_iff.2 ⟨by simp [fresh, h], by simp⟩

theorem join_field_again {name : String} (v : Json) (h : lookup name a.fields ≠ .none) :
    a.join ⟨[(name, v)], []⟩ = .none :=
  if_neg (by simp [fresh, h])

theorem join_other (a : Members) (name : String) (v : Json) :
    a.join ⟨[], [(name, v)]⟩ = some { a with others := a.others ++ [(name, v)] } :=
  join_eq_some_iff.2 ⟨rfl, by simp⟩

end Members

/-- What a member brings: a field, another member, or nothing. -/
def Purpose.members (name : String) (value : Shape → Option Json) : Purpose → Option Members
  | .field item => (value item).map (fun v ↦ ⟨[(name, v)], []⟩)
  | .other item => (value item).map (fun v ↦ ⟨[], [(name, v)]⟩)
  | .unwanted => some Members.none

section

variable (number : Parts → Option Number)

/-- What a tree that is no list and no object says by itself. -/
def Tree.scalar? : Tree → Option Json
  | .null => some .null
  | .bool b => some (.bool b)
  | .num p => (number p).map .num
  | .str s => s.map .str
  | _ => none

mutual

/-- The value that a tree stands for under a shape; `room` is how many levels may still open. -/
def decode (room : Nat) (shape : Shape) : Tree → Option Json
  | .arr items =>
    if room ≤ 1 then none
    else match shape with
      | .any => (decodeItems (room - 1) .any items).map .arr
      | .list item => (decodeItems (room - 1) item items).map .arr
      | .record _ fields => (decodeFields (room - 1) fields items).map .obj
      | _ => none
  | .obj members =>
    if room ≤ 1 then none
    else if shape.takesObject then do (shape.ofMembers (← decodeMembers (room - 1) shape members)).toOption
    else none
  | t => do (shape.ofScalar (← t.scalar? number)).toOption

def decodeItems (room : Nat) (item : Shape) : List Tree → Option (List Json)
  | [] => some []
  | t :: items => do
    let v ← decode room item t
    some (v :: (← decodeItems room item items))

def decodeFields (room : Nat) : List Field → List Tree → Option (List (String × Json))
  | left, [] => defaults left
  | [], _ :: _ => none
  | (name, shape, _) :: left, t :: items => do
    let v ← decode room shape t
    some ((name, v) :: (← decodeFields room left items))

def decodeMembers (room : Nat) (shape : Shape) : List (Option String × Tree) → Option Members
  | [] => some Members.none
  | (name, t) :: members => do
    let name ← name
    let own ← (shape.purpose name).members name (fun item ↦ decode room item t)
    own.join (← decodeMembers room shape members)

end

theorem decode_arr (room : Nat) (shape : Shape) (items : List Tree) :
    decode number room shape (.arr items) =
      if room ≤ 1 then none
      else match shape with
        | .any => (decodeItems number (room - 1) .any items).map .arr
        | .list item => (decodeItems number (room - 1) item items).map .arr
        | .record _ fields => (decodeFields number (room - 1) fields items).map .obj
        | _ => none := by
  rw [decode.eq_def]

theorem decode_obj (room : Nat) (shape : Shape) (members : List (Option String × Tree)) :
    decode number room shape (.obj members) =
      if room ≤ 1 then none
      else if shape.takesObject then
        (decodeMembers number (room - 1) shape members).bind (fun m ↦ (shape.ofMembers m).toOption)
      else none := by
  rw [decode.eq_def]
  rfl

theorem decodeMembers_cons (room : Nat) (shape : Shape) (name : Option String) (t : Tree)
    (members : List (Option String × Tree)) :
    decodeMembers number room shape ((name, t) :: members) =
      name.bind (fun name ↦ ((shape.purpose name).members name (decode number room · t)).bind (fun own ↦
        (decodeMembers number room shape members).bind own.join)) := by
  rw [decodeMembers]
  rfl

end

end CloudOffers.Json
