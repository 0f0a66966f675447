import CloudOffers.Proofs.Json.Lexeme
import CloudOffers.Json.Reader
/-!
The grammar of JSON: which bytes write which tree. A value takes the bytes up to some point; the relations
hold between what is left before and after it. No bytes write two trees.
-/

namespace CloudOffers.Json

/-- What is written, before anything is made of it: a number by its parts, a text by its characters.
A text of which no characters can be made is written all the same. -/
inductive Tree where
  | null
  | bool (b : Bool)
  | num (p : Parts)
  | str (s : Option String)
  | arr (items : List Tree)
  | obj (members : List (Option String × Tree))

/-- The bytes of a tree that is no list and no object. -/
inductive Token : Tree → Bytes → Prop
  | null : Token .null [0x6e, 0x75, 0x6c, 0x6c]
  | yes : Token (.bool true) [0x74, 0x72, 0x75, 0x65]
  | no : Token (.bool false) [0x66, 0x61, 0x6c, 0x73, 0x65]
  | num {p : Parts} {ds : Bytes} (h : Writes p ds) : Token (.num p) ds
  | str {raw : Bytes} (h : IsBody raw) : Token (.str (textOf raw)) (0x22 :: (raw ++ [0x22]))

/-- A comma stands before each item of a list, or member of an object, but the first. -/
inductive Separated : Bool → Bytes → Bytes → Prop
  | start {bs : Bytes} : Separated true bs bs
  | comma {bs after : Bytes} (h : skipBlanks bs = 0x2c :: after) : Separated false bs after

mutual

inductive Value : Tree → Bytes → Bytes → Prop
  | token {t : Tree} {bs ds rest : Bytes} (h : skipBlanks bs = ds ++ rest) (ht : Token t ds) :
      Value t bs rest
  | arr {items : List Tree} {bs after rest : Bytes} (h : skipBlanks bs = 0x5b :: after)
      (hi : Items true items after rest) : Value (.arr items) bs rest
  | obj {members : List (Option String × Tree)} {bs after rest : Bytes}
      (h : skipBlanks bs = 0x7b :: after) (hm : Entries true members after rest) :
      Value (.obj members) bs rest

inductive Items : Bool → List Tree → Bytes → Bytes → Prop
  | nil {first : Bool} {bs rest : Bytes} (h : skipBlanks bs = 0x5d :: rest) : Items first [] bs rest
  | cons {first : Bool} {t : Tree} {items : List Tree} {bs start after rest : Bytes}
      (hs : Separated first bs start) (ht : Value t start after) (hi : Items false items after rest) :
      Items first (t :: items) bs rest

inductive Entries : Bool → List (Option String × Tree) → Bytes → Bytes → Prop
  | nil {first : Bool} {bs rest : Bytes} (h : skipBlanks bs = 0x7d :: rest) : Entries first [] bs rest
  | cons {first : Bool} {t : Tree} {members : List (Option String × Tree)}
      {bs start raw named colon after rest : Bytes} (hs : Separated first bs start)
      (hq : skipBlanks start = 0x22 :: (raw ++ 0x22 :: named)) (hr : IsBody raw)
      (hc : skipBlanks named = 0x3a :: colon) (ht : Value t colon after)
      (hm : Entries false members after rest) : Entries first ((textOf raw, t) :: members) bs rest

end

/-- The bytes are one value and blanks around it. -/
def Spells (t : Tree) (bs : Bytes) : Prop := ∃ rest, Value t bs rest ∧ skipBlanks rest = []

section Blanks

variable {bs rest : Bytes}

theorem length_skipBlanks_le (bs : Bytes) : (skipBlanks bs).length ≤ bs.length :=
  (List.dropWhile_sublist _).length_le

theorem skipBlanks_eq_self (h : ∀ b ∈ bs.head?, isBlank b = false) : skipBlanks bs = bs := by
  cases bs with
  | nil => rfl
  | cons b bs => rw [skipBlanks, List.dropWhile_cons, h b rfl]; rfl

theorem isBlank_head_skipBlanks (bs : Bytes) : ∀ b ∈ (skipBlanks bs).head?, isBlank b = false := by
  induction bs with
  | nil => exact nofun
  | cons b bs ih =>
    rw [skipBlanks, List.dropWhile_cons]
    split
    · exact ih
    · next hb => rintro _ ⟨⟩; exact Bool.not_eq_true _ ▸ hb

theorem skipBlanks_skipBlanks (bs : Bytes) : skipBlanks (skipBlanks bs) = skipBlanks bs :=
  skipBlanks_eq_self (isBlank_head_skipBlanks bs)

/-- Blanks, and what is no blank and no part of a number, continue none. -/
theorem ends_of_skipBlanks (h : Ends (skipBlanks bs)) : Ends bs := by
  cases bs with
  | nil => exact nofun
  | cons b bs =>
    rw [skipBlanks, List.dropWhile_cons] at h
    split at h
    · next hb =>
      rintro _ ⟨⟩
      simp only [isBlank, Bool.or_eq_true, decide_eq_true_eq] at hb
      rcases hb with ((rfl | rfl) | rfl) | rfl <;> decide
    · exact h

end Blanks

section Lengths

variable {bs rest : Bytes} {first : Bool}

theorem Writes.ne_nil {p : Parts} {ds : Bytes} (h : Writes p ds) : ds ≠ [] := by
  cases h with
  | intro hs hw hf he =>
    obtain ⟨d, ds, rfl, _⟩ := hw.head
    simp

theorem Token.ne_nil {t : Tree} {ds : Bytes} (h : Token t ds) : ds ≠ [] := by
  cases h with
  | num h => exact h.ne_nil
  | _ => exact nofun

theorem length_lt_of_skipBlanks {b : UInt8} {after : Bytes} (h : skipBlanks bs = b :: after) :
    after.length < bs.length := by
  have hle := length_skipBlanks_le bs
  rw [h] at hle
  exact hle

theorem Separated.length_le {start : Bytes} (h : Separated first bs start) : start.length ≤ bs.length := by
  cases h with
  | start => exact Nat.le_refl _
  | comma h => exact Nat.le_of_lt (length_lt_of_skipBlanks h)

mutual

theorem Value.length_lt : ∀ {t : Tree} {bs rest : Bytes}, Value t bs rest → rest.length < bs.length
  | _, bs, rest, @Value.token _ _ ds _ h ht => by
    have hle := length_skipBlanks_le bs
    have hpos := List.length_pos_iff.2 ht.ne_nil
    rw [h, List.length_append] at hle
    omega
  | _, _, _, .arr h hi => Nat.lt_trans hi.length_lt (length_lt_of_skipBlanks h)
  | _, _, _, .obj h hm => Nat.lt_trans hm.length_lt (length_lt_of_skipBlanks h)

theorem Items.length_lt : ∀ {first : Bool} {items : List Tree} {bs rest : Bytes},
    Items first items bs rest → rest.length < bs.length
  | _, _, _, _, .nil h => length_lt_of_skipBlanks h
  | _, _, _, _, .cons hs ht hi => Nat.lt_trans hi.length_lt (Nat.lt_of_lt_of_le ht.length_lt hs.length_le)

theorem Entries.length_lt : ∀ {first : Bool} {members : List (Option String × Tree)} {bs rest : Bytes},
    Entries first members bs rest → rest.length < bs.length
  | _, _, _, _, .nil h => length_lt_of_skipBlanks h
  | _, _, _, _, .cons hs hq hr hc ht hm => by
    have hstart := hs.length_le
    have hname := length_lt_of_skipBlanks hq
    have hcolon := length_lt_of_skipBlanks hc
    have hvalue := ht.length_lt
    have hmembers := hm.length_lt
    rw [List.length_append, List.length_cons] at hname
    omega

end

end Lengths

section Heads

variable {bs rest : Bytes}

theorem Writes.head {p : Parts} {ds : Bytes} (h : Writes p ds) :
    ∃ b ds', ds = b :: ds' ∧ (b = 0x2d ∨ isDigit b = true) := by
  cases h with
  | intro hs hw hf he =>
    cases hs with
    | minus => exact ⟨_, _, rfl, .inl rfl⟩
    | plus =>
      obtain ⟨d, ds, rfl, hd⟩ := hw.head
      exact ⟨d, _, rfl, .inr hd⟩

/-- What a list or an object may be told by is the start of no other value. -/
theorem Token.head {t : Tree} {ds : Bytes} (h : Token t ds) :
    ∃ b ds', ds = b :: ds' ∧ isBlank b = false ∧ b ∉ [0x5b, 0x7b, 0x5d, 0x7d, 0x2c] := by
  have hdigit {b : UInt8} (hb : isDigit b = true) : isBlank b = false ∧ b ∉ [0x5b, 0x7b, 0x5d, 0x7d, 0x2c] := by
    constructor
    · refine Bool.eq_false_iff.2 fun hblank ↦ ?_
      simp only [isBlank, Bool.or_eq_true, decide_eq_true_eq] at hblank
      rcases hblank with ((rfl | rfl) | rfl) | rfl <;> cases hb
    · simp only [List.mem_cons, List.not_mem_nil, or_false]
      rintro (rfl | rfl | rfl | rfl | rfl) <;> cases hb
  cases h with
  | num h =>
    obtain ⟨b, ds', rfl, rfl | hb⟩ := h.head
    · exact ⟨_, _, rfl, by decide⟩
    · exact ⟨b, ds', rfl, hdigit hb⟩
  | _ => exact ⟨_, _, rfl, by decide⟩

theorem Value.head {t : Tree} (h : Value t bs rest) :
    ∃ b after, skipBlanks bs = b :: after ∧ b ∉ [0x5d, 0x7d, 0x2c] := by
  cases h with
  | token h ht =>
    obtain ⟨b, ds', rfl, _, hb⟩ := ht.head
    exact ⟨b, _, h, fun hmem ↦ hb (List.mem_cons_of_mem _ (List.mem_cons_of_mem _ hmem))⟩
  | arr h | obj h => exact ⟨_, _, h, by decide⟩

/-- What goes on with an item has not come to its end. -/
theorem Separated.not_closed {first : Bool} {start : Bytes} (h : Separated first bs start)
    (hstart : ∃ b after, skipBlanks start = b :: after ∧ b ∉ [0x5d, 0x7d, 0x2c]) {c : UInt8}
    (hc : skipBlanks bs = c :: rest) (hmem : c ∈ [0x5d, 0x7d]) : False := by
  cases h with
  | start =>
    obtain ⟨b, after, hb, hne⟩ := hstart
    obtain rfl := (List.cons.inj (hb.symm.trans hc)).1
    exact hne (List.mem_append_left [0x2c] hmem)
  | comma h =>
    obtain rfl := (List.cons.inj (h.symm.trans hc)).1
    exact absurd hmem (by decide)

/-- What parts or closes a list or an object continues nothing. -/
theorem ends_of_mem {b : UInt8} (h : skipBlanks bs = b :: rest) (hb : b ∈ [0x5d, 0x7d, 0x2c]) : Ends bs := by
  refine ends_of_skipBlanks fun c hc ↦ ?_
  rw [h] at hc
  cases hc
  simp only [List.mem_cons, List.not_mem_nil, or_false] at hb
  rcases hb with rfl | rfl | rfl <;> decide

theorem Separated.ends {start : Bytes} (h : Separated false bs start) : Ends bs := by
  cases h with
  | comma h => exact ends_of_mem h (by decide)

theorem Items.ends {items : List Tree} (h : Items false items bs rest) : Ends bs := by
  cases h with
  | nil h => exact ends_of_mem h (by decide)
  | cons hs => exact hs.ends

theorem Entries.ends {members : List (Option String × Tree)} (h : Entries false members bs rest) :
    Ends bs := by
  cases h with
  | nil h => exact ends_of_mem h (by decide)
  | cons hs => exact hs.ends

end Heads

section Unambiguity

theorem Separated.unique {first : Bool} {bs start start' : Bytes} (h : Separated first bs start)
    (h' : Separated first bs start') : start = start' := by
  cases h with
  | start => cases h'; rfl
  | comma h =>
    cases h' with
    | comma h' => exact (List.cons.inj (h.symm.trans h')).2

theorem IsBody.unique {raw raw' rest rest' : Bytes} (h : IsBody raw) (h' : IsBody raw')
    (heq : raw ++ 0x22 :: rest = raw' ++ 0x22 :: rest') : raw = raw' ∧ rest = rest' := by
  have hread : skipText (raw.length + 1 + raw'.length) (raw ++ 0x22 :: rest) = .ok rest := skipText_append h (by omega)
  rw [heq, skipText_append h' (by omega)] at hread
  cases hread
  exact ⟨List.append_cancel_right heq, rfl⟩

theorem Writes.unique {p p' : Parts} {ds ds' rest rest' : Bytes} (h : Writes p ds) (h' : Writes p' ds')
    (heq : ds ++ rest = ds' ++ rest') (hrest : Ends rest) (hrest' : Ends rest') : p = p' ∧ rest = rest' := by
  have hread := readParts_append h hrest
  rw [heq, readParts_append h' hrest'] at hread
  cases hread
  exact ⟨rfl, rfl⟩

theorem Token.unique {t t' : Tree} {ds ds' rest rest' : Bytes} (h : Token t ds) (h' : Token t' ds')
    (heq : ds ++ rest = ds' ++ rest') (hrest : Ends rest) (hrest' : Ends rest') : t = t' ∧ rest = rest' := by
  -- a number is told by its first byte
  have hnum {p : Parts} {ds ds' : Bytes} {b : UInt8} (hp : Writes p ds)
      (heq : ds ++ rest = b :: ds' ∨ ds ++ rest' = b :: ds') (hb : b ∈ [0x6e, 0x74, 0x66, 0x22]) : False := by
    obtain ⟨b', ds', rfl, hhead⟩ := hp.head
    obtain rfl : b' = b := heq.elim (fun h ↦ (List.cons.inj h).1) fun h ↦ (List.cons.inj h).1
    simp only [List.mem_cons, List.not_mem_nil, or_false] at hb
    rcases hb with rfl | rfl | rfl | rfl <;> exact absurd hhead (by decide)
  cases h with
  | num hp =>
    cases h' with
    | num hp' =>
      obtain ⟨rfl, hrest⟩ := hp.unique hp' heq hrest hrest'
      exact ⟨rfl, hrest⟩
    | _ => exact (hnum hp (.inl heq) (by decide)).elim
  | str hr =>
    cases h' with
    | num hp' => exact (hnum hp' (.inr heq.symm) (by decide)).elim
    | str hr' =>
      simp only [List.cons_append, List.append_assoc, List.nil_append] at heq
      obtain ⟨rfl, hrest⟩ := hr.unique hr' (List.cons.inj heq).2
      exact ⟨rfl, hrest⟩
    | _ => cases heq
  | _ =>
    cases h' with
    | num hp' => exact (hnum hp' (.inr heq.symm) (by decide)).elim
    | _ => cases heq <;> exact ⟨rfl, rfl⟩

mutual

theorem Value.unique : ∀ {t t' : Tree} {bs rest rest' : Bytes}, Value t bs rest → Value t' bs rest' →
    Ends rest → Ends rest' → t = t' ∧ rest = rest'
  | _, _, _, _, _, .token h ht, .token h' ht', hrest, hrest' =>
    ht.unique ht' (h.symm.trans h') hrest hrest'
  | _, _, _, _, _, .arr h hi, .arr h' hi', _, _ => by
    obtain rfl := (List.cons.inj (h.symm.trans h')).2
    obtain ⟨rfl, rfl⟩ := hi.unique hi'
    exact ⟨rfl, rfl⟩
  | _, _, _, _, _, .obj h hm, .obj h' hm', _, _ => by
    obtain rfl := (List.cons.inj (h.symm.trans h')).2
    obtain ⟨rfl, rfl⟩ := hm.unique hm'
    exact ⟨rfl, rfl⟩
  | _, _, _, _, _, .token h ht, .arr h' _, _, _ | _, _, _, _, _, .token h ht, .obj h' _, _, _
  | _, _, _, _, _, .arr h' _, .token h ht, _, _ | _, _, _, _, _, .obj h' _, .token h ht, _, _ => by
    obtain ⟨b, ds, rfl, _, hb⟩ := ht.head
    obtain rfl := (List.cons.inj (h.symm.trans h')).1
    exact absurd hb (by decide)
  | _, _, _, _, _, .arr h _, .obj h' _, _, _ | _, _, _, _, _, .obj h _, .arr h' _, _, _ => by
    exact absurd (List.cons.inj (h.symm.trans h')).1 (by decide)

theorem Items.unique : ∀ {first : Bool} {items items' : List Tree} {bs rest rest' : Bytes},
    Items first items bs rest → Items first items' bs rest' → items = items' ∧ rest = rest'
  | _, _, _, _, _, _, .nil h, .nil h' => ⟨rfl, (List.cons.inj (h.symm.trans h')).2⟩
  | _, _, _, _, _, _, .cons hs ht hi, .cons hs' ht' hi' => by
    obtain rfl := hs.unique hs'
    obtain ⟨rfl, rfl⟩ := ht.unique ht' hi.ends hi'.ends
    obtain ⟨rfl, rfl⟩ := hi.unique hi'
    exact ⟨rfl, rfl⟩
  | _, _, _, _, _, _, .nil h, .cons hs ht _ | _, _, _, _, _, _, .cons hs ht _, .nil h =>
    (hs.not_closed ht.head h (by decide)).elim

theorem Entries.unique : ∀ {first : Bool} {members members' : List (Option String × Tree)}
    {bs rest rest' : Bytes}, Entries first members bs rest → Entries first members' bs rest' →
    members = members' ∧ rest = rest'
  | _, _, _, _, _, _, .nil h, .nil h' => ⟨rfl, (List.cons.inj (h.symm.trans h')).2⟩
  | _, _, _, _, _, _, .cons hs hq hr hc ht hm, .cons hs' hq' hr' hc' ht' hm' => by
    obtain rfl := hs.unique hs'
    obtain ⟨rfl, rfl⟩ := hr.unique hr' (List.cons.inj (hq.symm.trans hq')).2
    obtain rfl := (List.cons.inj (hc.symm.trans hc')).2
    obtain ⟨rfl, rfl⟩ := ht.unique ht' hm.ends hm'.ends
    obtain ⟨rfl, rfl⟩ := hm.unique hm'
    exact ⟨rfl, rfl⟩
  | _, _, _, _, _, _, .nil h, .cons hs hq _ _ _ _ | _, _, _, _, _, _, .cons hs hq _ _ _ _, .nil h =>
    (hs.not_closed ⟨_, _, hq, by decide⟩ h (by decide)).elim

end

/-- No bytes spell two trees. -/
theorem Spells.unique {t t' : Tree} {bs : Bytes} (h : Spells t bs) (h' : Spells t' bs) : t = t' := by
  obtain ⟨rest, hv, hrest⟩ := h
  obtain ⟨rest', hv', hrest'⟩ := h'
  exact (hv.unique hv' (ends_of_skipBlanks (hrest ▸ nofun)) (ends_of_skipBlanks (hrest' ▸ nofun))).1

end Unambiguity

end CloudOffers.Json
