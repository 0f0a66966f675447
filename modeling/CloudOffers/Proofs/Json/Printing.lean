import CloudOffers.Json.Printer
import CloudOffers.Proofs.Json.Grammar
/-!
What is printed is JSON: the compact and the indented text of a value both spell its tree. A text says what
was quoted, whatever characters that has.
-/

namespace CloudOffers.Json

def encode (cs : List Char) : Bytes := cs.flatMap String.utf8EncodeChar

section Encoding

theorem toList_eq (b : ByteArray) : b.toList = b.data.toList := by
  have hloop (i : Nat) (r : Bytes) : ByteArray.toList.loop b i r = r.reverse ++ b.data.toList.drop i := by
    induction i, r using ByteArray.toList.loop.induct b with
    | case1 i r hlt ih =>
      have hlist : i < b.data.toList.length := hlt
      have hget : b.get! i = b.data.toList[i] := getElem!_pos b.data i hlt
      rw [ByteArray.toList.loop, if_pos hlt, ih, List.drop_eq_getElem_cons hlist, List.reverse_cons,
        List.append_assoc, hget]
      rfl
    | case2 i r hge =>
      rw [ByteArray.toList.loop, if_neg hge, List.drop_eq_nil_of_le (Nat.le_of_not_lt hge), List.append_nil]
  rw [ByteArray.toList, hloop, List.drop_zero]
  rfl

theorem bytes_eq (s : String) : bytes s = encode s.toList := by
  rw [bytes, toList_eq, String.toUTF8_eq_toByteArray, ← String.utf8Encode_toList, List.utf8Encode,
    List.toList_data_toByteArray]
  rfl

theorem bytes_ofList (cs : List Char) : bytes (String.ofList cs) = encode cs := by
  rw [bytes_eq, String.toList_ofList]

theorem fromUTF8?_encode (s : String) : String.fromUTF8? ⟨(encode s.toList).toArray⟩ = some s := by
  have hbytes : (⟨(encode s.toList).toArray⟩ : ByteArray) = s.toByteArray := by
    rw [← String.utf8Encode_toList, List.utf8Encode, ByteArray.ext_iff, List.data_toByteArray]
    rfl
  rw [hbytes, String.fromUTF8?, dif_pos s.isValidUTF8]
  rfl

theorem encode_append (cs ds : List Char) : encode (cs ++ ds) = encode cs ++ encode ds := List.flatMap_append

theorem encode_cons (c : Char) (cs : List Char) : encode (c :: cs) = String.utf8EncodeChar c ++ encode cs := rfl

end Encoding

section Texts

/-- A byte that stands for itself between quotes. -/
def IsPlain (b : UInt8) : Prop := ¬b < 0x20 ∧ b ≠ 0x22 ∧ b ≠ 0x5c

theorem IsPlain.of_toNat {b : UInt8} (h : 32 ≤ b.toNat) (hq : b.toNat ≠ 34) (hs : b.toNat ≠ 92) : IsPlain b := by
  refine ⟨fun hlt ↦ ?_, fun heq ↦ hq (congrArg UInt8.toNat heq), fun heq ↦ hs (congrArg UInt8.toNat heq)⟩
  exact absurd (UInt8.lt_iff_toNat_lt.1 hlt) (Nat.not_lt.2 h)

theorem isPlain_utf8EncodeChar {c : Char} (h : 32 ≤ c.toNat) (hq : c.toNat ≠ 34) (hs : c.toNat ≠ 92) :
    ∀ b ∈ String.utf8EncodeChar c, IsPlain b := by
  intro b hb
  rw [String.utf8EncodeChar.eq_def] at hb
  simp only at hb
  change 32 ≤ c.val.toNat at h
  change c.val.toNat ≠ 34 at hq
  change c.val.toNat ≠ 92 at hs
  split at hb
  · simp only [List.mem_singleton] at hb
    subst hb
    apply IsPlain.of_toNat <;> simp only [UInt8.toNat_ofNat'] <;> omega
  split at hb
  · simp only [List.mem_cons, List.not_mem_nil, or_false] at hb
    rcases hb with rfl | rfl <;> apply IsPlain.of_toNat <;> simp only [UInt8.toNat_ofNat'] <;> omega
  split at hb
  · simp only [List.mem_cons, List.not_mem_nil, or_false] at hb
    rcases hb with rfl | rfl | rfl <;> apply IsPlain.of_toNat <;> simp only [UInt8.toNat_ofNat'] <;> omega
  · simp only [List.mem_cons, List.not_mem_nil, or_false] at hb
    rcases hb with rfl | rfl | rfl | rfl <;> apply IsPlain.of_toNat <;> simp only [UInt8.toNat_ofNat'] <;> omega

theorem isBody_append_of_plain {ds raw : Bytes} (hd : ∀ b ∈ ds, IsPlain b) (hr : IsBody raw) : IsBody (ds ++ raw) := by
  induction ds with
  | nil => exact hr
  | cons d ds ih =>
    obtain ⟨⟨h, hq, hs⟩, hd⟩ := List.forall_mem_cons.1 hd
    exact .plain h hq hs (ih hd)

theorem readTextBytes_plain {ds bs : Bytes} (hd : ∀ b ∈ ds, IsPlain b) (fuel : Nat) :
    readTextBytes (ds.length + fuel) (ds ++ bs) = (readTextBytes fuel bs).map (fun r ↦ (ds ++ r.1, r.2)) := by
  induction ds with
  | nil =>
    rw [List.length_nil, Nat.zero_add, List.nil_append]
    cases readTextBytes fuel bs <;> rfl
  | cons d ds ih =>
    obtain ⟨⟨h, hq, hs⟩, hd⟩ := List.forall_mem_cons.1 hd
    rw [List.length_cons, Nat.succ_add, List.cons_append, readTextBytes, if_neg hq, if_neg hs, if_neg h, ih hd]
    cases readTextBytes fuel bs <;> rfl

/-- What an escaped character is between the quotes, and what it is read as. -/
structure Escapes (raw char : Bytes) : Prop where
  body : ∀ rest, IsBody rest → IsBody (raw ++ rest)
  read : ∃ steps, steps ≤ raw.length ∧ ∀ fuel rest, readTextBytes (steps + fuel) (raw ++ rest) =
    (readTextBytes fuel rest).map (fun r ↦ (char ++ r.1, r.2))

theorem Escapes.of_plain {ds : Bytes} (hd : ∀ b ∈ ds, IsPlain b) : Escapes ds ds :=
  ⟨fun _ ↦ isBody_append_of_plain hd, ds.length, Nat.le_refl _, fun fuel _ ↦ readTextBytes_plain hd fuel⟩

theorem readTextBytes_escape {bs rest char : Bytes} (h : readEscape bs = .ok (char, rest)) (fuel : Nat) :
    readTextBytes (1 + fuel) (0x5c :: bs) = (readTextBytes fuel rest).map (fun r ↦ (char ++ r.1, r.2)) := by
  rw [Nat.add_comm, readTextBytes, if_neg (by decide), if_pos rfl, h, ok_bind]
  simp only
  cases readTextBytes fuel rest <;> rfl

theorem Escapes.short {b : UInt8} {char : Bytes} (hb : b ∈ [0x22, 0x5c, 0x2f, 0x62, 0x66, 0x6e, 0x72, 0x74])
    (h : ∀ rest, readEscape (b :: rest) = .ok (char, rest)) : Escapes [0x5c, b] char :=
  ⟨fun _ hr ↦ .short hb hr, 1, Nat.le_succ 1, fun fuel rest ↦ readTextBytes_escape (h rest) fuel⟩

theorem hexValue?_hexDigit {n : Nat} (hn : n < 16) :
    ∃ b, String.utf8EncodeChar (hexDigit n) = [b] ∧ hexValue? b = some n := by
  have hall : ∀ n : Fin 16, (String.utf8EncodeChar (hexDigit n)).map hexValue? = [some n.val] := by decide
  obtain ⟨b, hb, hv⟩ := List.map_eq_singleton_iff.1 (hall ⟨n, hn⟩)
  exact ⟨b, hb, hv⟩

theorem Escapes.code {c : Char} (hc : c.toNat < 32) :
    Escapes (encode ['\\', 'u', '0', '0', hexDigit (c.toNat / 16), hexDigit (c.toNat % 16)]) (encode [c]) := by
  obtain ⟨a, ha, hav⟩ := hexValue?_hexDigit (show c.toNat / 16 < 16 by omega)
  obtain ⟨b, hb, hbv⟩ := hexValue?_hexDigit (show c.toNat % 16 < 16 by omega)
  have hencode : encode ['\\', 'u', '0', '0', hexDigit (c.toNat / 16), hexDigit (c.toNat % 16)] =
      [0x5c, 0x75, 0x30, 0x30, a, b] := by
    simp only [encode, List.flatMap_cons, List.flatMap_nil, ha, hb]
    rfl
  have hzero : hexValue? 0x30 = some 0 := rfl
  rw [hencode]
  refine ⟨fun _ hr ↦ .code (by simp [hav, hbv, hzero]) hr, 1, Nat.le_add_left ..,
    fun fuel rest ↦ readTextBytes_escape ?_ fuel⟩
  have hn : 0 * 4096 + 0 * 256 + c.toNat / 16 * 16 + c.toNat % 16 = c.toNat := by omega
  have hread : readHex (0x30 :: 0x30 :: a :: b :: rest) = .ok (c.toNat, rest) := by
    rw [readHex, hzero, hav, hbv]
    simp only
    rw [hn]
  have hunicode : readUnicode (0x30 :: 0x30 :: a :: b :: rest) = .ok (utf8 c.toNat, rest) := by
    rw [readUnicode, hread, ok_bind]
    simp only
    rw [if_neg (by simp; omega), if_neg (by simp; omega)]
  have hutf8 : utf8 c.toNat = encode [c] := by
    rw [utf8, Char.ofNat_toNat, encode, List.flatMap_cons, List.flatMap_nil, List.append_nil]
  rw [← hutf8]
  exact hunicode

theorem escapes (c : Char) : Escapes (encode (escape c)) (encode [c]) := by
  rw [escape]
  split
  · next h => subst h; exact .short (by decide) fun _ ↦ rfl
  split
  · next h => subst h; exact .short (by decide) fun _ ↦ rfl
  split
  · next h => subst h; exact .short (by decide) fun _ ↦ rfl
  split
  · next h => subst h; exact .short (by decide) fun _ ↦ rfl
  split
  · next h => subst h; exact .short (by decide) fun _ ↦ rfl
  split
  · next h =>
    obtain rfl : c = Char.ofNat 8 := by rw [← h, Char.ofNat_toNat]
    exact .short (by decide) fun _ ↦ rfl
  split
  · next h =>
    obtain rfl : c = Char.ofNat 12 := by rw [← h, Char.ofNat_toNat]
    exact .short (by decide) fun _ ↦ rfl
  split
  · next h => exact .code h
  · next hq hs _ _ _ _ _ h =>
    have hne {d : Char} (h : c ≠ d) : c.toNat ≠ d.toNat := fun heq ↦ h (Char.toNat_inj.1 heq)
    rw [encode, List.flatMap_cons, List.flatMap_nil, List.append_nil]
    exact .of_plain (isPlain_utf8EncodeChar (by omega) (hne hq) (hne hs))

theorem isBody_escape (cs : List Char) : IsBody (encode (cs.flatMap escape)) := by
  induction cs with
  | nil => exact .nil
  | cons c cs ih =>
    rw [List.flatMap_cons, encode_append]
    exact (escapes c).body _ ih

theorem readTextBytes_escapes (cs : List Char) (rest : Bytes) {fuel : Nat}
    (hfuel : (encode (cs.flatMap escape)).length < fuel) :
    readTextBytes fuel (encode (cs.flatMap escape) ++ 0x22 :: rest) = .ok (encode cs, rest) := by
  induction cs generalizing fuel with
  | nil =>
    obtain ⟨fuel, rfl⟩ := Nat.exists_eq_succ_of_ne_zero (Nat.ne_zero_of_lt hfuel)
    rfl
  | cons c cs ih =>
    obtain ⟨steps, hsteps, hread⟩ := (escapes c).read
    rw [List.flatMap_cons, encode_append, List.length_append] at hfuel
    obtain ⟨fuel, rfl⟩ := Nat.exists_eq_add_of_le (show steps ≤ fuel by omega)
    rw [List.flatMap_cons, encode_append, List.append_assoc, hread, ih (by omega),
      show c :: cs = [c] ++ cs from rfl, encode_append]
    rfl

/-- A quoted text says what was quoted. -/
theorem textOf_escape (s : String) : textOf (encode (s.toList.flatMap escape)) = some s := by
  rw [textOf, readText, readTextBytes_escapes _ _ (by rw [List.length_append]; exact Nat.lt_succ_of_le (Nat.le_add_right ..)),
    ok_bind]
  simp only
  rw [fromUTF8?_encode]
  rfl

theorem token_quote (s : String) : Token (.str (some s)) (encode (quote s)) := by
  have hquote : encode (quote s) = 0x22 :: (encode (s.toList.flatMap escape) ++ [0x22]) := by
    rw [quote, encode_cons, encode_append]
    rfl
  rw [hquote, ← textOf_escape s]
  exact .str (isBody_escape _)

end Texts

end CloudOffers.Json

namespace CloudOffers.Number

open Json

/-- The text of the number is one of the grammar. -/
def Written (n : Number) : Prop := ∃ p, Writes p (encode n.chars)

def tree (n : Number) : Tree :=
  match readParts (encode n.chars) with
  | .ok (p, []) => .num p
  | _ => .null

theorem tree_eq {n : Number} {p : Parts} (h : Writes p (encode n.chars)) : n.tree = .num p := by
  have hread := readParts_append h (show Ends [] from nofun)
  rw [List.append_nil] at hread
  rw [tree, hread]

theorem Written.token {n : Number} (h : n.Written) : Token n.tree (encode n.chars) := by
  obtain ⟨p, hp⟩ := h
  rw [tree_eq hp]
  exact .num hp

end CloudOffers.Number

namespace CloudOffers.Json

mutual

/-- What is printed of a value. -/
def tree : Json → Tree
  | .null => .null
  | .bool b => .bool b
  | .num n => n.tree
  | .str s => .str (some s)
  | .arr items => .arr (treeItems items)
  | .obj members => .obj (treeMembers members)

def treeItems : List Json → List Tree
  | [] => []
  | v :: items => v.tree :: treeItems items

def treeMembers : List (String × Json) → List (Option String × Tree)
  | [] => []
  | (name, v) :: members => (some name, v.tree) :: treeMembers members

end

mutual

/-- All numbers of a value. -/
def numbers : Json → List Number
  | .num n => [n]
  | .arr items => numbersItems items
  | .obj members => numbersMembers members
  | _ => []

def numbersItems : List Json → List Number
  | [] => []
  | v :: items => v.numbers ++ numbersItems items

def numbersMembers : List (String × Json) → List Number
  | [] => []
  | (_, v) :: members => v.numbers ++ numbersMembers members

end

section Layout

variable {t : Tree} {bs ws after rest : Bytes}

def IsBlanks (ws : Bytes) : Prop := ∀ b ∈ ws, isBlank b = true

theorem IsBlanks.skip (h : IsBlanks ws) (bs : Bytes) : skipBlanks (ws ++ bs) = skipBlanks bs :=
  List.dropWhile_append_of_pos h

theorem isBlanks_nil : IsBlanks [] := nofun

theorem isBlanks_space : IsBlanks [0x20] := fun _ hb ↦ List.mem_singleton.1 hb ▸ rfl

theorem isBlanks_lineBreak (level : Nat) : IsBlanks (encode (lineBreak level)) := by
  rw [lineBreak, encode_cons]
  refine List.forall_mem_append.2 ⟨List.forall_mem_singleton.2 rfl, fun b hb ↦ ?_⟩
  obtain ⟨c, hc, hb⟩ := List.mem_flatMap.1 hb
  rw [(List.mem_replicate.1 hc).2] at hb
  obtain rfl := List.mem_singleton.1 (show b ∈ [0x20] from hb)
  rfl

theorem Value.blanks (h : Value t bs rest) (hw : IsBlanks ws) : Value t (ws ++ bs) rest := by
  cases h with
  | token h ht => exact .token ((hw.skip bs).trans h) ht
  | arr h hi => exact .arr ((hw.skip bs).trans h) hi
  | obj h hm => exact .obj ((hw.skip bs).trans h) hm

theorem Token.value {ds : Bytes} (h : Token t ds) (rest : Bytes) : Value t (ds ++ rest) rest := by
  obtain ⟨b, ds', rfl, hb, _⟩ := h.head
  refine .token (skipBlanks_eq_self ?_) h
  rintro _ ⟨⟩
  exact hb

theorem Items.close (hw : IsBlanks ws) (first : Bool) (rest : Bytes) : Items first [] (ws ++ 0x5d :: rest) rest :=
  .nil (hw.skip _)

theorem Items.comma {items : List Tree} (h : Items true (t :: items) bs rest) :
    Items false (t :: items) (0x2c :: bs) rest := by
  cases h with
  | cons hs ht hi =>
    cases hs
    exact .cons (.comma rfl) ht hi

theorem Entries.close (hw : IsBlanks ws) (first : Bool) (rest : Bytes) : Entries first [] (ws ++ 0x7d :: rest) rest :=
  .nil (hw.skip _)

theorem Entries.comma {m : Option String × Tree} {members : List (Option String × Tree)}
    (h : Entries true (m :: members) bs rest) : Entries false (m :: members) (0x2c :: bs) rest := by
  cases h with
  | cons hs hq hr hc ht hm =>
    cases hs
    exact .cons (.comma rfl) hq hr hc ht hm

theorem Entries.quoted {members : List (Option String × Tree)} (hw : IsBlanks ws) (name : String)
    (ht : Value t bs after) (hm : Entries false members after rest) :
    Entries true ((some name, t) :: members) (ws ++ (encode (quote name) ++ 0x3a :: bs)) rest := by
  have hquote : skipBlanks (ws ++ (encode (quote name) ++ 0x3a :: bs)) =
      0x22 :: (encode (name.toList.flatMap escape) ++ 0x22 :: 0x3a :: bs) := by
    rw [hw.skip, quote, encode_cons, encode_append, List.append_assoc, List.append_assoc]
    rfl
  have hcolon : skipBlanks (0x3a :: bs) = 0x3a :: bs := rfl
  rw [← textOf_escape name]
  exact .cons .start hquote (isBody_escape _) hcolon ht hm

/-- The text of a value, with what may follow it. -/
def Prints (v : Json) (cs : List Char) : Prop := ∀ rest, Value v.tree (encode cs ++ rest) rest

theorem prints_token {v : Json} {cs : List Char} (h : Token v.tree (encode cs)) : Prints v cs := h.value

mutual

theorem prints_compact : ∀ (v : Json), (∀ n ∈ v.numbers, n.Written) → Prints v v.compactChars
  | .null, _ => prints_token .null
  | .bool true, _ => prints_token .yes
  | .bool false, _ => prints_token .no
  | .num n, h => prints_token (h n List.mem_cons_self).token
  | .str s, _ => prints_token (token_quote s)
  | .arr items, h => fun rest ↦ by
    rw [compactChars, encode_cons, encode_append, List.append_assoc, List.append_assoc]
    exact .arr rfl (items_compact items h rest)
  | .obj members, h => fun rest ↦ by
    rw [compactChars, encode_cons, encode_append, List.append_assoc, List.append_assoc]
    exact .obj rfl (members_compact members h rest)

theorem items_compact : ∀ (items : List Json), (∀ n ∈ numbersItems items, n.Written) → ∀ rest,
    Items true (treeItems items) (encode (compactItems items) ++ 0x5d :: rest) rest
  | [], _, rest => Items.close isBlanks_nil true rest
  | [v], h, rest => .cons .start (prints_compact v (fun n hn ↦ h n (List.mem_append_left _ hn)) _) (.nil rfl)
  | v :: w :: items, h, rest => by
    rw [compactItems, encode_append, encode_cons, List.append_assoc, List.append_assoc]
    · exact .cons .start (prints_compact v (fun n hn ↦ h n (List.mem_append_left _ hn)) _)
        (items_compact (w :: items) (fun n hn ↦ h n (List.mem_append_right _ hn)) rest).comma
    · exact nofun

theorem members_compact : ∀ (members : List (String × Json)), (∀ n ∈ numbersMembers members, n.Written) → ∀ rest,
    Entries true (treeMembers members) (encode (compactMembers members) ++ 0x7d :: rest) rest
  | [], _, rest => Entries.close isBlanks_nil true rest
  | [(name, v)], h, rest => by
    rw [compactMembers, encode_append, encode_cons, List.append_assoc, List.append_assoc]
    exact .quoted isBlanks_nil name (prints_compact v (fun n hn ↦ h n (List.mem_append_left _ hn)) _) (.nil rfl)
  | (name, v) :: m :: members, h, rest => by
    rw [compactMembers, encode_append, encode_cons, encode_append, encode_cons]
    · simp only [List.append_assoc]
      exact .quoted isBlanks_nil name (prints_compact v (fun n hn ↦ h n (List.mem_append_left _ hn)) _)
        (members_compact (m :: members) (fun n hn ↦ h n (List.mem_append_right _ hn)) rest).comma
    · exact nofun

end

mutual

theorem prints_pretty : ∀ (level : Nat) (v : Json), (∀ n ∈ v.numbers, n.Written) → Prints v (v.prettyChars level)
  | _, .null, _ => prints_token .null
  | _, .bool true, _ => prints_token .yes
  | _, .bool false, _ => prints_token .no
  | _, .num n, h => prints_token (h n List.mem_cons_self).token
  | _, .str s, _ => prints_token (token_quote s)
  | _, .arr [], _ => fun rest ↦ .arr rfl (Items.close isBlanks_nil true rest)
  | _, .obj [], _ => fun rest ↦ .obj rfl (Entries.close isBlanks_nil true rest)
  | level, .arr (v :: items), h => fun rest ↦ by
    rw [prettyChars, encode_cons, encode_append, encode_append]
    · simp only [List.append_assoc]
      exact .arr rfl (items_pretty (level + 1) (v :: items) h nofun (isBlanks_lineBreak level) rest)
    · exact nofun
  | level, .obj (m :: members), h => fun rest ↦ by
    rw [prettyChars, encode_cons, encode_append, encode_append]
    · simp only [List.append_assoc]
      exact .obj rfl (members_pretty (level + 1) (m :: members) h nofun (isBlanks_lineBreak level) rest)
    · exact nofun

theorem items_pretty : ∀ (level : Nat) (items : List Json), (∀ n ∈ numbersItems items, n.Written) → items ≠ [] →
    ∀ {ws : Bytes}, IsBlanks ws → ∀ rest,
    Items true (treeItems items) (encode (prettyItems level items) ++ (ws ++ 0x5d :: rest)) rest
  | _, [], _, hne, _, _, _ => absurd rfl hne
  | level, [v], h, _, _, hw, rest => by
    rw [prettyItems, encode_append, List.append_assoc]
    exact .cons .start ((prints_pretty level v (fun n hn ↦ h n (List.mem_append_left _ hn)) _).blanks
      (isBlanks_lineBreak level)) (.close hw false rest)
  | level, v :: w :: items, h, _, _, hw, rest => by
    rw [prettyItems, encode_append, encode_append, encode_cons]
    · simp only [List.append_assoc]
      exact .cons .start ((prints_pretty level v (fun n hn ↦ h n (List.mem_append_left _ hn)) _).blanks
        (isBlanks_lineBreak level))
        (items_pretty level (w :: items) (fun n hn ↦ h n (List.mem_append_right _ hn)) nofun hw rest).comma
    · exact nofun

theorem members_pretty : ∀ (level : Nat) (members : List (String × Json)),
    (∀ n ∈ numbersMembers members, n.Written) → members ≠ [] → ∀ {ws : Bytes}, IsBlanks ws → ∀ rest,
    Entries true (treeMembers members) (encode (prettyMembers level members) ++ (ws ++ 0x7d :: rest)) rest
  | _, [], _, hne, _, _, _ => absurd rfl hne
  | level, [(name, v)], h, _, _, hw, rest => by
    rw [prettyMembers, encode_append, encode_append, encode_cons, encode_cons]
    simp only [List.append_assoc]
    exact .quoted (isBlanks_lineBreak level) name
      ((prints_pretty level v (fun n hn ↦ h n (List.mem_append_left _ hn)) _).blanks isBlanks_space)
      (.close hw false rest)
  | level, (name, v) :: m :: members, h, _, _, hw, rest => by
    rw [prettyMembers, encode_append, encode_append, encode_cons, encode_cons, encode_append, encode_cons]
    · simp only [List.append_assoc]
      exact .quoted (isBlanks_lineBreak level) name
        ((prints_pretty level v (fun n hn ↦ h n (List.mem_append_left _ hn)) _).blanks isBlanks_space)
        (members_pretty level (m :: members) (fun n hn ↦ h n (List.mem_append_right _ hn)) nofun hw rest).comma
    · exact nofun

end

theorem Prints.spells {v : Json} {cs : List Char} (h : Prints v cs) : Spells v.tree (bytes (String.ofList cs)) := by
  refine ⟨[], ?_, rfl⟩
  rw [bytes_ofList]
  simpa only [List.append_nil] using h []

/-- The compact text of a value spells its tree. -/
theorem spells_compact {v : Json} (h : ∀ n ∈ v.numbers, n.Written) : Spells v.tree (bytes v.compact) :=
  (prints_compact v h).spells

/-- The indented text of a value spells its tree. -/
theorem spells_pretty {v : Json} (h : ∀ n ∈ v.numbers, n.Written) : Spells v.tree (bytes v.pretty) :=
  (prints_pretty 0 v h).spells

end Layout

end CloudOffers.Json
