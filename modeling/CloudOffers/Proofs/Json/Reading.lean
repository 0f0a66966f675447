import CloudOffers.Proofs.Json.Decode
/-!
The reader and the grammar. A tree that is written is read as what it says under the shape; and nothing is
read, or passed over, that is not written by the grammar.
-/

namespace CloudOffers.Json

section Steps

variable {first : Bool} {bs start after rest : Bytes}

theorem nextItem_close (h : skipBlanks bs = 0x5d :: rest) : nextItem first bs = .ok (false, rest) := by
  rw [nextItem, h]
  exact if_pos rfl

theorem nextItem_open (hs : Separated first bs start) (ht : ∃ t rest, Value t start rest) :
    nextItem first bs = .ok (true, skipBlanks start) := by
  obtain ⟨t, rest, ht⟩ := ht
  obtain ⟨b, after, hb, hne⟩ := ht.head
  have hclose : b ≠ 0x5d := fun h ↦ hne (h ▸ List.mem_cons_self)
  cases hs with
  | start => simp [nextItem, hb, hclose]
  | comma h => simp [nextItem, h, hb, hclose]

theorem of_nextItem {more : Bool} (h : nextItem first bs = .ok (more, after)) :
    if more then ∃ start, Separated first bs start ∧ skipBlanks start = after
    else skipBlanks bs = 0x5d :: after := by
  rw [nextItem] at h
  split at h
  · cases h
  · next b bs' hb =>
    split at h
    · next hclose =>
      cases h
      exact hclose ▸ hb
    · split at h
      · next hfirst =>
        cases h
        subst hfirst
        exact ⟨_, .start, hb⟩
      · next hfirst =>
        obtain rfl : first = false := Bool.eq_false_iff.2 hfirst
        split at h
        · next hcomma =>
          subst hcomma
          split at h
          · cases h
          · next c bs'' hc =>
            split at h
            · cases h
            · cases h
              exact ⟨_, .comma hb, hc⟩
        · cases h

theorem nextMember_close (h : skipBlanks bs = 0x7d :: rest) : nextMember first bs = .ok (false, rest) := by
  rw [nextMember, h]
  exact if_pos rfl

theorem nextMember_open (hs : Separated first bs start) (hq : skipBlanks start = 0x22 :: after) :
    nextMember first bs = .ok (true, after) := by
  cases hs with
  | start => rw [nextMember, hq]; rfl
  | comma h => simp only [nextMember, h, hq]; rfl

theorem of_nextMember {more : Bool} (h : nextMember first bs = .ok (more, after)) :
    if more then ∃ start, Separated first bs start ∧ skipBlanks start = 0x22 :: after
    else skipBlanks bs = 0x7d :: after := by
  rw [nextMember] at h
  split at h
  · cases h
  · next b bs' hb =>
    split at h
    · next hclose =>
      cases h
      exact hclose ▸ hb
    · split at h
      · next hfirst =>
        subst hfirst
        split at h
        · next hquote =>
          cases h
          exact ⟨_, .start, hquote ▸ hb⟩
        · cases h
      · next hfirst =>
        obtain rfl : first = false := Bool.eq_false_iff.2 hfirst
        split at h
        · next hcomma =>
          subst hcomma
          split at h
          · cases h
          · next c bs'' hc =>
            split at h
            · next hquote =>
              cases h
              exact ⟨_, .comma hb, hquote ▸ hc⟩
            · split at h <;> cases h
        · cases h

theorem readColon_eq_ok_iff : readColon bs = .ok rest ↔ skipBlanks bs = 0x3a :: rest := by
  rw [readColon]
  cases skipBlanks bs with
  | nil => simp
  | cons b bs =>
    by_cases hb : b = 0x3a
    · simp [hb]
    · simp [hb]

theorem closeList_eq_ok_iff : closeList bs = .ok rest ↔ skipBlanks bs = 0x5d :: rest := by
  rw [closeList]
  cases skipBlanks bs with
  | nil => simp
  | cons b bs =>
    by_cases hb : b = 0x5d
    · simp [hb]
    · refine iff_of_false ?_ fun h ↦ hb (List.cons.inj h).1
      simp only
      rw [if_neg hb]
      split
      · split <;> exact nofun
      · exact nofun

end Steps

section Skipping

variable {bs ds rest : Bytes}

theorem skipWord_append (word rest : Bytes) : skipWord word (word ++ rest) = .ok rest := by
  rw [skipWord, readWord_append]
  rfl

theorem of_skipWord {word : Bytes} (h : skipWord word bs = .ok rest) : bs = word ++ rest := by
  obtain ⟨⟨_, _⟩, hword, rfl⟩ := map_eq_ok_iff.1 h
  exact of_readWord hword

theorem Writes.sign_or_digit {p : Parts} {b : UInt8} (h : Writes p (b :: ds)) :
    (decide (b = 0x2d) || isDigit b) = true ∧ b ∉ [0x6e, 0x74, 0x66] := by
  obtain ⟨b', ds', heq, hb⟩ := h.head
  obtain rfl := (List.cons.inj heq).1
  refine ⟨by simpa using hb, ?_⟩
  simp only [List.mem_cons, List.not_mem_nil, or_false]
  rintro (rfl | rfl | rfl) <;> exact absurd hb (by decide)

theorem skipScalar_append {t : Tree} {b : UInt8} (ht : Token t (b :: ds)) (hrest : Ends rest) :
    skipScalar b (ds ++ rest) = .ok rest := by
  cases ht with
  | null => exact skipWord_append [0x75, 0x6c, 0x6c] rest
  | yes => exact skipWord_append [0x72, 0x75, 0x65] rest
  | no => exact skipWord_append [0x61, 0x6c, 0x73, 0x65] rest
  | num hp =>
    obtain ⟨hb, hne⟩ := hp.sign_or_digit
    simp only [List.mem_cons, List.not_mem_nil, or_false, not_or] at hne
    rw [skipScalar, if_neg hne.1, if_neg hne.2.1, if_neg hne.2.2, if_pos hb, ← toOption_eq_some_iff,
      skipNumber_eq, ← List.cons_append, readParts_append hp hrest]
    rfl
  | str hr =>
    rw [List.append_assoc]
    exact skipText_append hr (by simp only [List.length_append]; omega)

theorem of_skipScalar {b : UInt8} (h : skipScalar b bs = .ok rest) :
    ∃ t ds, b :: bs = ds ++ rest ∧ Token t ds := by
  rw [skipScalar] at h
  split at h
  · next hb => exact ⟨_, _, hb ▸ congrArg (b :: ·) (of_skipWord h), .null⟩
  split at h
  · next hb => exact ⟨_, _, hb ▸ congrArg (b :: ·) (of_skipWord h), .yes⟩
  split at h
  · next hb => exact ⟨_, _, hb ▸ congrArg (b :: ·) (of_skipWord h), .no⟩
  split at h
  · rw [← toOption_eq_some_iff, skipNumber_eq, Option.map_eq_some_iff] at h
    obtain ⟨⟨p, _⟩, hparts, rfl⟩ := h
    obtain ⟨ds, hds, hp⟩ := of_readParts (toOption_eq_some_iff.1 hparts)
    exact ⟨_, ds, hds, .num hp⟩
  split at h
  · next hb =>
    obtain ⟨raw, rfl, hr⟩ := of_skipText h
    exact ⟨_, 0x22 :: (raw ++ [0x22]), by rw [hb, List.cons_append, List.append_assoc]; rfl, .str hr⟩
  · cases h

theorem skipValue_skipBlanks (fuel : Nat) (bs : Bytes) :
    skipValue fuel (skipBlanks bs) = skipValue fuel bs := by
  cases fuel with
  | zero => rw [skipValue, skipValue]
  | succ fuel => rw [skipValue, skipValue, skipBlanks_skipBlanks]

theorem skipItems_skipBlanks (fuel : Nat) (bs : Bytes) :
    skipItems fuel (skipBlanks bs) = skipItems fuel bs := by
  cases fuel with
  | zero => rw [skipItems, skipItems]
  | succ fuel => rw [skipItems, skipItems, skipValue_skipBlanks]

theorem skipMembers_skipBlanks (fuel : Nat) (bs : Bytes) :
    skipMembers fuel (skipBlanks bs) = skipMembers fuel bs := by
  cases fuel with
  | zero => rw [skipMembers, skipMembers]
  | succ fuel => rw [skipMembers, skipMembers, skipBlanks_skipBlanks]

theorem Items.head {t : Tree} {items : List Tree} (h : Items true (t :: items) bs rest) :
    ∃ b after, skipBlanks bs = b :: after ∧ b ∉ [0x5d, 0x7d, 0x2c] := by
  cases h with
  | cons hs ht => cases hs; exact ht.head

theorem Entries.head {m : Option String × Tree} {members : List (Option String × Tree)}
    (h : Entries true (m :: members) bs rest) : ∃ after, skipBlanks bs = 0x22 :: after := by
  cases h with
  | cons hs hq => cases hs; exact ⟨_, hq⟩

theorem Items.next {items : List Tree} (h : Items false items bs rest) :
    items = [] ∧ skipBlanks bs = 0x5d :: rest ∨ items ≠ [] ∧ ∃ start, skipBlanks bs = 0x2c :: start := by
  cases h with
  | nil h => exact .inl ⟨rfl, h⟩
  | cons hs => cases hs with | comma h => exact .inr ⟨nofun, _, h⟩

theorem Entries.next {members : List (Option String × Tree)} (h : Entries false members bs rest) :
    members = [] ∧ skipBlanks bs = 0x7d :: rest ∨ members ≠ [] ∧ ∃ start, skipBlanks bs = 0x2c :: start := by
  cases h with
  | nil h => exact .inl ⟨rfl, h⟩
  | cons hs => cases hs with | comma h => exact .inr ⟨nofun, _, h⟩

mutual

/-- A value that is written is passed over, up to its end. -/
theorem Value.skip : ∀ {t : Tree} {bs rest : Bytes}, Value t bs rest → Ends rest →
    ∀ {fuel : Nat}, 2 * bs.length ≤ fuel → skipValue fuel bs = .ok rest
  | _, _, _, h, _, 0, hfuel => by
    have hlt := h.length_lt
    omega
  | _, _, _, .token h ht, hrest, fuel + 1, _ => by
    obtain ⟨b, ds, rfl, _, hb⟩ := ht.head
    simp only [List.mem_cons, List.not_mem_nil, or_false, not_or] at hb
    rw [skipValue, h]
    simp only [List.cons_append, if_neg hb.1, if_neg hb.2.1]
    exact skipScalar_append ht hrest
  | _, _, _, @Value.arr [] _ _ _ h (.nil h'), _, fuel + 1, _ => by
    simp [skipValue, h, h']
  | _, _, _, @Value.arr (_ :: _) _ after _ h hi, _, fuel + 1, hfuel => by
    have hlt := length_lt_of_skipBlanks h
    have hitems := hi.skip .start nofun (show 2 * after.length + 1 ≤ fuel by omega)
    obtain ⟨b, after', hb, hne⟩ := hi.head
    rw [← skipItems_skipBlanks, hb] at hitems
    simp only [skipValue, h, hb, if_pos]
    split
    · next heq => cases heq
    · next heq => cases heq; exact absurd List.mem_cons_self hne
    · exact hitems
  | _, _, _, @Value.obj [] _ _ _ h (.nil h'), _, fuel + 1, _ => by
    simp [skipValue, h, h']
  | _, _, _, @Value.obj (_ :: _) _ after _ h hm, _, fuel + 1, hfuel => by
    have hlt := length_lt_of_skipBlanks h
    have hmembers := hm.skip .start nofun (show 2 * after.length + 1 ≤ fuel by omega)
    obtain ⟨after', hb⟩ := hm.head
    rw [← skipMembers_skipBlanks, hb] at hmembers
    simp only [skipValue, h, hb, if_pos]
    exact hmembers

theorem Items.skip : ∀ {first : Bool} {items : List Tree} {bs start rest : Bytes},
    Items first items bs rest → Separated first bs start → items ≠ [] →
    ∀ {fuel : Nat}, 2 * start.length + 1 ≤ fuel → skipItems fuel start = .ok rest
  | _, _, _, _, _, .nil _, _, hne, _, _ => absurd rfl hne
  | _, _, _, _, _, .cons _ _ _, _, _, 0, hfuel => by omega
  | _, _, _, _, _, .cons hs ht hi, hstart, _, fuel + 1, hfuel => by
    obtain rfl := hs.unique hstart
    have hlt := ht.length_lt
    rw [skipItems, ht.skip hi.ends (by omega), ok_bind]
    rcases hi.next with ⟨_, h⟩ | ⟨hne, start, h⟩
    · rw [h]; rfl
    · have hlt' := length_lt_of_skipBlanks h
      rw [h]
      exact hi.skip (.comma h) hne (by omega)

theorem Entries.skip : ∀ {first : Bool} {members : List (Option String × Tree)} {bs start rest : Bytes},
    Entries first members bs rest → Separated first bs start → members ≠ [] →
    ∀ {fuel : Nat}, 2 * start.length + 1 ≤ fuel → skipMembers fuel start = .ok rest
  | _, _, _, _, _, .nil _, _, hne, _, _ => absurd rfl hne
  | _, _, _, _, _, .cons _ _ _ _ _ _, _, _, 0, hfuel => by omega
  | _, _, _, _, _, @Entries.cons _ _ _ _ _ raw named colon _ _ hs hq hr hc ht hm, hstart, _, fuel + 1,
      hfuel => by
    obtain rfl := hs.unique hstart
    have hname := length_lt_of_skipBlanks hq
    have hcolon := length_lt_of_skipBlanks hc
    have hlt := ht.length_lt
    rw [List.length_append, List.length_cons] at hname
    have htext : skipText ((raw ++ 0x22 :: named).length + 1) (raw ++ 0x22 :: named) = .ok named :=
      skipText_append hr (by rw [List.length_append]; omega)
    have hvalue := ht.skip hm.ends (show 2 * colon.length ≤ fuel by omega)
    simp only [skipMembers, hq, htext, ok_bind, hc, hvalue]
    rcases hm.next with ⟨_, h⟩ | ⟨hne, start, h⟩
    · rw [h]; rfl
    · have hlt' := length_lt_of_skipBlanks h
      rw [h]
      exact hm.skip (.comma h) hne (by omega)

end

theorem skip_eq {t : Tree} (h : Value t bs rest) (hrest : Ends rest) : skip bs = .ok rest :=
  h.skip hrest (Nat.le_add_right ..)

mutual

theorem of_skipValue : ∀ {fuel : Nat} {bs rest : Bytes}, skipValue fuel bs = .ok rest → ∃ t, Value t bs rest
  | 0, _, _, h => nomatch h
  | fuel + 1, bs, rest, h => by
    rw [skipValue] at h
    split at h
    · cases h
    next b after hb =>
    split at h
    · next hopen =>
      subst hopen
      split at h
      · cases h
      · next hclose =>
        cases h
        exact ⟨_, .arr hb (.nil hclose)⟩
      · rw [skipItems_skipBlanks] at h
        obtain ⟨t, items, after', ht, hi⟩ := of_skipItems h
        exact ⟨_, .arr hb (.cons .start ht hi)⟩
    split at h
    · next hopen =>
      subst hopen
      split at h
      · cases h
      · next hclose =>
        cases h
        exact ⟨_, .obj hb (.nil hclose)⟩
      · rw [skipMembers_skipBlanks] at h
        obtain ⟨m, members, hm⟩ := of_skipMembers h .start
        exact ⟨_, .obj hb hm⟩
    · obtain ⟨t, ds, hds, ht⟩ := of_skipScalar h
      exact ⟨t, .token (hb.trans hds) ht⟩

theorem of_skipItems : ∀ {fuel : Nat} {bs rest : Bytes}, skipItems fuel bs = .ok rest →
    ∃ t items after, Value t bs after ∧ Items false items after rest
  | 0, _, _, h => nomatch h
  | fuel + 1, bs, rest, h => by
    rw [skipItems, bind_eq_ok_iff] at h
    obtain ⟨after, hvalue, h⟩ := h
    obtain ⟨t, ht⟩ := of_skipValue hvalue
    split at h
    · cases h
    · next hcomma =>
      obtain ⟨t', items, after', ht', hi⟩ := of_skipItems h
      exact ⟨t, _, _, ht, .cons (.comma hcomma) ht' hi⟩
    · next hclose =>
      cases h
      exact ⟨t, _, _, ht, .nil hclose⟩
    · cases h

theorem of_skipMembers : ∀ {fuel : Nat} {bs start rest : Bytes} {first : Bool},
    skipMembers fuel start = .ok rest → Separated first bs start →
    ∃ m members, Entries first (m :: members) bs rest
  | 0, _, _, _, _, h, _ => nomatch h
  | fuel + 1, bs, start, rest, first, h, hs => by
    rw [skipMembers] at h
    split at h
    · cases h
    · next hquote =>
      rw [bind_eq_ok_iff] at h
      obtain ⟨named, htext, h⟩ := h
      obtain ⟨raw, rfl, hr⟩ := of_skipText htext
      split at h
      · cases h
      · next hcolon =>
        rw [bind_eq_ok_iff] at h
        obtain ⟨after, hvalue, h⟩ := h
        obtain ⟨t, ht⟩ := of_skipValue hvalue
        split at h
        · cases h
        · next hcomma =>
          obtain ⟨m, members, hm⟩ := of_skipMembers h (.comma hcomma)
          exact ⟨_, _, .cons hs hquote hr hcolon ht hm⟩
        · next hclose =>
          cases h
          exact ⟨_, _, .cons hs hquote hr hcolon ht (.nil hclose)⟩
        · cases h
      · cases h
    · cases h

end

end Skipping

section Values

variable {bs ds rest : Bytes}

theorem readScalar_append {t : Tree} {b : UInt8} (ht : Token t (b :: ds)) (hrest : Ends rest) :
    (readScalar b (ds ++ rest)).toOption = (t.scalar? Parts.read?).map (·, rest) := by
  cases ht with
  | null =>
    have hword := readWord_append [0x75, 0x6c, 0x6c] rest
    rw [readScalar, if_pos rfl, hword]
    rfl
  | yes =>
    have hword := readWord_append [0x72, 0x75, 0x65] rest
    rw [readScalar, if_neg (by decide), if_pos rfl, hword]
    rfl
  | no =>
    have hword := readWord_append [0x61, 0x6c, 0x73, 0x65] rest
    rw [readScalar, if_neg (by decide), if_neg (by decide), if_pos rfl, hword]
    rfl
  | @num p _ hp =>
    obtain ⟨hb, hne⟩ := hp.sign_or_digit
    simp only [List.mem_cons, List.not_mem_nil, or_false, not_or] at hne
    rw [readScalar, if_neg hne.1, if_neg hne.2.1, if_neg hne.2.2, if_pos hb, ← List.cons_append, readNumber,
      readParts_append hp hrest, ok_bind, Tree.scalar?, Parts.read?]
    simp only
    cases p.number <;> rfl
  | @str raw hr =>
    have htext := readText_append hr rest
    rw [readScalar, if_neg (by decide), if_neg (by decide), if_neg (by decide), if_neg (by decide),
      if_pos rfl, List.append_assoc, toOption_map, List.singleton_append, htext, Tree.scalar?]
    cases textOf raw <;> rfl

theorem of_readScalar {b : UInt8} {v : Json} (h : readScalar b bs = .ok (v, rest)) :
    ∃ t ds, b :: bs = ds ++ rest ∧ Token t ds := by
  rw [readScalar] at h
  split at h
  · next hb =>
    obtain ⟨⟨_, _⟩, hword, heq⟩ := map_eq_ok_iff.1 h
    cases heq
    exact ⟨_, _, hb ▸ congrArg (b :: ·) (of_readWord hword), .null⟩
  split at h
  · next hb =>
    obtain ⟨⟨_, _⟩, hword, heq⟩ := map_eq_ok_iff.1 h
    cases heq
    exact ⟨_, _, hb ▸ congrArg (b :: ·) (of_readWord hword), .yes⟩
  split at h
  · next hb =>
    obtain ⟨⟨_, _⟩, hword, heq⟩ := map_eq_ok_iff.1 h
    cases heq
    exact ⟨_, _, hb ▸ congrArg (b :: ·) (of_readWord hword), .no⟩
  split at h
  · obtain ⟨⟨n, _⟩, hnumber, heq⟩ := map_eq_ok_iff.1 h
    cases heq
    rw [readNumber, bind_eq_ok_iff] at hnumber
    obtain ⟨⟨p, _⟩, hparts, hnumber⟩ := hnumber
    obtain ⟨n', _, hrest⟩ := bind_eq_ok_iff.1 hnumber
    cases hrest
    obtain ⟨ds, hds, hp⟩ := of_readParts hparts
    exact ⟨_, ds, hds, .num hp⟩
  split at h
  · next hb =>
    obtain ⟨⟨s, _⟩, htext, heq⟩ := map_eq_ok_iff.1 h
    cases heq
    obtain ⟨raw, rfl, hr⟩ := of_readText htext
    exact ⟨_, 0x22 :: (raw ++ [0x22]), by rw [hb, List.cons_append, List.append_assoc]; rfl, .str hr⟩
  · cases h

theorem readShape_skipBlanks (fuel room : Nat) (shape : Shape) (bs : Bytes) :
    readShape fuel room shape (skipBlanks bs) = readShape fuel room shape bs := by
  cases fuel with
  | zero => rw [readShape, readShape]
  | succ fuel => rw [readShape, readShape, skipBlanks_skipBlanks]

theorem readShape_token {t : Tree} (h : skipBlanks bs = ds ++ rest) (ht : Token t ds) (hrest : Ends rest) (fuel room : Nat)
    (shape : Shape) :
    (readShape (fuel + 1) room shape bs).toOption = (decode Parts.read? room shape t).map (·, rest) := by
  obtain ⟨b, ds, rfl, _, hb⟩ := ht.head
  simp only [List.mem_cons, List.not_mem_nil, or_false, not_or] at hb
  have hdecode : decode Parts.read? room shape t = (t.scalar? Parts.read?).bind (fun v ↦ (shape.ofScalar v).toOption) := by
    cases ht <;> rfl
  rw [readShape, h, List.cons_append]
  simp only
  rw [if_neg hb.1, if_neg hb.2.1, toOption_bind, readScalar_append ht hrest, hdecode]
  cases t.scalar? Parts.read? with
  | none => rfl
  | some v =>
    simp only [Option.map_some, Option.bind_some, toOption_bind, toOption_ok]
    cases (shape.ofScalar v).toOption <;> rfl

theorem readShape_list {after : Bytes} {items : List Tree} {fuel room : Nat} (h : skipBlanks bs = 0x5b :: after)
    (hitems : ∀ item, (readItems fuel (room - 1) item true after).toOption =
      (decodeItems Parts.read? (room - 1) item items).map (·, rest))
    (hfields : ∀ name fields, (readFields fuel (room - 1) name fields 0 fields after).toOption =
      (decodeFields Parts.read? (room - 1) fields items).map (·, rest)) (shape : Shape) :
    (readShape (fuel + 1) room shape bs).toOption = (decode Parts.read? room shape (.arr items)).map (·, rest) := by
  have hlist (item : Shape) : (do
      let read ← readItems fuel (room - 1) item true after
      (.ok (.arr read.1, read.2) : Except Error (Json × Bytes))).toOption =
        ((decodeItems Parts.read? (room - 1) item items).map .arr).map (·, rest) := by
    rw [toOption_bind, hitems]
    cases decodeItems Parts.read? (room - 1) item items <;> rfl
  rw [readShape, h, decode_arr]
  simp only [if_true]
  by_cases hroom : room ≤ 1
  · simp only [if_pos hroom]
    cases shape <;> rfl
  · simp only [if_neg hroom]
    cases shape with
    | any => exact hlist .any
    | list item => exact hlist item
    | record name fields =>
      simp only [toOption_bind, hfields]
      cases decodeFields Parts.read? (room - 1) fields items <;> rfl
    | _ => rfl

theorem readShape_object {after : Bytes} {members : List (Option String × Tree)} {fuel room : Nat} {shape : Shape}
    (h : skipBlanks bs = 0x7b :: after)
    (hmembers : (readMembers fuel (room - 1) shape true ⟨[], []⟩ after).toOption =
      ((decodeMembers Parts.read? (room - 1) shape members).bind (Members.join ⟨[], []⟩)).map (·, rest)) :
    (readShape (fuel + 1) room shape bs).toOption = (decode Parts.read? room shape (.obj members)).map (·, rest) := by
  rw [readShape, h, decode_obj]
  simp only
  rw [if_neg (by decide)]
  simp only [if_true]
  by_cases htakes : shape.takesObject = true
  · by_cases hroom : room ≤ 1
    · simp [htakes, hroom]
    · simp only [htakes, hroom, Bool.not_true, Bool.false_eq_true, if_false, if_true, toOption_bind]
      rw [hmembers, show (⟨[], []⟩ : Members) = .none from rfl, Members.bind_none_join]
      cases decodeMembers Parts.read? (room - 1) shape members with
      | none => rfl
      | some m =>
        simp only [Option.map_some, Option.bind_some, toOption_ok]
        cases (shape.ofMembers m).toOption <;> rfl
  · by_cases hroom : room ≤ 1 <;> simp [htakes, hroom]

mutual

/-- A value that is written is read as what its tree says under the shape. -/
theorem Value.read : ∀ {t : Tree} {bs rest : Bytes}, Value t bs rest → Ends rest →
    ∀ {fuel : Nat} (room : Nat) (shape : Shape), 2 * bs.length ≤ fuel →
    (readShape fuel room shape bs).toOption = (decode Parts.read? room shape t).map (·, rest)
  | _, _, _, h, _, 0, _, _, hfuel => by
    have hlt := h.length_lt
    omega
  | _, _, _, .token h ht, hrest, fuel + 1, room, shape, _ => readShape_token h ht hrest fuel room shape
  | _, _, _, @Value.arr items _ after rest h hi, _, fuel + 1, room, shape, hfuel => by
    have hlt := length_lt_of_skipBlanks h
    have hroom : 2 * after.length + 1 ≤ fuel := by omega
    exact readShape_list h (fun item ↦ hi.read (room - 1) item hroom)
      (fun name fields ↦ hi.readFields (room - 1) name fields fields 0 rfl hroom) shape
  | _, _, _, @Value.obj members _ after rest h hm, _, fuel + 1, room, shape, hfuel => by
    have hlt := length_lt_of_skipBlanks h
    exact readShape_object h (hm.read (room - 1) shape ⟨[], []⟩ (show 2 * after.length + 1 ≤ fuel by omega))

theorem Items.read : ∀ {first : Bool} {items : List Tree} {bs rest : Bytes}, Items first items bs rest →
    ∀ {fuel : Nat} (room : Nat) (item : Shape), 2 * bs.length + 1 ≤ fuel →
    (readItems fuel room item first bs).toOption = (decodeItems Parts.read? room item items).map (·, rest)
  | _, _, _, _, _, 0, _, _, hfuel => by omega
  | _, _, _, _, .nil h, fuel + 1, room, item, _ => by
    rw [readItems, nextItem_close h]
    rfl
  | _, t :: items, _, _, .cons hs ht hi, fuel + 1, room, item, hfuel => by
    have hle := hs.length_le
    have hlt := ht.length_lt
    have hvalue := ht.read hi.ends room item (show 2 * _ ≤ fuel by omega)
    have hitems := hi.read room item (show 2 * _ + 1 ≤ fuel by omega)
    rw [readItems, nextItem_open hs ⟨_, _, ht⟩, ok_bind, decodeItems]
    simp only [readShape_skipBlanks, toOption_bind, hvalue]
    cases decode Parts.read? room item t with
    | none => rfl
    | some v =>
      simp only [Option.map_some, Option.bind_some, hitems]
      cases decodeItems Parts.read? room item items <;> rfl

theorem Items.readFields : ∀ {first : Bool} {items : List Tree} {bs rest : Bytes}, Items first items bs rest →
    ∀ {fuel : Nat} (room : Nat) (name : String) (fields left : List Field) (i : Nat), decide (i = 0) = first →
    2 * bs.length + 1 ≤ fuel →
    (Json.readFields fuel room name fields i left bs).toOption =
      (decodeFields Parts.read? room left items).map (·, rest)
  | _, _, _, _, _, 0, _, _, _, _, _, _, hfuel => by omega
  | _, _, bs, rest, .nil h, fuel + 1, room, name, fields, [], i, _, _ => by
    rw [Json.readFields, closeList_eq_ok_iff.2 h]
    rfl
  | _, _, bs, rest, .nil h, fuel + 1, room, name, fields, (fieldName, shape, absent) :: left, i, _, _ => by
    rw [Json.readFields, nextItem_close h]
    simp only [ok_bind, toOption_bind, completeFields_eq, decodeFields]
    cases defaults ((fieldName, shape, absent) :: left) <;> rfl
  | _, _, _, _, .cons hs ht hi, fuel + 1, room, name, fields, [], i, _, _ => by
    rw [Json.readFields, decodeFields]
    cases hclose : closeList _ with
    | error e => rfl
    | ok rest' => exact (hs.not_closed ht.head (closeList_eq_ok_iff.1 hclose) (by decide)).elim
  | _, t :: items, _, _, .cons hs ht hi, fuel + 1, room, name, fields, (fieldName, shape, absent) :: left, i,
      hfirst, hfuel => by
    have hle := hs.length_le
    have hlt := ht.length_lt
    have hvalue := ht.read hi.ends room shape (show 2 * _ ≤ fuel by omega)
    have hfields := hi.readFields room name fields left (i + 1) rfl (show 2 * _ + 1 ≤ fuel by omega)
    rw [Json.readFields, hfirst, nextItem_open hs ⟨_, _, ht⟩, ok_bind, decodeFields]
    simp only [readShape_skipBlanks, toOption_bind, hvalue]
    cases decode Parts.read? room shape t with
    | none => rfl
    | some v =>
      simp only [Option.map_some, Option.bind_some, hfields]
      cases decodeFields Parts.read? room left items <;> rfl

theorem Entries.read : ∀ {first : Bool} {members : List (Option String × Tree)} {bs rest : Bytes},
    Entries first members bs rest → ∀ {fuel : Nat} (room : Nat) (shape : Shape) (read : Members),
    2 * bs.length + 1 ≤ fuel →
    (readMembers fuel room shape first read bs).toOption =
      ((decodeMembers Parts.read? room shape members).bind read.join).map (·, rest)
  | _, _, _, _, _, 0, _, _, _, hfuel => by omega
  | _, _, _, _, .nil h, fuel + 1, room, shape, read, _ => by
    rw [readMembers, nextMember_close h, decodeMembers, Option.bind_some, read.join_none]
    rfl
  | _, (_, t) :: members, _, _, @Entries.cons _ _ _ _ _ raw named colon _ _ hs hq hr hc ht hm, fuel + 1, room, shape,
      read, hfuel => by
    have hle := hs.length_le
    have hname := length_lt_of_skipBlanks hq
    have hcolon := length_lt_of_skipBlanks hc
    have hlt := ht.length_lt
    rw [List.length_append, List.length_cons] at hname
    have hvalue (item : Shape) := ht.read hm.ends room item (show 2 * colon.length ≤ fuel by omega)
    have hmembers (read : Members) := hm.read room shape read (show 2 * _ + 1 ≤ fuel by omega)
    rw [readMembers, nextMember_open hs hq, ok_bind]
    simp only [toOption_bind, readText_append hr named, decodeMembers_cons]
    cases textOf raw with
    | none => rfl
    | some name =>
      simp only [Option.map_some, Option.bind_some, readColon_eq_ok_iff.2 hc]
      cases shape.purpose name with
      | field item =>
        simp only [Purpose.members]
        cases hfield : lookup name read.fields with
        | some w =>
          cases decode Parts.read? room item t with
          | none => rfl
          | some v =>
            rw [Option.map_some, Option.bind_some, Members.bind_join, Members.join_field_again v (by simp [hfield])]
            rfl
        | none =>
          simp only [ok_bind, toOption_bind, hvalue]
          cases decode Parts.read? room item t with
          | none => rfl
          | some v =>
            simp only [Option.map_some, Option.bind_some, hmembers, Members.bind_join, Members.join_field v hfield]
      | other item =>
        simp only [ok_bind, toOption_bind, hvalue, Purpose.members]
        cases decode Parts.read? room item t with
        | none => rfl
        | some v => simp only [Option.map_some, Option.bind_some, hmembers, Members.bind_join, Members.join_other]
      | unwanted =>
        simp only [Purpose.members, ok_bind, skip_eq ht hm.ends, hmembers, Option.bind_some, Members.bind_none_join]

end

mutual

theorem of_readShape : ∀ {fuel room : Nat} {shape : Shape} {bs rest : Bytes} {v : Json},
    readShape fuel room shape bs = .ok (v, rest) → ∃ t, Value t bs rest
  | 0, _, _, _, _, _, h => by rw [readShape] at h; cases h
  | fuel + 1, room, shape, bs, rest, v, h => by
    rw [readShape] at h
    split at h
    · cases h
    next b after hb =>
    split at h
    · next hopen =>
      subst hopen
      split at h
      · split at h
        · cases h
        · rw [bind_eq_ok_iff] at h
          obtain ⟨⟨items, _⟩, hitems, h⟩ := h
          cases h
          obtain ⟨trees, hi⟩ := of_readItems hitems
          exact ⟨_, .arr hb hi⟩
      · split at h
        · cases h
        · rw [bind_eq_ok_iff] at h
          obtain ⟨⟨items, _⟩, hitems, h⟩ := h
          cases h
          obtain ⟨trees, hi⟩ := of_readItems hitems
          exact ⟨_, .arr hb hi⟩
      · split at h
        · cases h
        · rw [bind_eq_ok_iff] at h
          obtain ⟨⟨members, _⟩, hfields, h⟩ := h
          cases h
          obtain ⟨trees, hi⟩ := of_readFields hfields
          exact ⟨_, .arr hb hi⟩
      · cases h
    split at h
    · next hopen =>
      subst hopen
      split at h
      · cases h
      split at h
      · cases h
      · rw [bind_eq_ok_iff] at h
        obtain ⟨⟨members, _⟩, hmembers, h⟩ := h
        obtain ⟨v, _, h⟩ := bind_eq_ok_iff.1 h
        cases h
        obtain ⟨trees, hm⟩ := of_readMembers hmembers
        exact ⟨_, .obj hb hm⟩
    · rw [bind_eq_ok_iff] at h
      obtain ⟨⟨scalar, _⟩, hscalar, h⟩ := h
      obtain ⟨v, _, h⟩ := bind_eq_ok_iff.1 h
      cases h
      obtain ⟨t, ds, hds, ht⟩ := of_readScalar hscalar
      exact ⟨t, .token (hb.trans hds) ht⟩

theorem of_readItems : ∀ {fuel room : Nat} {item : Shape} {first : Bool} {bs rest : Bytes} {items : List Json},
    readItems fuel room item first bs = .ok (items, rest) → ∃ trees, Items first trees bs rest
  | 0, _, _, _, _, _, _, h => by rw [readItems] at h; cases h
  | fuel + 1, room, item, first, bs, rest, items, h => by
    rw [readItems, bind_eq_ok_iff] at h
    obtain ⟨⟨more, after⟩, hnext, h⟩ := h
    have hnext := of_nextItem hnext
    cases more with
    | false =>
      cases h
      exact ⟨_, .nil hnext⟩
    | true =>
      obtain ⟨start, hs, rfl⟩ := hnext
      obtain ⟨⟨v, after⟩, hvalue, h⟩ := bind_eq_ok_iff.1 h
      obtain ⟨⟨values, _⟩, hitems, h⟩ := bind_eq_ok_iff.1 h
      cases h
      rw [readShape_skipBlanks] at hvalue
      obtain ⟨t, ht⟩ := of_readShape hvalue
      obtain ⟨trees, hi⟩ := of_readItems hitems
      exact ⟨_, .cons hs ht hi⟩

theorem of_readFields : ∀ {fuel room : Nat} {name : String} {fields left : List Field} {i : Nat} {bs rest : Bytes}
    {members : List (String × Json)}, readFields fuel room name fields i left bs = .ok (members, rest) →
    ∃ trees, Items (decide (i = 0)) trees bs rest
  | 0, _, _, _, _, _, _, _, _, h => by rw [readFields] at h; cases h
  | fuel + 1, room, name, fields, [], i, bs, rest, members, h => by
    rw [readFields, bind_eq_ok_iff] at h
    obtain ⟨after, hclose, h⟩ := h
    cases h
    exact ⟨_, .nil (closeList_eq_ok_iff.1 hclose)⟩
  | fuel + 1, room, name, fields, (fieldName, shape, absent) :: left, i, bs, rest, members, h => by
    rw [readFields, bind_eq_ok_iff] at h
    obtain ⟨⟨more, after⟩, hnext, h⟩ := h
    have hnext := of_nextItem hnext
    cases more with
    | false =>
      obtain ⟨done, _, h⟩ := bind_eq_ok_iff.1 h
      cases h
      exact ⟨_, .nil hnext⟩
    | true =>
      obtain ⟨start, hs, rfl⟩ := hnext
      obtain ⟨⟨v, after⟩, hvalue, h⟩ := bind_eq_ok_iff.1 h
      obtain ⟨⟨values, _⟩, hfields, h⟩ := bind_eq_ok_iff.1 h
      cases h
      rw [readShape_skipBlanks] at hvalue
      obtain ⟨t, ht⟩ := of_readShape hvalue
      obtain ⟨trees, hi⟩ := of_readFields hfields
      exact ⟨_, .cons hs ht hi⟩

theorem of_readMembers : ∀ {fuel room : Nat} {shape : Shape} {first : Bool} {read m : Members} {bs rest : Bytes},
    readMembers fuel room shape first read bs = .ok (m, rest) → ∃ trees, Entries first trees bs rest
  | 0, _, _, _, _, _, _, _, h => by rw [readMembers] at h; cases h
  | fuel + 1, room, shape, first, read, m, bs, rest, h => by
    rw [readMembers, bind_eq_ok_iff] at h
    obtain ⟨⟨more, after⟩, hnext, h⟩ := h
    have hnext := of_nextMember hnext
    cases more with
    | false =>
      cases h
      exact ⟨_, .nil hnext⟩
    | true =>
      obtain ⟨start, hs, hq⟩ := hnext
      simp only at h
      rw [bind_eq_ok_iff] at h
      obtain ⟨⟨name, named⟩, htext, h⟩ := h
      obtain ⟨raw, rfl, hr⟩ := of_readText htext
      simp only at h
      split at h
      · split at h
        · cases h
        · obtain ⟨colon, hcolon, h⟩ := bind_eq_ok_iff.1 h
          obtain ⟨⟨v, after⟩, hvalue, h⟩ := bind_eq_ok_iff.1 h
          obtain ⟨t, ht⟩ := of_readShape hvalue
          obtain ⟨trees, hm⟩ := of_readMembers h
          exact ⟨_, .cons hs hq hr (readColon_eq_ok_iff.1 hcolon) ht hm⟩
      · obtain ⟨colon, hcolon, h⟩ := bind_eq_ok_iff.1 h
        obtain ⟨⟨v, after⟩, hvalue, h⟩ := bind_eq_ok_iff.1 h
        obtain ⟨t, ht⟩ := of_readShape hvalue
        obtain ⟨trees, hm⟩ := of_readMembers h
        exact ⟨_, .cons hs hq hr (readColon_eq_ok_iff.1 hcolon) ht hm⟩
      · obtain ⟨colon, hcolon, h⟩ := bind_eq_ok_iff.1 h
        obtain ⟨after, hskip, h⟩ := bind_eq_ok_iff.1 h
        obtain ⟨t, ht⟩ := of_skipValue hskip
        obtain ⟨trees, hm⟩ := of_readMembers h
        exact ⟨_, .cons hs hq hr (readColon_eq_ok_iff.1 hcolon) ht hm⟩

end

theorem read_eq {t : Tree} (h : Spells t bs) (shape : Shape) :
    (Json.read shape bs).toOption = decode Parts.read? nesting shape t := by
  obtain ⟨rest, hv, hrest⟩ := h
  have hread := hv.read (ends_of_skipBlanks (hrest ▸ nofun)) nesting shape (Nat.le_add_right _ 2)
  rw [Json.read, toOption_bind, hread]
  cases decode Parts.read? nesting shape t with
  | none => rfl
  | some v => simp [hrest]

theorem of_read {shape : Shape} {v : Json} (h : Json.read shape bs = .ok v) : ∃ t, Spells t bs := by
  rw [Json.read, bind_eq_ok_iff] at h
  obtain ⟨⟨v, rest⟩, hread, h⟩ := h
  obtain ⟨t, ht⟩ := of_readShape hread
  simp only at h
  split at h
  · next hrest => exact ⟨t, rest, ht, hrest⟩
  · cases h

/-- A text is read as a value exactly if it spells a tree that says this value. -/
theorem read_eq_ok_iff {shape : Shape} {v : Json} :
    Json.read shape bs = .ok v ↔ ∃ t, Spells t bs ∧ decode Parts.read? nesting shape t = some v := by
  constructor
  · intro h
    obtain ⟨t, ht⟩ := of_read h
    exact ⟨t, ht, by rw [← read_eq ht, h]; rfl⟩
  · rintro ⟨t, ht, hv⟩
    rw [← toOption_eq_some_iff, read_eq ht, hv]

end Values

end CloudOffers.Json
