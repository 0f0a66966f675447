import CloudOffers.Json.Skip
/-!
The grammar of numbers and texts. What is written is read up to where it ends and no further, and what
is read was written.
-/

namespace CloudOffers.Json

section Outcomes

variable {ε α β : Type}

@[simp] theorem toOption_ok (a : α) : (Except.ok a : Except ε α).toOption = some a := rfl

@[simp] theorem toOption_error (e : ε) : (Except.error e : Except ε α).toOption = none := rfl

@[simp] theorem toOption_bind (x : Except ε α) (f : α → Except ε β) :
    (x >>= f).toOption = x.toOption.bind (fun a ↦ (f a).toOption) := by
  cases x <;> rfl

@[simp] theorem toOption_map (x : Except ε α) (f : α → β) : (x.map f).toOption = x.toOption.map f := by
  cases x <;> rfl

theorem toOption_eq_some_iff {x : Except ε α} {a : α} : x.toOption = some a ↔ x = .ok a := by
  cases x <;> simp

@[simp] theorem ok_bind (a : α) (f : α → Except ε β) : (Except.ok a >>= f) = f a := rfl

theorem bind_eq_ok_iff {x : Except ε α} {f : α → Except ε β} {b : β} :
    (x >>= f) = .ok b ↔ ∃ a, x = .ok a ∧ f a = .ok b := by
  cases x with
  | ok a => simp
  | error e => exact ⟨nofun, nofun⟩

theorem map_eq_ok_iff {x : Except ε α} {f : α → β} {b : β} :
    x.map f = .ok b ↔ ∃ a, x = .ok a ∧ f a = b := by
  cases x with
  | ok a => exact ⟨fun h ↦ ⟨a, rfl, Except.ok.inj h⟩, fun ⟨_, ha, hb⟩ ↦ by cases ha; exact congrArg _ hb⟩
  | error e => exact ⟨nofun, nofun⟩

end Outcomes

def Digits (ds : Bytes) : Prop := ds ≠ [] ∧ ∀ d ∈ ds, isDigit d = true

inductive WritesSign : Bool → Bytes → Prop
  | plus : WritesSign false []
  | minus : WritesSign true [0x2d]

/-- No leading zeros. -/
inductive WritesWhole : Bytes → Prop
  | zero : WritesWhole [0x30]
  | digits {ds : Bytes} (h : Digits ds) (hz : ds.head? ≠ some 0x30) : WritesWhole ds

inductive WritesFraction : Option Bytes → Bytes → Prop
  | absent : WritesFraction none []
  | digits {ds : Bytes} (h : Digits ds) : WritesFraction (some ds) (0x2e :: ds)

inductive WritesExponent : Option Int → Bytes → Prop
  | absent : WritesExponent none []
  | unsigned {e : UInt8} {ds : Bytes} (he : e = 0x65 ∨ e = 0x45) (h : Digits ds) :
      WritesExponent (some (digitsValue ds)) (e :: ds)
  | positive {e : UInt8} {ds : Bytes} (he : e = 0x65 ∨ e = 0x45) (h : Digits ds) :
      WritesExponent (some (digitsValue ds)) (e :: 0x2b :: ds)
  | negative {e : UInt8} {ds : Bytes} (he : e = 0x65 ∨ e = 0x45) (h : Digits ds) :
      WritesExponent (some (-(digitsValue ds : Int))) (e :: 0x2d :: ds)

inductive Writes : Parts → Bytes → Prop
  | intro {sign whole fraction exponent : Bytes} {negative : Bool} {f : Option Bytes} {e : Option Int}
      (hs : WritesSign negative sign) (hw : WritesWhole whole) (hf : WritesFraction f fraction)
      (he : WritesExponent e exponent) :
      Writes ⟨negative, whole, f, e⟩ (sign ++ (whole ++ (fraction ++ exponent)))

/-- What stands between the quotes of a text. -/
inductive IsBody : Bytes → Prop
  | nil : IsBody []
  | plain {b : UInt8} {raw : Bytes} (h : ¬b < 0x20) (hq : b ≠ 0x22) (hs : b ≠ 0x5c) (hr : IsBody raw) :
      IsBody (b :: raw)
  | short {b : UInt8} {raw : Bytes} (h : b ∈ [0x22, 0x5c, 0x2f, 0x62, 0x66, 0x6e, 0x72, 0x74])
      (hr : IsBody raw) : IsBody (0x5c :: b :: raw)
  | code {a b c d : UInt8} {raw : Bytes} (h : ∀ x ∈ [a, b, c, d], (hexValue? x).isSome)
      (hr : IsBody raw) : IsBody (0x5c :: 0x75 :: a :: b :: c :: d :: raw)

section Numbers

def NoDigit (rest : Bytes) : Prop := ∀ b ∈ rest.head?, isDigit b = false

/-- Bytes that continue no number. -/
def Ends (rest : Bytes) : Prop :=
  ∀ b ∈ rest.head?, isDigit b = false ∧ b ≠ 0x2e ∧ b ≠ 0x65 ∧ b ≠ 0x45

variable {bs ds rest : Bytes}

theorem Ends.noDigit (h : Ends rest) : NoDigit rest := fun b hb ↦ (h b hb).1

theorem NoDigit.takeWhile (h : NoDigit rest) : rest.takeWhile isDigit = [] := by
  cases rest with
  | nil => rfl
  | cons b rest => rw [List.takeWhile_cons, h b rfl]; rfl

theorem NoDigit.dropWhile (h : NoDigit rest) : rest.dropWhile isDigit = rest := by
  cases rest with
  | nil => rfl
  | cons b rest => rw [List.dropWhile_cons, h b rfl]; rfl

theorem takeWhile_append (hd : ∀ d ∈ ds, isDigit d = true) (h : NoDigit rest) :
    (ds ++ rest).takeWhile isDigit = ds := by
  rw [List.takeWhile_append_of_pos hd, h.takeWhile, List.append_nil]

theorem dropWhile_append (hd : ∀ d ∈ ds, isDigit d = true) (h : NoDigit rest) :
    (ds ++ rest).dropWhile isDigit = rest := by
  rw [List.dropWhile_append_of_pos hd, h.dropWhile]

theorem digits_takeWhile {b : UInt8} (hb : isDigit b = true) (bs : Bytes) :
    Digits (b :: bs.takeWhile isDigit) :=
  ⟨nofun, List.forall_mem_cons.2 ⟨hb, fun _ hd ↦ List.all_eq_true.1 List.all_takeWhile _ hd⟩⟩

theorem readDigits_append (hd : Digits ds) (h : NoDigit rest) :
    readDigits (ds ++ rest) = .ok (ds, rest) := by
  obtain ⟨hne, hall⟩ := hd
  obtain ⟨d, ds, rfl⟩ := List.exists_cons_of_ne_nil hne
  rw [List.cons_append, readDigits, if_pos (hall d List.mem_cons_self), ← List.cons_append,
    takeWhile_append hall h, dropWhile_append hall h]

theorem of_readDigits (h : readDigits bs = .ok (ds, rest)) : bs = ds ++ rest ∧ Digits ds := by
  cases bs with
  | nil => cases h
  | cons b bs =>
    rw [readDigits] at h
    split at h
    · next hb =>
      obtain ⟨rfl, rfl⟩ := Prod.ext_iff.1 (Except.ok.inj h)
      refine ⟨(List.takeWhile_append_dropWhile ..).symm, ?_⟩
      rw [List.takeWhile_cons, if_pos hb]
      exact digits_takeWhile hb bs
    · cases h

theorem readInteger_append (hw : WritesWhole ds) (h : NoDigit rest) :
    readInteger (ds ++ rest) = .ok (ds, rest) := by
  cases hw with
  | zero =>
    rw [List.cons_append, readInteger, if_pos rfl]
    cases rest with
    | nil => rfl
    | cons b rest => simp [h b rfl]
  | digits hd hz =>
    obtain ⟨d, ds, rfl⟩ := List.exists_cons_of_ne_nil hd.1
    have hne : d ≠ 0x30 := fun he ↦ hz (congrArg some he)
    obtain ⟨hhead, htail⟩ := List.forall_mem_cons.1 hd.2
    rw [List.cons_append, readInteger, if_neg hne, if_pos hhead, takeWhile_append htail h,
      dropWhile_append htail h]

theorem of_readInteger (h : readInteger bs = .ok (ds, rest)) : bs = ds ++ rest ∧ WritesWhole ds := by
  cases bs with
  | nil => cases h
  | cons b bs =>
    rw [readInteger] at h
    split at h
    · next hb =>
      split at h
      · cases h
      · obtain ⟨rfl, rfl⟩ := Prod.ext_iff.1 (Except.ok.inj h)
        exact ⟨rfl, hb ▸ .zero⟩
    · next hne =>
      split at h
      · next hb =>
        obtain ⟨rfl, rfl⟩ := Prod.ext_iff.1 (Except.ok.inj h)
        refine ⟨?_, .digits (digits_takeWhile hb bs) fun he ↦ hne (Option.some_inj.1 he)⟩
        rw [List.cons_append, List.takeWhile_append_dropWhile]
      · cases h

theorem readFraction_append {f : Option Bytes} (hf : WritesFraction f ds) (h : NoDigit rest)
    (hdot : ds = [] → rest.head? ≠ some 0x2e) : readFraction (ds ++ rest) = .ok (f, rest) := by
  cases hf with
  | absent =>
    rw [List.nil_append, readFraction]
    rintro bs rfl
    exact hdot rfl rfl
  | digits hd => rw [List.cons_append, readFraction, readDigits_append hd h]; rfl

theorem of_readFraction {f : Option Bytes} (h : readFraction bs = .ok (f, rest)) :
    ∃ ds, bs = ds ++ rest ∧ WritesFraction f ds := by
  rw [readFraction.eq_def] at h
  split at h
  · obtain ⟨⟨ds, _⟩, hd, heq⟩ := map_eq_ok_iff.1 h
    cases heq
    obtain ⟨rfl, hdigits⟩ := of_readDigits hd
    exact ⟨0x2e :: ds, rfl, .digits hdigits⟩
  · obtain ⟨rfl, rfl⟩ := Prod.ext_iff.1 (Except.ok.inj h)
    exact ⟨[], rfl, .absent⟩

theorem readExponentSign_digit {d : UInt8} (hd : isDigit d = true) (bs : Bytes) :
    readExponentSign (d :: bs) = (false, d :: bs) := by
  rw [readExponentSign]
  · intro after heq
    cases (List.cons.inj heq).1 ▸ hd
  · intro after heq
    cases (List.cons.inj heq).1 ▸ hd

theorem readExponent_append {e : Option Int} (he : WritesExponent e ds) (h : NoDigit rest)
    (hmark : ds = [] → ∀ b ∈ rest.head?, b ≠ 0x65 ∧ b ≠ 0x45) :
    readExponent (ds ++ rest) = .ok (e, rest) := by
  have hmarked {b : UInt8} (hb : b = 0x65 ∨ b = 0x45) : (decide (b = 0x65) || decide (b = 0x45)) = true := by
    simpa using hb
  cases he with
  | absent =>
    cases rest with
    | nil => rfl
    | cons b rest =>
      obtain ⟨hlower, hupper⟩ := hmark rfl b rfl
      exact if_neg (by simp [hlower, hupper])
  | unsigned he hd =>
    obtain ⟨d, ds, rfl⟩ := List.exists_cons_of_ne_nil hd.1
    have hread := readDigits_append hd h
    rw [List.cons_append] at hread
    rw [List.cons_append, List.cons_append, readExponent, if_pos (hmarked he),
      readExponentSign_digit (hd.2 d List.mem_cons_self), hread]
    rfl
  | positive he hd | negative he hd =>
    rw [List.cons_append, readExponent, if_pos (hmarked he), List.cons_append, readExponentSign, readDigits_append hd h]
    rfl

theorem of_readExponent {e : Option Int} (h : readExponent bs = .ok (e, rest)) :
    ∃ ds, bs = ds ++ rest ∧ WritesExponent e ds := by
  cases bs with
  | nil =>
    obtain ⟨rfl, rfl⟩ := Prod.ext_iff.1 (Except.ok.inj h)
    exact ⟨[], rfl, .absent⟩
  | cons b bs =>
    rw [readExponent] at h
    split at h
    · next hb =>
      have hb : b = 0x65 ∨ b = 0x45 := by simpa using hb
      obtain ⟨⟨ds, _⟩, hread, heq⟩ := map_eq_ok_iff.1 h
      cases heq
      obtain ⟨hbs, hdigits⟩ := of_readDigits hread
      rw [readExponentSign.eq_def] at hbs ⊢
      split at hbs
      · exact ⟨_, congrArg _ (congrArg _ hbs), .negative hb hdigits⟩
      · exact ⟨_, congrArg _ (congrArg _ hbs), .positive hb hdigits⟩
      · exact ⟨_, congrArg _ hbs, .unsigned hb hdigits⟩
    · obtain ⟨rfl, rfl⟩ := Prod.ext_iff.1 (Except.ok.inj h)
      exact ⟨[], rfl, .absent⟩

theorem readSign_append {negative : Bool} (hs : WritesSign negative ds) (h : rest.head? ≠ some 0x2d) :
    readSign (ds ++ rest) = (negative, rest) := by
  cases hs with
  | minus => rfl
  | plus =>
    rw [List.nil_append, readSign]
    rintro bs rfl
    exact h rfl

theorem of_readSign (bs : Bytes) :
    ∃ ds, bs = ds ++ (readSign bs).2 ∧ WritesSign (readSign bs).1 ds := by
  rw [readSign.eq_def]
  split
  · exact ⟨_, rfl, .minus⟩
  · exact ⟨[], rfl, .plus⟩

theorem skipDigits_eq (bs : Bytes) :
    (skipDigits bs).toOption = (readDigits bs).toOption.map (·.2) := by
  cases bs with
  | nil => rfl
  | cons b bs =>
    rw [skipDigits, readDigits]
    split
    · next hb => rw [List.dropWhile_cons, if_pos hb]; rfl
    · rfl

theorem skipInteger_eq (bs : Bytes) :
    (skipInteger bs).toOption = (readInteger bs).toOption.map (·.2) := by
  cases bs with
  | nil => rfl
  | cons b bs =>
    rw [skipInteger, readInteger]
    split
    · split <;> rfl
    · split <;> rfl

theorem skipFraction_eq (bs : Bytes) :
    (skipFraction bs).toOption = (readFraction bs).toOption.map (·.2) := by
  by_cases hdot : ∃ after, bs = 0x2e :: after
  · obtain ⟨after, rfl⟩ := hdot
    rw [skipFraction, readFraction, toOption_map, skipDigits_eq, Option.map_map]
    rfl
  · have hother : ∀ after, bs = 0x2e :: after → False := fun after h ↦ hdot ⟨after, h⟩
    rw [skipFraction, readFraction]
    · rfl
    · exact hother
    · exact hother

theorem skipExponent_eq (bs : Bytes) :
    (skipExponent bs).toOption = (readExponent bs).toOption.map (·.2) := by
  cases bs with
  | nil => rfl
  | cons b bs =>
    rw [skipExponent, readExponent]
    split
    · rw [skipDigits_eq, toOption_map, Option.map_map]
      rfl
    · rfl

theorem skipNumber_eq (bs : Bytes) :
    (skipNumber bs).toOption = (readParts bs).toOption.map (·.2) := by
  rw [skipNumber, readParts]
  simp only [toOption_bind, toOption_ok, skipInteger_eq, skipFraction_eq, skipExponent_eq,
    Option.map_eq_bind, Option.bind_assoc, Option.bind_some, Function.comp_def]

theorem WritesWhole.head (h : WritesWhole ds) : ∃ d rest, ds = d :: rest ∧ isDigit d = true := by
  cases h with
  | zero => exact ⟨_, _, rfl, rfl⟩
  | digits hd =>
    obtain ⟨d, rest, rfl⟩ := List.exists_cons_of_ne_nil hd.1
    exact ⟨d, rest, rfl, hd.2 d List.mem_cons_self⟩

/-- What starts with an exponent, or ends the number, goes on neither with a digit nor with a point. -/
theorem WritesExponent.head {e : Option Int} (he : WritesExponent e ds) (h : Ends rest) :
    ∀ b ∈ (ds ++ rest).head?, isDigit b = false ∧ b ≠ 0x2e := by
  have hmark {b : UInt8} (hb : b = 0x65 ∨ b = 0x45) : isDigit b = false ∧ b ≠ 0x2e := by
    rcases hb with rfl | rfl <;> decide
  cases he with
  | absent => exact fun b hb ↦ ⟨(h b hb).1, (h b hb).2.1⟩
  | unsigned hb | positive hb | negative hb =>
    rintro _ ⟨⟩
    exact hmark hb

theorem readParts_append {p : Parts} (hp : Writes p ds) (h : Ends rest) :
    readParts (ds ++ rest) = .ok (p, rest) := by
  cases hp with
  | @intro sign whole fraction exponent negative f e hs hw hf he =>
    have hexponent : readExponent (exponent ++ rest) = .ok (e, rest) :=
      readExponent_append he h.noDigit fun _ b hb ↦ (h b hb).2.2
    have hafter := he.head h
    have hfraction : readFraction (fraction ++ (exponent ++ rest)) = .ok (f, exponent ++ rest) :=
      readFraction_append hf (fun b hb ↦ (hafter b hb).1) fun _ hb ↦ (hafter _ hb).2 rfl
    have hdigit : NoDigit (fraction ++ (exponent ++ rest)) := by
      cases hf with
      | absent => exact fun b hb ↦ (hafter b hb).1
      | digits => rintro _ ⟨⟩; rfl
    have hsign : readSign (sign ++ (whole ++ (fraction ++ (exponent ++ rest)))) =
        (negative, whole ++ (fraction ++ (exponent ++ rest))) := by
      refine readSign_append hs ?_
      obtain ⟨d, ds, rfl, hd⟩ := hw.head
      rintro ⟨⟩
      cases hd
    simp only [List.append_assoc, readParts, hsign, readInteger_append hw hdigit, hfraction,
      hexponent, ok_bind]

theorem of_readParts {p : Parts} (h : readParts bs = .ok (p, rest)) :
    ∃ ds, bs = ds ++ rest ∧ Writes p ds := by
  obtain ⟨sign, hsign, hs⟩ := of_readSign bs
  obtain ⟨⟨whole, after⟩, hwhole, h⟩ := bind_eq_ok_iff.1 h
  obtain ⟨⟨fraction, after'⟩, hfraction, h⟩ := bind_eq_ok_iff.1 h
  obtain ⟨⟨exponent, _⟩, hexponent, h⟩ := bind_eq_ok_iff.1 h
  cases h
  obtain ⟨hbs, hw⟩ := of_readInteger hwhole
  obtain ⟨fractionText, rfl, hf⟩ := of_readFraction hfraction
  obtain ⟨exponentText, rfl, he⟩ := of_readExponent hexponent
  refine ⟨_, ?_, .intro hs hw hf he⟩
  rw [hsign, hbs]
  simp only [List.append_assoc]

end Numbers

section Texts

variable {bs raw rest : Bytes}

theorem readWord_append (word rest : Bytes) : readWord word (word ++ rest) = .ok ((), rest) := by
  induction word with
  | nil => rw [List.nil_append, readWord]
  | cons w word ih => rw [List.cons_append, readWord, if_pos rfl, ih]

theorem of_readWord {word : Bytes} {u : Unit} (h : readWord word bs = .ok (u, rest)) :
    bs = word ++ rest := by
  induction word generalizing bs with
  | nil => rw [readWord] at h; cases h; rfl
  | cons w word ih =>
    cases bs with
    | nil => rw [readWord] at h; cases h
    | cons b bs =>
      rw [readWord] at h
      split at h
      · next hb => rw [hb, ih h, List.cons_append]
      · cases h

theorem readHex_cons {a b c d : UInt8} (h : ∀ x ∈ [a, b, c, d], (hexValue? x).isSome) :
    ∃ n, ∀ rest, readHex (a :: b :: c :: d :: rest) = .ok (n, rest) := by
  simp only [List.mem_cons, List.not_mem_nil, or_false, forall_eq_or_imp, forall_eq,
    Option.isSome_iff_exists] at h
  obtain ⟨⟨a', ha⟩, ⟨b', hb⟩, ⟨c', hc⟩, ⟨d', hd⟩⟩ := h
  exact ⟨_, fun rest ↦ by rw [readHex, ha, hb, hc, hd]⟩

theorem of_readHex {n : Nat} (h : readHex bs = .ok (n, rest)) :
    ∃ a b c d, bs = a :: b :: c :: d :: rest ∧ ∀ x ∈ [a, b, c, d], (hexValue? x).isSome := by
  rw [readHex.eq_def] at h
  split at h
  · next a b c d bs =>
    split at h
    · next ha hb hc hd =>
      cases h
      exact ⟨a, b, c, d, rfl, by simp [ha, hb, hc, hd]⟩
    · cases h
  · cases h

theorem readEscape_short {b : UInt8} (h : b ∈ [0x22, 0x5c, 0x2f, 0x62, 0x66, 0x6e, 0x72, 0x74]) :
    ∃ c, ∀ rest, readEscape (b :: rest) = .ok (c, rest) := by
  simp only [List.mem_cons, List.not_mem_nil, or_false] at h
  rcases h with rfl | rfl | rfl | rfl | rfl | rfl | rfl | rfl <;> exact ⟨_, fun _ ↦ rfl⟩

theorem readSecondHalf_append (first : Nat) (hr : IsBody raw) :
    (∃ s raw', raw'.length < raw.length ∧ IsBody raw' ∧
      ∀ rest, readSecondHalf first (raw ++ 0x22 :: rest) = .ok (s, raw' ++ 0x22 :: rest)) ∨
    ∃ e, ∀ rest, readSecondHalf first (raw ++ 0x22 :: rest) = .error e := by
  cases hr with
  | nil => exact .inr ⟨_, fun rest ↦ rfl⟩
  | @plain b raw hb hq hs hr =>
    refine .inr ⟨.brokenSurrogatePair, fun rest ↦ ?_⟩
    rw [List.cons_append, readSecondHalf]
    · exact nofun
    · exact fun h ↦ hs (List.cons.inj h).1
    · exact fun _ h ↦ hs (List.cons.inj h).1
  | @short b raw hb hr =>
    have hne : b ≠ 0x75 := by
      rintro rfl
      revert hb
      decide
    refine .inr ⟨.brokenSurrogatePair, fun rest ↦ ?_⟩
    rw [List.cons_append, List.cons_append, readSecondHalf]
    · exact nofun
    · exact nofun
    · exact fun _ h ↦ hne (List.cons.inj (List.cons.inj h).2).1
  | @code a b c d raw hhex hr =>
    obtain ⟨n, hn⟩ := readHex_cons hhex
    simp only [List.cons_append, readSecondHalf, hn, ok_bind]
    by_cases hlow : (decide (0xdc00 ≤ n) && decide (n ≤ 0xdfff)) = true
    · exact .inl ⟨_, raw, by simp only [List.length_cons]; omega, hr, fun rest ↦ if_pos hlow⟩
    · exact .inr ⟨_, fun rest ↦ if_neg hlow⟩

/-- An escape by code is read by itself, or with the one that follows it, or not at all. -/
theorem readUnicode_append {a b c d : UInt8} (h : ∀ x ∈ [a, b, c, d], (hexValue? x).isSome)
    (hr : IsBody raw) :
    (∃ s raw', raw'.length ≤ raw.length ∧ IsBody raw' ∧
      ∀ rest, readUnicode (a :: b :: c :: d :: (raw ++ 0x22 :: rest)) = .ok (s, raw' ++ 0x22 :: rest)) ∨
    ∃ e, ∀ rest, readUnicode (a :: b :: c :: d :: (raw ++ 0x22 :: rest)) = .error e := by
  obtain ⟨n, hn⟩ := readHex_cons h
  simp only [readUnicode, hn, ok_bind]
  by_cases hlow : (decide (0xdc00 ≤ n) && decide (n ≤ 0xdfff)) = true
  · simp only [if_pos hlow]
    exact .inr ⟨_, fun rest ↦ rfl⟩
  · by_cases hhigh : (decide (0xd800 ≤ n) && decide (n ≤ 0xdbff)) = true
    · simp only [if_neg hlow, if_pos hhigh]
      refine (readSecondHalf_append n hr).imp_left ?_
      rintro ⟨s, raw', hlt, h⟩
      exact ⟨s, raw', Nat.le_of_lt hlt, h⟩
    · simp only [if_neg hlow, if_neg hhigh]
      exact .inl ⟨_, raw, Nat.le_refl _, hr, fun rest ↦ rfl⟩

/-- A text is read up to the quote that ends it, whatever follows. -/
theorem readTextBytes_append (hraw : IsBody raw) : ∃ r : Except Error Bytes,
    ∀ fuel rest, raw.length < fuel → readTextBytes fuel (raw ++ 0x22 :: rest) = r.map (·, rest) := by
  have hbind (r : Except Error Bytes) (c rest : Bytes) :
      ((r.map (·, rest)) >>= fun p ↦ (Except.ok (c ++ p.1, p.2) : Except Error (Bytes × Bytes))) =
        (r.map (c ++ ·)).map (·, rest) := by
    cases r <;> rfl
  -- the two halves of a surrogate pair are read at once
  induction hn : raw.length using Nat.strongRecOn generalizing raw with
  | ind n ih =>
    subst hn
    cases hraw with
    | nil =>
      refine ⟨.ok [], fun fuel rest hfuel ↦ ?_⟩
      obtain ⟨fuel, rfl⟩ := Nat.exists_eq_succ_of_ne_zero (Nat.ne_zero_of_lt hfuel)
      rfl
    | @plain b raw hb hq hs hr =>
      obtain ⟨r, hread⟩ := ih _ (Nat.lt_succ_self _) hr rfl
      refine ⟨r.map ([b] ++ ·), fun fuel rest hfuel ↦ ?_⟩
      obtain ⟨fuel, rfl⟩ := Nat.exists_eq_succ_of_ne_zero (Nat.ne_zero_of_lt hfuel)
      rw [List.cons_append, readTextBytes, if_neg hq, if_neg hs, if_neg hb,
        hread fuel rest (Nat.lt_of_succ_lt_succ hfuel)]
      exact hbind r [b] rest
    | @short b raw hb hr =>
      obtain ⟨c, hc⟩ := readEscape_short hb
      obtain ⟨r, hread⟩ := ih _ (by simp only [List.length_cons]; omega) hr rfl
      refine ⟨r.map (c ++ ·), fun fuel rest hfuel ↦ ?_⟩
      obtain ⟨fuel, rfl⟩ := Nat.exists_eq_succ_of_ne_zero (Nat.ne_zero_of_lt hfuel)
      simp only [List.length_cons] at hfuel
      rw [List.cons_append, List.cons_append, readTextBytes, if_neg (by decide), if_pos rfl, hc, ok_bind]
      simp only [hread fuel rest (by omega)]
      exact hbind r c rest
    | @code a b c d raw hhex hr =>
      have hescape (rest : Bytes) : readEscape (0x75 :: a :: b :: c :: d :: (raw ++ 0x22 :: rest)) =
          readUnicode (a :: b :: c :: d :: (raw ++ 0x22 :: rest)) := rfl
      rcases readUnicode_append hhex hr with ⟨s, raw', hle, hr', hs⟩ | ⟨e, he⟩
      · obtain ⟨r, hread⟩ := ih _ (by simp only [List.length_cons]; omega) hr' rfl
        refine ⟨r.map (s ++ ·), fun fuel rest hfuel ↦ ?_⟩
        obtain ⟨fuel, rfl⟩ := Nat.exists_eq_succ_of_ne_zero (Nat.ne_zero_of_lt hfuel)
        simp only [List.length_cons] at hfuel
        simp only [List.cons_append]
        rw [readTextBytes, if_neg (by decide), if_pos rfl, hescape, hs, ok_bind]
        simp only [hread fuel rest (by omega)]
        exact hbind r s rest
      · refine ⟨.error e, fun fuel rest hfuel ↦ ?_⟩
        obtain ⟨fuel, rfl⟩ := Nat.exists_eq_succ_of_ne_zero (Nat.ne_zero_of_lt hfuel)
        simp only [List.cons_append]
        rw [readTextBytes, if_neg (by decide), if_pos rfl, hescape, he]
        rfl

/-- What a text says, from the bytes between its quotes. -/
def textOf (raw : Bytes) : Option String := (readText (raw ++ [0x22])).toOption.map (·.1)

theorem readText_append (hraw : IsBody raw) (rest : Bytes) :
    (readText (raw ++ 0x22 :: rest)).toOption = (textOf raw).map (·, rest) := by
  obtain ⟨r, hread⟩ := readTextBytes_append hraw
  have htext (rest : Bytes) : readText (raw ++ 0x22 :: rest) = (do
      let bytes ← r
      (String.fromUTF8? ⟨bytes.toArray⟩).elim (.error .invalidCodePoint) (fun s ↦ .ok (s, rest))) := by
    rw [readText, hread _ rest (by simp only [List.length_append]; omega)]
    cases r with
    | error e => rfl
    | ok bytes =>
      simp only [Except.map, ok_bind]
      cases String.fromUTF8? ⟨bytes.toArray⟩ <;> rfl
  rw [textOf, htext, htext]
  cases r with
  | error e => rfl
  | ok bytes =>
    simp only [ok_bind]
    cases String.fromUTF8? ⟨bytes.toArray⟩ <;> rfl

theorem of_readSecondHalf {first : Nat} {s : Bytes} (h : readSecondHalf first bs = .ok (s, rest)) :
    ∃ a b c d, bs = 0x5c :: 0x75 :: a :: b :: c :: d :: rest ∧
      ∀ x ∈ [a, b, c, d], (hexValue? x).isSome := by
  rw [readSecondHalf.eq_def] at h
  split at h
  · cases h
  · cases h
  · rw [bind_eq_ok_iff] at h
    obtain ⟨⟨n, after⟩, hhex, h⟩ := h
    obtain ⟨a, b, c, d, rfl, hall⟩ := of_readHex hhex
    simp only at h
    split at h
    · obtain rfl : after = rest := (Prod.ext_iff.1 (Except.ok.inj h)).2
      exact ⟨a, b, c, d, rfl, hall⟩
    · exact nomatch h
  · cases h

theorem of_readUnicode {s : Bytes} (h : readUnicode bs = .ok (s, rest)) :
    ∃ e, bs = e ++ rest ∧ ∀ raw, IsBody raw → IsBody (0x5c :: 0x75 :: (e ++ raw)) := by
  rw [readUnicode, bind_eq_ok_iff] at h
  obtain ⟨⟨n, after⟩, hhex, h⟩ := h
  obtain ⟨a, b, c, d, rfl, hall⟩ := of_readHex hhex
  simp only at h
  split at h
  · cases h
  · split at h
    · obtain ⟨a', b', c', d', rfl, hall'⟩ := of_readSecondHalf h
      exact ⟨[a, b, c, d, 0x5c, 0x75, a', b', c', d'], rfl, fun raw hraw ↦ .code hall (.code hall' hraw)⟩
    · cases h
      exact ⟨[a, b, c, d], rfl, fun raw hraw ↦ .code hall hraw⟩

theorem of_readEscape {s : Bytes} (h : readEscape bs = .ok (s, rest)) :
    ∃ e, bs = e ++ rest ∧ ∀ raw, IsBody raw → IsBody (0x5c :: (e ++ raw)) := by
  cases bs with
  | nil => cases h
  | cons b bs =>
    by_cases hb : b ∈ [0x22, 0x5c, 0x2f, 0x62, 0x66, 0x6e, 0x72, 0x74]
    · obtain ⟨c, hc⟩ := readEscape_short hb
      rw [hc bs] at h
      cases h
      exact ⟨[b], rfl, fun raw hraw ↦ .short hb hraw⟩
    · simp only [List.mem_cons, List.not_mem_nil, or_false, not_or] at hb
      by_cases hu : b = 0x75
      · subst hu
        obtain ⟨e, rfl, he⟩ := of_readUnicode h
        exact ⟨0x75 :: e, rfl, he⟩
      · simp [readEscape, hb, hu] at h

theorem of_readTextBytes {fuel : Nat} {s : Bytes} (h : readTextBytes fuel bs = .ok (s, rest)) :
    ∃ raw, bs = raw ++ 0x22 :: rest ∧ IsBody raw := by
  induction fuel generalizing bs s with
  | zero => cases h
  | succ fuel ih =>
    cases bs with
    | nil => cases h
    | cons b bs =>
      rw [readTextBytes] at h
      split at h
      · next hq =>
        cases h
        exact ⟨[], congrArg (· :: rest) hq, .nil⟩
      next hq =>
      split at h
      · next hs =>
        rw [bind_eq_ok_iff] at h
        obtain ⟨⟨c, after⟩, hescape, h⟩ := h
        rw [bind_eq_ok_iff] at h
        obtain ⟨⟨s', rest'⟩, hrest, h⟩ := h
        cases h
        obtain ⟨e, rfl, he⟩ := of_readEscape hescape
        obtain ⟨raw, rfl, hraw⟩ := ih hrest
        refine ⟨0x5c :: (e ++ raw), ?_, he raw hraw⟩
        rw [hs, List.cons_append, List.append_assoc]
      next hs =>
      split at h
      · cases h
      · next hb =>
        rw [bind_eq_ok_iff] at h
        obtain ⟨⟨s', rest'⟩, hrest, h⟩ := h
        cases h
        obtain ⟨raw, rfl, hraw⟩ := ih hrest
        exact ⟨b :: raw, rfl, .plain hb hq hs hraw⟩

theorem of_readText {s : String} (h : readText bs = .ok (s, rest)) :
    ∃ raw, bs = raw ++ 0x22 :: rest ∧ IsBody raw := by
  rw [readText, bind_eq_ok_iff] at h
  obtain ⟨⟨bytes, rest'⟩, hbytes, h⟩ := h
  simp only at h
  split at h
  · cases h
    exact of_readTextBytes hbytes
  · cases h

theorem skipEscape_short {b : UInt8} (h : b ∈ [0x22, 0x5c, 0x2f, 0x62, 0x66, 0x6e, 0x72, 0x74]) :
    skipEscape (b :: rest) = .ok rest := by
  have hne : b ≠ 0x75 := by
    rintro rfl
    revert h
    decide
  rw [skipEscape, if_neg hne, if_pos (List.contains_iff_mem.2 h)]

theorem skipText_append {fuel : Nat} (hraw : IsBody raw) (hfuel : raw.length < fuel) :
    skipText fuel (raw ++ 0x22 :: rest) = .ok rest := by
  induction hraw generalizing fuel with
  | nil =>
    obtain ⟨fuel, rfl⟩ := Nat.exists_eq_succ_of_ne_zero (Nat.ne_zero_of_lt hfuel)
    rfl
  | plain hb hq hs hr ih =>
    obtain ⟨fuel, rfl⟩ := Nat.exists_eq_succ_of_ne_zero (Nat.ne_zero_of_lt hfuel)
    rw [List.cons_append, skipText, if_neg hq, if_neg hs, if_neg hb]
    exact ih (Nat.lt_of_succ_lt_succ hfuel)
  | @short b raw hb hr ih =>
    obtain ⟨fuel, rfl⟩ := Nat.exists_eq_succ_of_ne_zero (Nat.ne_zero_of_lt hfuel)
    simp only [List.length_cons] at hfuel
    rw [List.cons_append, List.cons_append, skipText, if_neg (by decide), if_pos rfl, skipEscape_short hb,
      ok_bind]
    exact ih (by omega)
  | @code a b c d raw hhex hr ih =>
    obtain ⟨fuel, rfl⟩ := Nat.exists_eq_succ_of_ne_zero (Nat.ne_zero_of_lt hfuel)
    obtain ⟨n, hn⟩ := readHex_cons hhex
    simp only [List.length_cons] at hfuel
    simp only [List.cons_append]
    rw [skipText, if_neg (by decide), if_pos rfl, skipEscape, if_pos rfl, hn]
    exact ih (by omega)

theorem of_skipEscape (h : skipEscape bs = .ok rest) :
    ∃ e, bs = e ++ rest ∧ ∀ raw, IsBody raw → IsBody (0x5c :: (e ++ raw)) := by
  cases bs with
  | nil => cases h
  | cons b bs =>
    rw [skipEscape] at h
    split at h
    · next hu =>
      obtain ⟨⟨n, after⟩, hhex, rfl⟩ := map_eq_ok_iff.1 h
      obtain ⟨a, b, c, d, rfl, hall⟩ := of_readHex hhex
      exact ⟨[0x75, a, b, c, d], congrArg (· :: _) hu, fun raw hraw ↦ .code hall hraw⟩
    · split at h
      · next hb =>
        cases h
        exact ⟨[b], rfl, fun raw hraw ↦ .short (List.contains_iff_mem.1 hb) hraw⟩
      · cases h

theorem of_skipText {fuel : Nat} (h : skipText fuel bs = .ok rest) :
    ∃ raw, bs = raw ++ 0x22 :: rest ∧ IsBody raw := by
  induction fuel generalizing bs with
  | zero => cases h
  | succ fuel ih =>
    cases bs with
    | nil => cases h
    | cons b bs =>
      rw [skipText] at h
      split at h
      · next hq =>
        cases h
        exact ⟨[], congrArg (· :: rest) hq, .nil⟩
      next hq =>
      split at h
      · next hs =>
        obtain ⟨after, hescape, hafter⟩ := bind_eq_ok_iff.1 h
        obtain ⟨e, rfl, he⟩ := of_skipEscape hescape
        obtain ⟨raw, rfl, hraw⟩ := ih hafter
        refine ⟨0x5c :: (e ++ raw), ?_, he raw hraw⟩
        rw [hs, List.cons_append, List.append_assoc]
      next hs =>
      split at h
      · cases h
      · next hb =>
        obtain ⟨raw, rfl, hraw⟩ := ih h
        exact ⟨b :: raw, rfl, .plain hb hq hs hraw⟩

end Texts

end CloudOffers.Json
