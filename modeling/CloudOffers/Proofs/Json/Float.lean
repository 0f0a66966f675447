import CloudOffers.Proofs.Decimal.Shortest
import CloudOffers.Proofs.Json.Number
/-!
The text of a finite float. It belongs to the grammar, and the decimal that it writes is rounded to the float: a
reader that rounds once gets the float back.
-/

namespace CloudOffers

open Json

section Decimals

/-- The text of a float without its sign, and the decimal that it writes. -/
inductive WritesDecimal : Decimal → Bytes → Prop
  | intro {whole fraction exponent : Bytes} {f : Option Bytes} {e : Option Int} {d : Decimal} (hw : WritesWhole whole)
      (hf : WritesFraction f fraction) (he : WritesExponent e exponent) (hfloat : (f.isNone && e.isNone) = false)
      (hdigits : digitsValue (whole ++ f.getD []) = d.digits) (hd : e.getD 0 - (f.getD []).length = d.exponent) :
      WritesDecimal d (whole ++ (fraction ++ exponent))

theorem length_encode_digits {cs : List Char} (h : ∀ c ∈ cs, c.isDigit = true) : (encode cs).length = cs.length := by
  rw [encode_digits h, List.length_map]

theorem WritesDecimal.of_fraction (whole fraction : List Char) {d : Decimal} (hw : WritesWhole (encode whole))
    (hdigits : ∀ c ∈ whole ++ fraction, c.isDigit = true) (hne : fraction ≠ []) {exponent : Bytes} {e : Option Int}
    (he : WritesExponent e exponent) (hd : Nat.ofDigitChars 10 (whole ++ fraction) 0 = d.digits)
    (hexponent : e.getD 0 - fraction.length = d.exponent) :
    WritesDecimal d (encode (whole ++ '.' :: fraction) ++ exponent) := by
  have hfraction := (List.forall_mem_append.1 hdigits).2
  have hbytes : encode (whole ++ '.' :: fraction) ++ exponent = encode whole ++ ((0x2e :: encode fraction) ++ exponent) := by
    rw [encode_append, List.append_assoc]
    rfl
  rw [hbytes]
  refine .intro hw (.digits (digits_encode hfraction hne)) he rfl ?_ ?_
  · rw [Option.getD_some, ← encode_append, digitsValue_encode hdigits, hd]
  · rw [Option.getD_some, length_encode_digits hfraction, hexponent]

/-- With a point, the digits may be followed by zeros. -/
theorem writesDecimal_positional {n : Nat} (hn : 0 < n) (exponent : Int) :
    ∃ j : Nat, WritesDecimal ⟨n * 10 ^ j, exponent - j⟩
      (encode (NumberStyle.json.positionalText (NumberStyle.digits n) exponent)) := by
  have hdigits : ∀ c ∈ NumberStyle.digits n, c.isDigit = true := fun _ ↦ isDigit_of_mem_digits
  have hne : NumberStyle.digits n ≠ [] := Nat.toDigits_ne_nil
  have hvalue : Nat.ofDigitChars 10 (NumberStyle.digits n) 0 = n := Nat.ofDigitChars_ten_toDigits
  have hhead := head?_digits hn
  generalize NumberStyle.digits n = ds at hdigits hne hvalue hhead ⊢
  have hzeros (k : Nat) : ∀ c ∈ List.replicate k '0', c.isDigit = true := fun c hc ↦ (List.mem_replicate.1 hc).2 ▸ rfl
  have hall (k : Nat) : ∀ c ∈ ds ++ List.replicate k '0', c.isDigit = true :=
    List.forall_mem_append.2 ⟨hdigits, hzeros k⟩
  rw [NumberStyle.positionalText]
  split
  · next hexponent =>
    refine ⟨exponent.toNat + 1, ?_⟩
    have hwhole := writesWhole_encode (hall exponent.toNat) (by simp [hne]) (by simpa [hne] using hhead)
    have hwrites := WritesDecimal.of_fraction (ds ++ List.replicate exponent.toNat '0') (List.replicate 1 '0')
      (d := ⟨n * 10 ^ (exponent.toNat + 1), exponent - ↑(exponent.toNat + 1)⟩) hwhole
      (List.forall_mem_append.2 ⟨hall exponent.toNat, hzeros 1⟩) (by decide) .absent ?_ ?_
    · rwa [List.append_nil] at hwrites
    · rw [Nat.ofDigitChars_append, Nat.ofDigitChars_append, hvalue, Nat.ofDigitChars_replicate_zero,
        Nat.ofDigitChars_replicate_zero, ← Nat.mul_assoc, ← Nat.pow_add, Nat.add_comm, Nat.mul_comm]
    · simp only [Option.getD_none, List.length_replicate]
      omega
  refine ⟨0, ?_⟩
  rw [Nat.pow_zero, Nat.mul_one, Int.natCast_zero, Int.sub_zero]
  split
  · next hneg hpoint =>
    have hsplit := List.take_append_drop (ds.length + exponent).toNat ds
    have hfirst : (ds.length + exponent).toNat ≠ 0 := by omega
    have hwrites := WritesDecimal.of_fraction (ds.take (ds.length + exponent).toNat)
      (ds.drop (ds.length + exponent).toNat) (d := ⟨n, exponent⟩)
      (writesWhole_encode (fun c hc ↦ hdigits c (List.mem_of_mem_take hc)) (by simp [hne, hfirst]) ?_)
      (hsplit.symm ▸ hdigits) (by simp; omega) .absent (by rw [hsplit, hvalue]) ?_
    · rwa [List.append_nil] at hwrites
    · rwa [List.head?_take, if_neg hfirst]
    · simp only [Option.getD_none, List.length_drop]
      omega
  · next hneg hpoint =>
    have hwrites := WritesDecimal.of_fraction ['0'] (List.replicate (-(ds.length + exponent)).toNat '0' ++ ds)
      (d := ⟨n, exponent⟩) .zero
      (List.forall_mem_append.2 ⟨hzeros 1, List.forall_mem_append.2 ⟨hzeros _, hdigits⟩⟩) (by simp [hne]) .absent ?_ ?_
    · rwa [List.append_nil] at hwrites
    · rw [Nat.ofDigitChars_append, Nat.ofDigitChars_append, Nat.ofDigitChars_replicate_zero]
      exact hvalue
    · simp only [Option.getD_none, List.length_append, List.length_replicate]
      omega

theorem writesExponent_digits (exponent : Int) : WritesExponent (some exponent)
    (encode ('e' :: (if exponent < 0 then '-' else '+') :: NumberStyle.digits exponent.natAbs)) := by
  have hdigits : Digits (encode (NumberStyle.digits exponent.natAbs)) :=
    digits_encode (fun _ ↦ isDigit_of_mem_digits) Nat.toDigits_ne_nil
  have hvalue := digitsValue_digits exponent.natAbs
  split
  · have hwrites := WritesExponent.negative (.inl rfl) hdigits
    rwa [hvalue, show -(exponent.natAbs : Int) = exponent by omega] at hwrites
  · have hwrites := WritesExponent.positive (.inl rfl) hdigits
    rwa [hvalue, show (exponent.natAbs : Int) = exponent by omega] at hwrites

theorem writesDecimal_scientific {n : Nat} (hn : 0 < n) (exponent : Int) : WritesDecimal ⟨n, exponent⟩
    (encode (NumberStyle.scientificText (NumberStyle.digits n) ((NumberStyle.digits n).length + exponent - 1))) := by
  have hdigits : ∀ c ∈ NumberStyle.digits n, c.isDigit = true := fun _ ↦ isDigit_of_mem_digits
  have hvalue : Nat.ofDigitChars 10 (NumberStyle.digits n) 0 = n := Nat.ofDigitChars_ten_toDigits
  have hhead := head?_digits hn
  rw [NumberStyle.scientificText.eq_def]
  have hexponent := writesExponent_digits ((NumberStyle.digits n).length + exponent - 1)
  simp only [encode_append]
  split
  · next hnil => exact absurd hnil Nat.toDigits_ne_nil
  · next d hd =>
    rw [hd] at hdigits hvalue hhead hexponent ⊢
    have hwhole := writesWhole_encode hdigits (List.cons_ne_nil _ _) hhead
    have hwrites := WritesDecimal.intro (d := ⟨n, exponent⟩) hwhole .absent hexponent rfl ?_ ?_
    · exact hwrites
    · rw [Option.getD_none, List.append_nil, digitsValue_encode hdigits, hvalue]
    · simp only [Option.getD_some, Option.getD_none, List.length_nil, List.length_singleton]
      omega
  · next d rest hrest hd =>
    rw [hd] at hdigits hvalue hhead hexponent ⊢
    have hwhole : WritesWhole (encode [d]) :=
      writesWhole_encode (List.forall_mem_singleton.2 (hdigits d List.mem_cons_self)) (List.cons_ne_nil _ _) hhead
    refine WritesDecimal.of_fraction [d] rest hwhole hdigits ?_ hexponent hvalue ?_
    · rintro rfl
      exact hrest rfl
    · simp only [Option.getD_some, List.length_cons]
      omega

theorem writesDecimal_decimalText {d : Decimal} (hd : 0 < d.digits) :
    ∃ j : Nat, WritesDecimal ⟨d.digits * 10 ^ j, d.exponent - j⟩ (encode (NumberStyle.json.decimalText d)) := by
  rw [NumberStyle.decimalText]
  split
  · exact writesDecimal_positional hd d.exponent
  · refine ⟨0, ?_⟩
    rw [Nat.pow_zero, Nat.mul_one, Int.natCast_zero, Int.sub_zero]
    exact writesDecimal_scientific hd d.exponent

end Decimals

namespace Json

/-- The number that the parts write: the integer, if it is one, and the nearest float else. -/
def Parts.exact (p : Parts) : Option Number :=
  p.integer?.or (some (.float (Binary64.ofDecimal p.negative (digitsValue (p.whole ++ p.fraction.getD []))
    (p.exponent.getD 0 - (p.fraction.getD []).length))))

end Json

namespace Number

theorem writes_of_writesDecimal {x : Binary64} {d : Decimal} {body : List Char} (h : WritesDecimal d (encode body))
    (hx : Binary64.ofDecimal x.negative d.digits d.exponent = x)
    (hchars : NumberStyle.json.chars x = if x.negative then '-' :: body else body) :
    ∃ p, Writes p (encode (Number.float x).chars) ∧ p.integer? = none ∧ p.exact = some (.float x) := by
  obtain ⟨sign, hsign, htext⟩ : ∃ sign, WritesSign x.negative sign ∧ encode (Number.float x).chars = sign ++ encode body := by
    rw [chars, hchars]
    cases x.negative
    · exact ⟨[], .plus, rfl⟩
    · exact ⟨[0x2d], .minus, rfl⟩
  rw [htext]
  generalize encode body = bs at h
  cases h with
  | @intro whole _ _ f e _ hw hf he hfloat hdigits hd =>
    have hinteger : (Parts.mk x.negative whole f e).integer? = none := if_neg (hfloat ▸ Bool.false_ne_true)
    refine ⟨_, Writes.intro hsign hw hf he, hinteger, ?_⟩
    rw [Parts.exact, hinteger]
    simp only [hdigits, hd, hx]
    rfl

/-- The text of a finite float is no integer, and the number nearest to it is the float. -/
theorem writes_float {x : Binary64} (hx : x.isFinite = true) :
    ∃ p, Writes p (encode (Number.float x).chars) ∧ p.integer? = none ∧ p.exact = some (.float x) := by
  have hlt : x.magnitude < Binary64.infinityMagnitude := by simpa [Binary64.isFinite] using hx
  have hnan : x.isNaN = false := decide_eq_false (by omega)
  have hinfinite : x.isInfinite = false := decide_eq_false (by omega)
  cases hz : x.isZero with
  | true =>
    have hmagnitude : x.magnitude = 0 := by simpa [Binary64.isZero] using hz
    refine @writes_of_writesDecimal x ⟨0, -1⟩ ['0', '.', '0'] ?_ ?_ ?_
    · have hdigit : ∀ c ∈ ['0', '0'], c.isDigit = true :=
        List.forall_mem_cons.2 ⟨rfl, List.forall_mem_singleton.2 rfl⟩
      have hwrites := WritesDecimal.of_fraction ['0'] ['0'] (d := ⟨0, -1⟩) .zero hdigit (by decide) .absent rfl rfl
      rwa [List.append_nil] at hwrites
    · rw [Binary64.ofDecimal, if_pos rfl, ← hmagnitude, Binary64.ofMagnitude_magnitude]
    · rw [NumberStyle.chars, hnan, hinfinite, hz]
      rfl
  | false =>
    have hcontains := Binary64.shortest_contains hx hz .toEven
    obtain ⟨j, hwrites⟩ := writesDecimal_decimalText (Binary64.digits_pos_of_contains hz hcontains)
    refine writes_of_writesDecimal hwrites ?_ ?_
    · rw [Binary64.ofDecimal_eq hx hz (hcontains.shift j), Binary64.ofMagnitude_magnitude]
    · rw [NumberStyle.chars, hnan, hinfinite, hz]
      rfl

theorem Proper.readBy_exact {n : Number} (h : n.Proper) : n.ReadBy Parts.exact := by
  cases n with
  | nat n => exact ⟨natParts n, writes_natParts n, by rw [Parts.exact, integer?_natParts h]; rfl⟩
  | negative n =>
    have hwrites := Writes.intro .minus (writesWhole_digits n) .absent .absent
    rw [List.append_nil, List.append_nil] at hwrites
    refine ⟨_, hwrites, ?_⟩
    simp only [Parts.exact, Parts.integer?, digitsValue_digits, ofInteger?, Option.isNone_none, Bool.and_self, if_true]
    rw [if_pos (show 0 < n ∧ n ≤ Nat.pow 2 63 from h)]
    rfl
  | float x =>
    obtain ⟨p, hp, _, hexact⟩ := writes_float h
    exact ⟨p, hp, hexact⟩

end Number

end CloudOffers
