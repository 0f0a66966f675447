import CloudOffers.Proofs.Decimal.Bounds
import CloudOffers.Proofs.Json.Decode
import CloudOffers.Proofs.Json.Printing
/-!
Numbers and their texts. A natural number is read back from its digits; whatever is read is a number that
is finite and fits its kind.
-/

namespace CloudOffers

open Json

section Digits

/-- A digit as a byte. -/
def digitByte (c : Char) : UInt8 := UInt8.ofNat c.toNat

theorem encode_digits {cs : List Char} (h : ∀ c ∈ cs, c.isDigit = true) : encode cs = cs.map digitByte := by
  induction cs with
  | nil => rfl
  | cons c cs ih =>
    obtain ⟨hc, hcs⟩ := List.forall_mem_cons.1 h
    have hle : c.val.toNat ≤ 127 := by
      have hdigit : 48 ≤ c.val.toNat ∧ c.val.toNat ≤ 57 := Char.isDigit_iff_toNat.1 hc
      omega
    rw [encode_cons, List.map_cons, ih hcs, String.utf8EncodeChar.eq_def]
    simp only
    rw [if_pos hle]
    rfl

theorem toNat_digitByte {c : Char} (h : c.isDigit = true) : (digitByte c).toNat = c.toNat := by
  have hdigit : 48 ≤ c.toNat ∧ c.toNat ≤ 57 := Char.isDigit_iff_toNat.1 h
  rw [digitByte, UInt8.toNat_ofNat']
  omega

theorem isDigit_digitByte {c : Char} (h : c.isDigit = true) : isDigit (digitByte c) = true := by
  have hdigit : 48 ≤ c.toNat ∧ c.toNat ≤ 57 := Char.isDigit_iff_toNat.1 h
  have hbyte := toNat_digitByte h
  simp only [isDigit, Bool.and_eq_true, decide_eq_true_eq, UInt8.le_iff_toNat_le]
  change 48 ≤ (digitByte c).toNat ∧ (digitByte c).toNat ≤ 57
  omega

theorem digits_encode {cs : List Char} (h : ∀ c ∈ cs, c.isDigit = true) (hne : cs ≠ []) : Digits (encode cs) := by
  rw [encode_digits h]
  refine ⟨by simpa using hne, fun b hb ↦ ?_⟩
  obtain ⟨c, hc, rfl⟩ := List.mem_map.1 hb
  exact isDigit_digitByte (h c hc)

theorem digitsValue_encode {cs : List Char} (h : ∀ c ∈ cs, c.isDigit = true) :
    digitsValue (encode cs) = Nat.ofDigitChars 10 cs 0 := by
  have hfold (n : Nat) : (encode cs).foldl (fun n d ↦ 10 * n + (d.toNat - 0x30)) n = Nat.ofDigitChars 10 cs n := by
    rw [encode_digits h]
    induction cs generalizing n with
    | nil => rfl
    | cons c cs ih =>
      obtain ⟨hc, hcs⟩ := List.forall_mem_cons.1 h
      rw [List.map_cons, List.foldl_cons, ih hcs, Nat.ofDigitChars_cons, toNat_digitByte hc]
      rfl
  exact hfold 0

theorem isDigit_of_mem_digits {n : Nat} {c : Char} (h : c ∈ NumberStyle.digits n) : c.isDigit = true :=
  Nat.isDigit_of_mem_toDigits (by decide) (by decide) h

theorem head?_digits {n : Nat} (hn : 0 < n) : (NumberStyle.digits n).head? ≠ some '0' := by
  have hdigit : ∀ d : Fin 10, 0 < d.val → Nat.digitChar d.val ≠ '0' := by decide
  rw [NumberStyle.digits]
  induction n using Nat.strongRecOn with
  | ind n ih =>
    rw [Nat.toDigits_eq_if (by decide)]
    split
    · next hlt =>
      intro h
      exact hdigit ⟨n, hlt⟩ hn (Option.some.inj h)
    · next hge =>
      have hrest := ih (n / 10) (by omega) (by omega)
      obtain ⟨c, cs, hcs⟩ := List.exists_cons_of_ne_nil (Nat.toDigits_ne_nil (n := n / 10) (b := 10))
      rw [hcs] at hrest ⊢
      exact hrest

theorem writesWhole_encode {cs : List Char} (h : ∀ c ∈ cs, c.isDigit = true) (hne : cs ≠ []) (hz : cs.head? ≠ some '0') :
    WritesWhole (encode cs) := by
  refine .digits (digits_encode h hne) fun hzero ↦ hz ?_
  rw [encode_digits h, List.head?_map, Option.map_eq_some_iff] at hzero
  obtain ⟨c, hc, hbyte⟩ := hzero
  have heq := toNat_digitByte (h c (List.mem_of_head? hc))
  rw [hbyte] at heq
  rw [hc, Char.toNat_inj.1 (show c.toNat = '0'.toNat from heq.symm)]

/-- The digits of a natural number are those of a whole part. -/
theorem writesWhole_digits (n : Nat) : WritesWhole (encode (NumberStyle.digits n)) := by
  by_cases hn : n = 0
  · subst hn
    exact .zero
  · exact writesWhole_encode (fun _ ↦ isDigit_of_mem_digits) Nat.toDigits_ne_nil (head?_digits (Nat.pos_of_ne_zero hn))

theorem digitsValue_digits (n : Nat) : digitsValue (encode (NumberStyle.digits n)) = n := by
  rw [digitsValue_encode fun _ ↦ isDigit_of_mem_digits]
  exact Nat.ofDigitChars_ten_toDigits

end Digits

namespace Number

/-- Numbers as JSON text distinguishes them. -/
def Proper : Number → Prop
  | .nat n => n < 2 ^ 64
  | .negative n => 0 < n ∧ n ≤ 2 ^ 63
  | .float x => x.isFinite = true

theorem Proper.isFinite {n : Number} (h : n.Proper) : n.toBinary64.isFinite = true := by
  cases n with
  | nat n => exact Binary64.isFinite_of_le (by decide) (Binary64.magnitude_ofRatio_one_le false h)
  | negative n => exact Binary64.isFinite_of_le (by decide) (Binary64.magnitude_ofRatio_one_le true (by
      have hle : n ≤ 2 ^ 63 := h.2
      omega))
  | float x => exact h

/-- The text of the number is read as this number. -/
def ReadBy (number : Parts → Option Number) (n : Number) : Prop :=
  ∃ p, Writes p (encode n.chars) ∧ number p = some n

theorem ReadBy.written {number : Parts → Option Number} {n : Number} (h : n.ReadBy number) : n.Written :=
  h.imp fun _ h ↦ h.1

/-- The parts of the text of a natural number. -/
def natParts (n : Nat) : Parts := ⟨false, encode (NumberStyle.digits n), none, none⟩

theorem writes_natParts (n : Nat) : Writes (natParts n) (encode (Number.nat n).chars) := by
  have hwrites := Writes.intro .plus (writesWhole_digits n) .absent .absent
  rw [List.nil_append, List.append_nil, List.append_nil] at hwrites
  exact hwrites

theorem integer?_natParts {n : Nat} (h : n < 2 ^ 64) : (natParts n).integer? = some (.nat n) := by
  simp only [natParts, Parts.integer?, digitsValue_digits, Option.isNone_none, Bool.and_self, if_true, ofInteger?,
    Bool.false_eq_true, if_false]
  exact if_pos h

theorem nat_readBy {n : Nat} (h : n < 2 ^ 64) : (Number.nat n).ReadBy Parts.read? := by
  refine ⟨natParts n, writes_natParts n, ?_⟩
  rw [Parts.read?, Parts.number, integer?_natParts h]
  rfl

end Number

namespace Json

theorem appendDigits_lt {n : Nat} (hn : n < 2 ^ 64) (ds : Bytes) : (appendDigits n ds).1 < 2 ^ 64 := by
  induction ds generalizing n with
  | nil => exact hn
  | cons d ds ih =>
    rw [appendDigits]
    split
    · next h => exact ih h
    · exact hn

theorem Parts.integer?_proper {p : Parts} {n : Number} (h : p.integer? = some n) : n.Proper := by
  rw [Parts.integer?, Number.ofInteger?] at h
  split at h
  · split at h
    · split at h
      · next hbounds =>
        cases h
        exact hbounds
      · cases h
    · split at h
      · next hbound =>
        cases h
        exact hbound
      · cases h
  · cases h

theorem floatOfParts?_isFinite {negative : Bool} {whole fraction : Bytes} {exponent : Int} {x : Binary64}
    (h : floatOfParts? negative whole fraction exponent = some x) : x.isFinite = true := by
  have hzero : 0 < 2 ^ 64 := by decide
  have hdigits := appendDigits_lt (appendDigits_lt hzero whole) fraction
  simp only [floatOfParts?] at h
  exact Binary64.ofScaled?_isFinite hdigits h

theorem Parts.read?_eq (p : Parts) : p.read? =
    p.integer?.or ((floatOfParts? p.negative p.whole (p.fraction.getD []) (p.exponent.getD 0)).map .float) := by
  rw [Parts.read?, Parts.number]
  generalize floatOfParts? p.negative p.whole (p.fraction.getD []) (p.exponent.getD 0) = float
  cases p.integer? <;> cases float <;> rfl

/-- What is read is a number that is finite and fits its kind. -/
theorem Parts.read?_proper {p : Parts} {n : Number} (h : p.read? = some n) : n.Proper := by
  rw [Parts.read?_eq, Option.or_eq_some_iff] at h
  rcases h with hinteger | ⟨_, hfloat⟩
  · exact integer?_proper hinteger
  · obtain ⟨x, hx, rfl⟩ := Option.map_eq_some_iff.1 hfloat
    exact floatOfParts?_isFinite hx

end Json

end CloudOffers
