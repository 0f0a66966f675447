import Mathlib.Algebra.Group.Nat.Defs
import CloudOffers.Decimal.Scaled
/-!
How far magnitudes go. What is read from the digits of a number is finite: it is rounded from a bounded
integer, and a division by a power of ten makes it greater by a bounded amount only.
-/

namespace CloudOffers.Binary64

theorem roundDiv_le (num den : Nat) : roundDiv num den ≤ num / den + 1 := by
  simp only [roundDiv]
  split
  · omega
  split <;> omega

theorem le_roundDiv (num den : Nat) : num / den ≤ roundDiv num den := by
  simp only [roundDiv]
  split
  · omega
  split <;> omega

/-- The quotient that is rounded has 53 bits at most. -/
theorem div_scale_lt (q : Nat) : q / 2 ^ (q.log2 - 52) < 2 ^ 53 := by
  rw [Nat.div_lt_iff_lt_mul (Nat.two_pow_pos _), ← Nat.pow_add]
  exact Nat.lt_of_lt_of_le Nat.lt_log2_self (Nat.pow_le_pow_right (by decide) (by omega))

theorem nearestMagnitude_le {num den k : Nat} (h : num / den < 2 ^ (k + 53)) :
    nearestMagnitude num den ≤ (k + 2) * leadingPlace := by
  have hscale : (num / den).log2 - 52 ≤ k := by
    by_cases hq : num / den = 0
    · rw [hq]; simp
    · have hlog := (Nat.log2_lt hq).2 h
      omega
  have hdiv := div_scale_lt (num / den)
  have hround := roundDiv_le num (den * Nat.pow 2 ((num / den).log2 - 52))
  rw [← Nat.div_div_eq_div_mul] at hround
  have hplace : leadingPlace = 2 ^ 52 := rfl
  have hmul : ((num / den).log2 - 52) * leadingPlace ≤ k * leadingPlace := Nat.mul_le_mul_right _ hscale
  rw [nearestMagnitude, Nat.add_mul]
  refine Nat.le_trans (Nat.min_le_right ..) ?_
  change num / den / Nat.pow 2 ((num / den).log2 - 52) < 2 ^ 53 at hdiv
  omega

theorem le_nearestMagnitude {num den k : Nat} (h : 2 ^ (k + 52) ≤ num / den) :
    min infinityMagnitude ((k + 1) * leadingPlace) ≤ nearestMagnitude num den := by
  have hlog : k + 52 ≤ (num / den).log2 := (Nat.le_log2 (by have := Nat.two_pow_pos (k + 52); omega)).2 h
  have hdiv : 2 ^ 52 ≤ num / den / 2 ^ ((num / den).log2 - 52) := by
    rw [Nat.le_div_iff_mul_le (Nat.two_pow_pos _), ← Nat.pow_add,
      show 52 + ((num / den).log2 - 52) = (num / den).log2 by omega]
    exact Nat.log2_self_le (by have := Nat.two_pow_pos (k + 52); omega)
  have hround := le_roundDiv num (den * Nat.pow 2 ((num / den).log2 - 52))
  rw [← Nat.div_div_eq_div_mul] at hround
  have hplace : leadingPlace = 2 ^ 52 := rfl
  have hmul : k * leadingPlace ≤ ((num / den).log2 - 52) * leadingPlace := Nat.mul_le_mul_right _ (by omega)
  change 2 ^ 52 ≤ num / den / Nat.pow 2 ((num / den).log2 - 52) at hdiv
  refine Nat.le_min.2 ⟨Nat.min_le_left .., Nat.le_trans (Nat.min_le_right ..) ?_⟩
  rw [Nat.add_mul]
  omega

theorem nearestMagnitude_le_infinity (num den : Nat) : nearestMagnitude num den ≤ infinityMagnitude :=
  Nat.min_le_left ..

@[simp] theorem magnitude_ofMagnitude {m : Nat} (hm : m ≤ infinityMagnitude) (negative : Bool) :
    (ofMagnitude negative m).magnitude = m := by
  have hbound : infinityMagnitude < 2 ^ 63 := by decide
  have hsign : signPlace = 2 ^ 63 := rfl
  rw [magnitude, ofMagnitude, UInt64.toNat_ofNat', hsign]
  cases negative
  · simp only [Bool.false_eq_true, if_false]
    omega
  · simp only [if_true]
    omega

theorem negative_ofMagnitude {m : Nat} (hm : m ≤ infinityMagnitude) : (ofMagnitude false m).negative = false := by
  have hbound : infinityMagnitude < 2 ^ 63 := by decide
  have hsign : signPlace = 2 ^ 63 := rfl
  rw [negative, ofMagnitude, UInt64.toNat_ofNat', decide_eq_false_iff_not, hsign]
  simp only [Bool.false_eq_true, if_false]
  omega

theorem magnitude_ofRatio (negative : Bool) (num den : Nat) :
    (ofRatio negative num den).magnitude = nearestMagnitude (num * Nat.pow 2 1074) den :=
  magnitude_ofMagnitude (nearestMagnitude_le_infinity ..) negative

theorem isFinite_of_le {x : Binary64} {k : Nat} (hk : k ≤ 2046) (h : x.magnitude ≤ k * leadingPlace) :
    x.isFinite = true := by
  have hplace : leadingPlace = 2 ^ 52 := rfl
  have hmul : k * leadingPlace ≤ 2046 * leadingPlace := Nat.mul_le_mul_right _ hk
  rw [isFinite, infinityMagnitude, decide_eq_true_eq]
  omega

theorem significand_lt (x : Binary64) : x.significand < 2 ^ 53 := by
  have hplace : leadingPlace = 2 ^ 52 := rfl
  rw [significand]
  split
  · omega
  · have hmod := Nat.mod_lt x.magnitude (show 0 < leadingPlace by decide)
    omega

theorem le_significand_of_leading {x : Binary64} (h : leadingPlace ≤ x.magnitude) : 2 ^ 52 ≤ x.significand := by
  rw [significand, if_neg (Nat.not_lt.2 h)]
  exact Nat.le_add_left ..

theorem units_lt {x : Binary64} {k : Nat} (h : x.magnitude ≤ k * leadingPlace) : x.units < 2 ^ (k + 53) := by
  have hplace : leadingPlace = 2 ^ 52 := rfl
  have hscale : x.scale ≤ k := by
    have hdiv : x.magnitude / leadingPlace ≤ k := by
      rw [Nat.div_le_iff_le_mul (by decide)]
      omega
    rw [scale]
    omega
  rw [units, Nat.add_comm, Nat.pow_add]
  exact Nat.mul_lt_mul_of_lt_of_le x.significand_lt (Nat.pow_le_pow_right (by decide) hscale) (Nat.two_pow_pos _)

theorem le_units {x : Binary64} {k : Nat} (h : (k + 1) * leadingPlace ≤ x.magnitude) : 2 ^ (k + 52) ≤ x.units := by
  have hleading : leadingPlace ≤ x.magnitude := Nat.le_trans (Nat.le_mul_of_pos_left _ (Nat.succ_pos k)) h
  have hscale : k ≤ x.scale := by
    have hdiv : k + 1 ≤ x.magnitude / leadingPlace := (Nat.le_div_iff_mul_le (by decide)).2 h
    rw [scale]
    omega
  rw [units, Nat.add_comm, Nat.pow_add]
  exact Nat.mul_le_mul (le_significand_of_leading hleading) (Nat.pow_le_pow_right (by decide) hscale)

section Scaling

variable {x : Binary64} {k : Nat}

theorem magnitude_ofRatio_one_le (negative : Bool) {n : Nat} (hn : n < 2 ^ 64) :
    (ofRatio negative n 1).magnitude ≤ 1087 * leadingPlace := by
  rw [magnitude_ofRatio]
  generalize he : 1074 = e
  have hq : n * Nat.pow 2 e / 1 < 2 ^ (e + 11 + 53) := by
    rw [Nat.div_one, show e + 11 + 53 = 64 + e by omega, Nat.pow_add]
    exact Nat.mul_lt_mul_of_pos_right hn (Nat.two_pow_pos _)
  exact Nat.le_trans (nearestMagnitude_le hq) (Nat.mul_le_mul_right _ (by omega))

theorem le_units_powerOfTen (n : Nat) {e : Nat} (he : 1074 = e) : 2 ^ e ≤ (powerOfTen n).units := by
  have hq : 2 ^ (e - 52 + 52) ≤ Nat.pow 10 n * Nat.pow 2 e / 1 := by
    rw [Nat.div_one, show e - 52 + 52 = e by omega]
    exact Nat.le_mul_of_pos_left _ (Nat.pow_pos (by decide))
  have hfinite : (e - 52 + 1) * leadingPlace ≤ infinityMagnitude := Nat.mul_le_mul_right _ (by omega)
  rw [show e = e - 52 + 52 by omega]
  refine le_units ?_
  rw [powerOfTen, ofNat, magnitude_ofRatio, he]
  exact Nat.le_trans (Nat.le_min.2 ⟨hfinite, Nat.le_refl _⟩) (le_nearestMagnitude hq)

/-- A division by a power of ten adds two to the bound. -/
theorem magnitude_quotient_le (h : x.magnitude ≤ k * leadingPlace) (n : Nat) :
    (x.quotient (powerOfTen n)).magnitude ≤ (k + 2) * leadingPlace := by
  rw [quotient, magnitude_ofRatio]
  generalize he : 1074 = e
  refine nearestMagnitude_le (Nat.lt_of_le_of_lt (Nat.div_le_of_le_mul ?_) (units_lt h))
  rw [Nat.mul_comm]
  exact Nat.mul_le_mul_right _ (le_units_powerOfTen n he)

theorem scaled?_isFinite {exponent : Int} {y : Binary64} (h : x.magnitude ≤ 1087 * leadingPlace)
    (hy : x.scaled? exponent = some y) : y.isFinite = true := by
  have hzero : zero.isFinite = true := by decide
  rw [scaled?] at hy
  split at hy
  · cases hy
    exact hzero
  split at hy
  · cases hy
  split at hy
  · obtain ⟨hfinite, heq⟩ := Option.ite_none_right_eq_some.1 hy
    exact Option.some.inj heq ▸ hfinite
  split at hy
  · have hfirst := magnitude_quotient_le h (min greatestPower exponent.natAbs)
    have hsecond := magnitude_quotient_le hfirst (exponent.natAbs - min greatestPower exponent.natAbs)
    simp only [Option.some.injEq] at hy
    split at hy
    · cases hy
      exact isFinite_of_le (by decide) hsecond
    · cases hy
      exact isFinite_of_le (by decide) hfirst
  · cases hy
    exact hzero

theorem ofScaled?_isFinite {negative : Bool} {digits : Nat} {exponent : Int} {y : Binary64} (hd : digits < 2 ^ 64)
    (hy : ofScaled? negative digits exponent = some y) : y.isFinite = true := by
  obtain ⟨z, hz, rfl⟩ := Option.map_eq_some_iff.1 hy
  have hfinite := scaled?_isFinite (magnitude_ofRatio_one_le false hd) hz
  have hlt : z.magnitude < infinityMagnitude := by simpa [isFinite] using hfinite
  rw [isFinite, magnitude_ofMagnitude (Nat.le_of_lt hlt)]
  exact hfinite

end Scaling

end CloudOffers.Binary64
