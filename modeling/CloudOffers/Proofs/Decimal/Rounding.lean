import CloudOffers.Proofs.Decimal.Bounds
import Mathlib.Tactic.ByContra
/-!
Rounding keeps the order. Of two quotients the greater one is not rounded to the lesser number, and whole
numbers that fit into a significand are not rounded at all.
-/

namespace CloudOffers.Binary64

theorem roundDiv_mono {num num' : Nat} (h : num ≤ num') (den : Nat) : roundDiv num den ≤ roundDiv num' den := by
  rcases Nat.lt_or_eq_of_le (Nat.div_le_div_right (c := den) h) with hlt | heq
  · exact Nat.le_trans (roundDiv_le num den) (Nat.le_trans hlt (le_roundDiv num' den))
  · -- The quotients are the same, so it is the remainders that tell.
    have hrest : num % den ≤ num' % den := by
      have hnum := Nat.div_add_mod num den
      have hnum' := Nat.div_add_mod num' den
      rw [heq] at hnum
      omega
    simp only [roundDiv, heq]
    generalize num % den = r at hrest ⊢
    generalize num' % den = r' at hrest ⊢
    by_cases hlow' : 2 * r' < den
    · refine Nat.le_of_eq ?_
      rw [if_pos (by omega), if_pos hlow']
    · rw [if_neg hlow']
      by_cases hhigh' : den < 2 * r'
      · rw [if_pos hhigh']
        split
        · omega
        split <;> omega
      · rw [if_neg hhigh']
        split
        · omega
        · exact Nat.le_of_eq (if_neg (by omega))

theorem lt_two_pow_scale (q : Nat) : q < 2 ^ (q.log2 - 52 + 53) :=
  Nat.lt_of_lt_of_le Nat.lt_log2_self (Nat.pow_le_pow_right (by decide) (by omega))

theorem nearestMagnitude_mono {num num' : Nat} (h : num ≤ num') (den : Nat) :
    nearestMagnitude num den ≤ nearestMagnitude num' den := by
  have hq : num / den ≤ num' / den := Nat.div_le_div_right h
  by_cases hscale : (num' / den).log2 - 52 = (num / den).log2 - 52
  · have hround := roundDiv_mono h (den * Nat.pow 2 ((num / den).log2 - 52))
    rw [nearestMagnitude, nearestMagnitude, hscale]
    exact Nat.le_min.2 ⟨Nat.min_le_left .., Nat.le_trans (Nat.min_le_right ..) (Nat.add_le_add_left hround _)⟩
  · -- The greater one has a greater scale, and all numbers of that scale are beyond those of the other.
    have hq' : num' / den ≠ 0 := by
      intro hzero
      have hnone : num / den = 0 := Nat.le_zero.1 (hzero ▸ hq)
      rw [hzero, hnone] at hscale
      exact hscale rfl
    have hlog : (num / den).log2 ≤ (num' / den).log2 := by
      by_cases hzero : num / den = 0
      · rw [hzero]
        exact Nat.zero_le _
      · exact (Nat.le_log2 hq').2 (Nat.le_trans (Nat.log2_self_le hzero) hq)
    have hpower : 2 ^ ((num / den).log2 - 52 + 1 + 52) ≤ num' / den :=
      (Nat.le_log2 hq').1 (by omega)
    exact Nat.le_trans
      (Nat.le_min.2 ⟨nearestMagnitude_le_infinity num den, nearestMagnitude_le (lt_two_pow_scale (num / den))⟩)
      (le_nearestMagnitude hpower)

theorem magnitude_ofRatio_mono (negative : Bool) {num num' : Nat} (h : num ≤ num') (den : Nat) :
    (ofRatio negative num den).magnitude ≤ (ofRatio negative num' den).magnitude := by
  rw [magnitude_ofRatio, magnitude_ofRatio]
  exact nearestMagnitude_mono (Nat.mul_le_mul_right _ h) den

theorem le_iff_of_nonnegative {x y : Binary64} (hx : x.negative = false) (hy : y.negative = false) :
    x.le y = true ↔ x.magnitude ≤ y.magnitude := by
  rw [le, rank, rank, hx, hy, decide_eq_true_iff]
  exact Int.ofNat_le

theorem units_mono {x y : Binary64} (h : x.magnitude ≤ y.magnitude) : x.units ≤ y.units := by
  have hplace : leadingPlace = 2 ^ 52 := rfl
  rcases Nat.lt_or_eq_of_le (Nat.div_le_div_right (c := leadingPlace) h) with hlt | heq
  · have hy : leadingPlace ≤ y.magnitude := by
      by_contra hsmall
      rw [Nat.div_eq_of_lt (Nat.lt_of_not_le hsmall)] at hlt
      exact absurd hlt (Nat.not_lt_zero _)
    by_cases hx : x.magnitude < leadingPlace
    · have hbelow : x.units = x.magnitude := by
        rw [units, scale, Nat.div_eq_of_lt hx, significand, if_pos hx]
        exact Nat.mul_one _
      have hleading := le_significand_of_leading hy
      have habove : y.significand ≤ y.units := Nat.le_mul_of_pos_right _ (Nat.two_pow_pos _)
      omega
    · have hone : 1 ≤ x.magnitude / leadingPlace := (Nat.one_le_div_iff (by decide)).2 (Nat.not_lt.1 hx)
      calc x.units
        _ ≤ 2 ^ 53 * 2 ^ x.scale := Nat.mul_le_mul_right _ (Nat.le_of_lt x.significand_lt)
        _ = 2 ^ 52 * 2 ^ (x.scale + 1) := by
          rw [Nat.pow_succ 2 x.scale, Nat.pow_succ 2 52, Nat.mul_right_comm, Nat.mul_assoc]
        _ ≤ y.units := by
          refine Nat.mul_le_mul (le_significand_of_leading hy) (Nat.pow_le_pow_right (by decide) ?_)
          rw [scale, scale]
          omega
  · have hx := Nat.div_add_mod x.magnitude leadingPlace
    have hy := Nat.div_add_mod y.magnitude leadingPlace
    have hsignificand : x.significand ≤ y.significand := by
      rw [heq] at hx
      rw [significand, significand]
      split <;> split <;> omega
    rw [units, units, scale, scale, heq]
    exact Nat.mul_le_mul_right _ hsignificand

/-- What has a significand of 53 bits needs no rounding. -/
theorem nearestMagnitude_mul_two_pow {s k : Nat} (hs : 2 ^ 52 ≤ s) (hlt : s < 2 ^ 53) :
    nearestMagnitude (s * 2 ^ k) 1 = min infinityMagnitude (k * leadingPlace + s) := by
  have hlog : (s * 2 ^ k).log2 = 52 + k := by
    refine (Nat.log2_eq_iff ?_).2 ⟨?_, ?_⟩
    · have hk := Nat.two_pow_pos k
      exact Nat.ne_of_gt (Nat.mul_pos (by omega) hk)
    · rw [Nat.pow_add]
      exact Nat.mul_le_mul_right _ hs
    · rw [Nat.add_right_comm, Nat.pow_add]
      exact Nat.mul_lt_mul_of_pos_right hlt (Nat.two_pow_pos k)
  have hexact : roundDiv (s * 2 ^ k) (1 * Nat.pow 2 k) = s := by
    have hpos := Nat.two_pow_pos k
    rw [Nat.one_mul]
    change roundDiv (s * 2 ^ k) (2 ^ k) = s
    rw [roundDiv, Nat.mul_mod_left, Nat.mul_zero, if_pos hpos, Nat.mul_div_cancel _ hpos]
  rw [nearestMagnitude, Nat.div_one, hlog, Nat.add_sub_cancel_left, hexact]

theorem units_ofMagnitude {s k : Nat} (hs : 2 ^ 52 ≤ s) (hlt : s < 2 ^ 53) (hk : k < 2046) :
    (ofMagnitude false (k * leadingPlace + s)).units = s * 2 ^ k := by
  have hplace : leadingPlace = 2 ^ 52 := rfl
  have hinfinity : infinityMagnitude = 2045 * leadingPlace + 2 ^ 53 := rfl
  have hscale : k * leadingPlace ≤ 2045 * leadingPlace := Nat.mul_le_mul_right _ (Nat.le_of_lt_succ hk)
  have hmagnitude := magnitude_ofMagnitude (m := k * leadingPlace + s) (by omega) false
  -- the leading bit of `s` counts as one more scale
  have hsplit : k * leadingPlace + s = (s - leadingPlace) + leadingPlace * (k + 1) := by
    rw [Nat.mul_succ, Nat.mul_comm leadingPlace k]
    omega
  have hdiv : (k * leadingPlace + s) / leadingPlace = k + 1 := by
    rw [hsplit, Nat.add_mul_div_left _ _ (by decide), Nat.div_eq_of_lt (by omega), Nat.zero_add]
  have hmod : (k * leadingPlace + s) % leadingPlace = s - leadingPlace := by
    rw [hsplit, Nat.add_mul_mod_self_left, Nat.mod_eq_of_lt (by omega)]
  rw [units, significand, scale, hmagnitude, hdiv, hmod, if_neg (by rw [hsplit, Nat.mul_succ]; omega),
    Nat.sub_add_cancel (hplace ▸ hs)]
  rfl

theorem units_ofNat {n : Nat} (hn : n < 2 ^ 53) : (ofNat n).units = n * 2 ^ 1074 := by
  by_cases hzero : n = 0
  · subst hzero
    decide +kernel
  have hlog : n.log2 < 53 := (Nat.log2_lt hzero).2 hn
  rw [ofNat, ofRatio]
  generalize he : 1074 = e
  change (ofMagnitude false (nearestMagnitude (n * 2 ^ e) 1)).units = n * 2 ^ e
  -- shifted up to 53 bits
  have hshift : n * 2 ^ e = n * 2 ^ (52 - n.log2) * 2 ^ (e - 52 + n.log2) := by
    rw [Nat.mul_assoc, ← Nat.pow_add]
    congr 2
    omega
  have hs : 2 ^ 52 ≤ n * 2 ^ (52 - n.log2) := by
    calc 2 ^ 52
      _ = 2 ^ n.log2 * 2 ^ (52 - n.log2) := by rw [← Nat.pow_add]; congr 1; omega
      _ ≤ n * 2 ^ (52 - n.log2) := Nat.mul_le_mul_right _ (Nat.log2_self_le hzero)
  have hlt : n * 2 ^ (52 - n.log2) < 2 ^ 53 := by
    calc n * 2 ^ (52 - n.log2)
      _ < 2 ^ (n.log2 + 1) * 2 ^ (52 - n.log2) := Nat.mul_lt_mul_of_pos_right Nat.lt_log2_self (Nat.two_pow_pos _)
      _ = 2 ^ 53 := by rw [← Nat.pow_add]; congr 1; omega
  have hfinite : (e - 52 + n.log2) * leadingPlace + n * 2 ^ (52 - n.log2) ≤ infinityMagnitude := by
    have hplace : leadingPlace = 2 ^ 52 := rfl
    have hinfinity : infinityMagnitude = 2045 * leadingPlace + 2 ^ 53 := rfl
    have hscale : (e - 52 + n.log2) * leadingPlace ≤ 2045 * leadingPlace := Nat.mul_le_mul_right _ (by omega)
    omega
  have hnearest := nearestMagnitude_mul_two_pow (k := e - 52 + n.log2) hs hlt
  rw [Nat.min_eq_right hfinite, ← hshift] at hnearest
  rw [hnearest, units_ofMagnitude hs hlt (by omega), ← hshift]

end CloudOffers.Binary64
