import CloudOffers.Decimal.Shortest
import CloudOffers.Proofs.Decimal.Bounds
/-!
The shortest decimal of a number stands for this number. The search finds one that lies among the reals that
round to the number, and every decimal that lies there is rounded to it.
-/

namespace CloudOffers.Binary64

section Magnitude

variable {x : Binary64}

/-- Only the numbers of the least scale have a significand without its leading bit. -/
theorem le_significand (h : 0 < x.scale) : 2 ^ 52 ≤ x.significand := by
  refine le_significand_of_leading (Nat.le_of_not_lt fun hlt ↦ ?_)
  rw [scale, Nat.div_eq_of_lt hlt] at h
  exact absurd h (by decide)

theorem magnitude_eq (x : Binary64) : x.magnitude = x.scale * leadingPlace + x.significand := by
  rw [scale, significand]
  split
  · next hlt => rw [Nat.div_eq_of_lt hlt, Nat.zero_sub, Nat.zero_mul, Nat.zero_add]
  · next hge =>
    have hpos : 1 ≤ x.magnitude / leadingPlace := (Nat.le_div_iff_mul_le (by decide)).2 (by omega)
    have hdiv := Nat.div_add_mod x.magnitude leadingPlace
    rw [Nat.mul_comm] at hdiv
    have hone : (x.magnitude / leadingPlace - 1) * leadingPlace + leadingPlace =
        x.magnitude / leadingPlace * leadingPlace := by
      rw [← Nat.succ_mul, Nat.succ_eq_add_one, Nat.sub_add_cancel hpos]
    omega

theorem significand_pos (hz : x.isZero = false) : 0 < x.significand := by
  have hpos : x.magnitude ≠ 0 := by simpa [isZero] using hz
  by_cases hscale : 0 < x.scale
  · exact Nat.lt_of_lt_of_le (by decide) (le_significand hscale)
  · have hmagnitude := magnitude_eq x
    rw [Nat.eq_zero_of_not_pos hscale, Nat.zero_mul] at hmagnitude
    omega

theorem scale_le (hx : x.isFinite = true) : x.scale ≤ 2045 := by
  have hlt : x.magnitude < infinityMagnitude := by simpa [isFinite] using hx
  have hdiv : x.magnitude / leadingPlace < 2047 := (Nat.div_lt_iff_lt_mul (by decide)).2 hlt
  rw [scale]
  omega

end Magnitude

section Rounding

theorem roundDiv_eq {num den s : Nat} (hden : 0 < den) (hlow : 2 * (s * den) ≤ 2 * num + den)
    (hhigh : 2 * num ≤ 2 * (s * den) + den)
    (hodd : s % 2 = 1 → 2 * (s * den) < 2 * num + den ∧ 2 * num < 2 * (s * den) + den) : roundDiv num den = s := by
  have hmod := Nat.mod_lt num hden
  have hdiv := Nat.div_add_mod num den
  have hle : num / den ≤ s := by
    rw [← Nat.lt_succ_iff, Nat.div_lt_iff_lt_mul hden, Nat.succ_mul]
    omega
  have hge : s ≤ num / den + 1 := by
    refine Nat.le_of_lt_succ (Nat.lt_of_mul_lt_mul_right (a := den) ?_)
    rw [Nat.succ_mul, Nat.succ_mul, Nat.mul_comm (num / den)]
    omega
  have hsucc : (num / den + 1) * den = den * (num / den) + den := by rw [Nat.succ_mul, Nat.mul_comm]
  simp only [roundDiv]
  rcases Nat.lt_or_eq_of_le hle with hlt | heq
  · obtain rfl : s = num / den + 1 := by omega
    rw [hsucc] at hlow hhigh hodd
    split
    · omega
    · split <;> omega
  · subst heq
    rw [Nat.mul_comm (num / den)] at hlow hhigh hodd
    split
    · rfl
    · split <;> omega

variable {x : Binary64} {num den : Nat}

/-- How far the reals around a number reach, in quarters of what its last bit is worth. -/
theorem Neighbourhood.bounds_of_holds (h : x.neighbourhood.holds den 4 num = true) {t : Nat}
    (ht : Nat.pow 2 x.scale * den = t) :
    4 * (x.significand * t) ≤ num * 4 + (if x.significand = leadingPlace ∧ 0 < x.scale then 1 else 2) * t ∧
      num * 4 ≤ 4 * (x.significand * t) + 2 * t ∧
      (x.significand % 2 = 1 → 4 * (x.significand * t) < num * 4 + 2 * t ∧ num * 4 < 4 * (x.significand * t) + 2 * t) := by
  simp only [Neighbourhood.holds, neighbourhood, Nat.mul_assoc _ _ den, ht, Nat.sub_mul, Nat.add_mul, Nat.mul_assoc 4,
    decide_eq_true_eq] at h
  split at h
  · next heven =>
    simp only [Bool.and_eq_true, decide_eq_true_eq] at h
    exact ⟨by omega, h.2, fun hodd ↦ by omega⟩
  · next hodd =>
    have hne : ¬(x.significand = leadingPlace ∧ 0 < x.scale) := fun hboth ↦ by
      have hplace : leadingPlace = 2 ^ 52 := rfl
      omega
    simp only [Bool.and_eq_true, decide_eq_true_eq, if_neg hne] at h ⊢
    omega

theorem log2_div_lt {j : Nat} (h : num < 2 ^ (j + 53) * den) : (num / den).log2 - 52 ≤ j := by
  by_cases hzero : num / den = 0
  · rw [hzero]
    exact Nat.zero_le _
  · rw [Nat.mul_comm] at h
    have hlog := (Nat.log2_lt hzero).2 (Nat.div_lt_of_lt_mul h)
    omega

theorem le_log2_div {j : Nat} (hden : 0 < den) (h : 2 ^ (j + 52) * den ≤ num) : j ≤ (num / den).log2 - 52 := by
  have hle : 2 ^ (j + 52) ≤ num / den := (Nat.le_div_iff_mul_le hden).2 h
  have hpos := Nat.two_pow_pos (j + 52)
  have hlog := (Nat.le_log2 (show num / den ≠ 0 by omega)).2 hle
  omega

theorem nearestMagnitude_eq (hx : x.isFinite = true) {scale s : Nat} (hscale : (num / den).log2 - 52 = scale)
    (hround : roundDiv num (den * Nat.pow 2 scale) = s) (hsum : scale * leadingPlace + s = x.magnitude) :
    nearestMagnitude num den = x.magnitude := by
  have hlt : x.magnitude < infinityMagnitude := by simpa [isFinite] using hx
  rw [nearestMagnitude, hscale, hround, hsum]
  exact Nat.min_eq_right (Nat.le_of_lt hlt)

theorem pow_scale_add (x : Binary64) (a den : Nat) : 2 ^ (x.scale + a) * den = 2 ^ a * (Nat.pow 2 x.scale * den) := by
  rw [Nat.add_comm, Nat.pow_add, Nat.mul_assoc]
  rfl

theorem log2_le_scale (h : x.neighbourhood.holds den 4 num = true) (hden : 0 < den) : (num / den).log2 - 52 ≤ x.scale := by
  have ht : 0 < Nat.pow 2 x.scale * den := Nat.mul_pos (Nat.two_pow_pos _) hden
  have hs53 := Nat.mul_le_mul_right (Nat.pow 2 x.scale * den) (show x.significand + 1 ≤ 2 ^ 53 from significand_lt x)
  obtain ⟨_, hhigh, _⟩ := Neighbourhood.bounds_of_holds h rfl
  rw [Nat.succ_mul] at hs53
  refine log2_div_lt ?_
  rw [pow_scale_add]
  omega

theorem roundDiv_of_holds (h : x.neighbourhood.holds den 4 num = true) (hden : 0 < den) :
    roundDiv num (den * Nat.pow 2 x.scale) = x.significand := by
  have ht : 0 < Nat.pow 2 x.scale * den := Nat.mul_pos (Nat.two_pow_pos _) hden
  obtain ⟨hlow, hhigh, hodd⟩ := Neighbourhood.bounds_of_holds h rfl
  rw [Nat.mul_comm den]
  refine roundDiv_eq ht ?_ (by omega) fun hs ↦ ?_
  · split at hlow <;> omega
  · have hstrict := hodd hs
    omega

/-- Only below a power of two the reals are rounded on a finer scale. -/
theorem significand_eq_of_finer (h : x.neighbourhood.holds den 4 num = true) (hden : 0 < den)
    (hfiner : (num / den).log2 - 52 < x.scale) :
    x.significand = leadingPlace ∧ num < 2 ^ 52 * (Nat.pow 2 x.scale * den) := by
  have hplace : leadingPlace = 2 ^ 52 := rfl
  have hs52 := le_significand (show 0 < x.scale by omega)
  have hbelow : num < 2 ^ 52 * (Nat.pow 2 x.scale * den) := by
    refine Nat.lt_of_not_le fun hle ↦ ?_
    have hlower : x.scale ≤ (num / den).log2 - 52 := le_log2_div hden (by rwa [pow_scale_add])
    omega
  refine ⟨Nat.le_antisymm (Nat.le_of_not_lt fun hgt ↦ ?_) hs52, hbelow⟩
  obtain ⟨hlow, _, _⟩ := Neighbourhood.bounds_of_holds h rfl
  have hmul := Nat.mul_le_mul_right (Nat.pow 2 x.scale * den) hgt
  rw [Nat.succ_mul, hplace] at hmul
  split at hlow <;> omega

theorem nearestMagnitude_of_finer (hx : x.isFinite = true) (hden : 0 < den) (h : x.neighbourhood.holds den 4 num = true)
    (hfiner : (num / den).log2 - 52 < x.scale) : nearestMagnitude num den = x.magnitude := by
  have hplace : leadingPlace = 2 ^ 52 := rfl
  obtain ⟨k, hk⟩ : ∃ k, x.scale = k + 1 := Nat.exists_eq_add_one.2 (by omega)
  obtain ⟨hlead, hbelow⟩ := significand_eq_of_finer h hden hfiner
  obtain ⟨hlow, _, _⟩ := Neighbourhood.bounds_of_holds h rfl
  rw [if_pos ⟨hlead, by omega⟩, hlead, hplace] at hlow
  have hhalf : Nat.pow 2 x.scale * den = 2 * (Nat.pow 2 k * den) := by
    rw [hk, Nat.pow_eq, Nat.pow_succ, Nat.mul_comm _ 2, Nat.mul_assoc]
    rfl
  rw [hhalf] at hlow hbelow
  have hscale : (num / den).log2 - 52 = k := by
    have hlower : k ≤ (num / den).log2 - 52 := by
      refine le_log2_div hden ?_
      rw [Nat.add_comm, Nat.pow_add, Nat.mul_assoc]
      change 2 ^ 52 * (Nat.pow 2 k * den) ≤ num
      omega
    omega
  have hround : roundDiv num (den * Nat.pow 2 k) = 2 ^ 53 := by
    rw [Nat.mul_comm den]
    exact roundDiv_eq (Nat.mul_pos (Nat.two_pow_pos _) hden) (by omega) (by omega) fun hs ↦ absurd hs (by decide)
  refine nearestMagnitude_eq hx hscale hround ?_
  rw [magnitude_eq x, hk, hlead, hplace]
  omega

/-- Whatever lies among the reals that round to a number has its magnitude. -/
theorem nearestMagnitude_of_holds (hx : x.isFinite = true) (hden : 0 < den)
    (h : x.neighbourhood.holds den 4 num = true) : nearestMagnitude num den = x.magnitude := by
  rcases Nat.lt_or_eq_of_le (log2_le_scale h hden) with hfiner | hsame
  · exact nearestMagnitude_of_finer hx hden h hfiner
  · exact nearestMagnitude_eq hx hsame (roundDiv_of_holds h hden) (magnitude_eq x).symm

end Rounding

section Search

variable {n : Neighbourhood} {tie : Tie}

/-- A decimal lies among the reals of a neighbourhood. -/
def Neighbourhood.Contains (n : Neighbourhood) (d : Decimal) : Prop :=
  n.holds (Nat.pow 10 (-d.exponent).toNat) (Nat.pow 10 d.exponent.toNat * Nat.pow 2 1076) d.digits = true

theorem Neighbourhood.onGrid_contains {exponent : Int} {d : Nat} (h : n.onGrid tie exponent = some d) :
    n.Contains ⟨d, exponent⟩ := by
  simp only [onGrid] at h
  rw [Contains]
  generalize Nat.pow 10 (-exponent).toNat = unit at h ⊢
  generalize Nat.pow 10 exponent.toNat * Nat.pow 2 1076 = step at h ⊢
  generalize n.value * unit / step = below at h
  split at h
  · cases h
  · next hbelow _ =>
    cases h
    exact hbelow
  · next _ habove =>
    cases h
    exact habove
  · next hbelow habove =>
    have heither : d = below ∨ d = below + 1 := by
      split at h
      · exact .inl (Option.some.inj h).symm
      split at h
      · exact .inr (Option.some.inj h).symm
      cases tie with
      | up => exact .inr (Option.some.inj h).symm
      | toEven =>
        have hd : below + below % 2 = d := Option.some.inj h
        omega
    rcases heither with rfl | rfl
    · exact hbelow
    · exact habove

/-- A grid whose step is no longer than the reach of a neighbourhood meets it. -/
theorem Neighbourhood.onGrid_isSome {exponent : Int} (hlow : n.low + 1 ≤ n.value) (hhigh : n.value < n.high)
    (hstep : Nat.pow 10 exponent.toNat * Nat.pow 2 1076 ≤ Nat.pow 10 (-exponent).toNat) :
    (n.onGrid tie exponent).isSome = true := by
  simp only [onGrid]
  generalize 1076 = e at hstep ⊢
  have hpos : 0 < Nat.pow 10 exponent.toNat * Nat.pow 2 e :=
    Nat.mul_pos (Nat.pow_pos (by decide)) (Nat.two_pow_pos _)
  generalize Nat.pow 10 (-exponent).toNat = unit at hstep ⊢
  generalize Nat.pow 10 exponent.toNat * Nat.pow 2 e = step at hpos hstep ⊢
  have hbelow : n.holds unit step (n.value * unit / step) = true := by
    have hmod := Nat.mod_lt (n.value * unit) hpos
    have hdiv := Nat.div_add_mod (n.value * unit) step
    have hlow' := Nat.mul_le_mul_right unit hlow
    have hhigh' := Nat.mul_lt_mul_of_pos_right hhigh (Nat.lt_of_lt_of_le hpos hstep)
    rw [Nat.succ_mul] at hlow'
    rw [Nat.mul_comm step] at hdiv
    have hstrict : n.low * unit < n.value * unit / step * step ∧ n.value * unit / step * step < n.high * unit := by
      omega
    simp only [holds]
    split
    · simpa using ⟨Nat.le_of_lt hstrict.1, Nat.le_of_lt hstrict.2⟩
    · simpa using hstrict
  rw [hbelow]
  cases n.holds unit step (n.value * unit / step + 1) with
  | false => rfl
  | true =>
    simp only
    split
    · rfl
    split
    · rfl
    · cases tie <;> rfl

theorem Neighbourhood.search_contains {e : Int} (he : (n.onGrid tie e).isSome = true) :
    ∀ (fuel : Nat) (exponent : Int), e ≤ exponent → exponent < e + fuel → n.Contains (n.search tie fuel exponent)
  | 0, exponent, hle, hlt => by omega
  | fuel + 1, exponent, hle, hlt => by
    rw [search]
    split
    · next d hd => exact onGrid_contains hd
    · next hnone =>
      have hne : e ≠ exponent := by
        rintro rfl
        rw [hnone] at he
        cases he
      exact search_contains he fuel (exponent - 1) (by omega) (by omega)

end Search

section Neighbourhood

variable {x : Binary64}

theorem low_pos (hz : x.isZero = false) : 2 ≤ x.neighbourhood.low := by
  have hs := significand_pos hz
  refine Nat.le_trans ?_ (Nat.le_mul_of_pos_right _ (Nat.two_pow_pos _))
  split <;> omega

theorem low_lt_value (hz : x.isZero = false) : x.neighbourhood.low + 1 ≤ x.neighbourhood.value := by
  have hs := significand_pos hz
  refine Nat.mul_lt_mul_of_pos_right ?_ (Nat.two_pow_pos _)
  split <;> omega

theorem value_lt_high (x : Binary64) : x.neighbourhood.value < x.neighbourhood.high :=
  Nat.mul_lt_mul_of_pos_right (by omega) (Nat.two_pow_pos _)

/-- All reals that round to a finite number lie below `2 ^ 1025`. -/
theorem high_lt (hx : x.isFinite = true) {e : Nat} (he : 2101 = e) : x.neighbourhood.high < 2 ^ e := by
  have hs := significand_lt x
  have hscale := scale_le hx
  have hle : Nat.pow 2 x.scale ≤ 2 ^ (e - 56) := Nat.pow_le_pow_right (by decide) (by omega)
  have hpow : 2 ^ e = 2 ^ 56 * 2 ^ (e - 56) := by rw [← Nat.pow_add, Nat.add_sub_cancel' (by omega)]
  rw [hpow]
  refine Nat.lt_of_le_of_lt (Nat.mul_le_mul_left _ hle) (Nat.mul_lt_mul_of_pos_right ?_ (Nat.two_pow_pos _))
  exact show 4 * x.significand + 2 < 2 ^ 56 by omega

/-- The search starts above a grid that is fine enough for every number, and reaches it. -/
theorem shortest_contains (hx : x.isFinite = true) (hz : x.isZero = false) (tie : Tie) :
    x.neighbourhood.Contains (x.shortest tie) := by
  have hlog : x.neighbourhood.value.log2 < 2101 := by
    generalize he : 2101 = e
    exact (Nat.log2_lt (by have := low_lt_value hz; omega)).2 (Nat.lt_trans (value_lt_high x) (high_lt hx he))
  have hfine : (x.neighbourhood.onGrid tie (-324)).isSome = true :=
    Neighbourhood.onGrid_isSome (low_lt_value hz) (value_lt_high x) (by decide +kernel)
  refine Neighbourhood.search_contains hfine 1100 _ ?_ ?_
  · rw [Neighbourhood.top]
    omega
  · rw [Neighbourhood.top]
    omega

end Neighbourhood

section Decimals

variable {x : Binary64} {d : Decimal}

theorem Neighbourhood.contains_iff {n : Neighbourhood} {e : Nat} (he : 1076 = e) : n.Contains d ↔
    n.holds (Nat.pow 10 (-d.exponent).toNat) (Nat.pow 10 d.exponent.toNat * Nat.pow 2 e) d.digits = true := by
  unfold Contains
  generalize 1076 = k at he ⊢
  subst he
  exact Iff.rfl

theorem Neighbourhood.holds_scale {n : Neighbourhood} {unit step step' digits digits' c : Nat} (hc : 0 < c)
    (hstep : digits' * step' = digits * step * c) : n.holds (unit * c) step' digits' = n.holds unit step digits := by
  simp only [holds, hstep, ← Nat.mul_assoc, Nat.mul_le_mul_right_iff hc, Nat.mul_lt_mul_right hc]

/-- The same decimal with more digits. -/
theorem Neighbourhood.Contains.shift {n : Neighbourhood} (h : n.Contains d) (j : Nat) :
    n.Contains ⟨d.digits * 10 ^ j, d.exponent - j⟩ := by
  generalize he : 1076 = e
  rw [contains_iff he] at h ⊢
  obtain ⟨c, hc⟩ : ∃ c, (-(d.exponent - j)).toNat = (-d.exponent).toNat + c :=
    ⟨(-(d.exponent - j)).toNat - (-d.exponent).toNat, by omega⟩
  have hpow : j + (d.exponent - j).toNat = d.exponent.toNat + c := by omega
  simp only [Nat.pow_eq] at h ⊢
  rw [hc, Nat.pow_add, ← h]
  refine holds_scale (Nat.pow_pos (by decide)) ?_
  rw [Nat.mul_assoc, ← Nat.mul_assoc (10 ^ j), ← Nat.pow_add, hpow, Nat.pow_add, Nat.mul_assoc, Nat.mul_assoc,
    Nat.mul_assoc, Nat.mul_comm (2 ^ e)]

theorem Neighbourhood.bounds_of_contains (h : x.neighbourhood.Contains d) {e : Nat} (he : 1076 = e) :
    x.neighbourhood.low * 10 ^ (-d.exponent).toNat ≤ d.digits * (10 ^ d.exponent.toNat * 2 ^ e) ∧
      d.digits * (10 ^ d.exponent.toNat * 2 ^ e) ≤ x.neighbourhood.high * 10 ^ (-d.exponent).toNat := by
  rw [contains_iff he, holds] at h
  split at h
  · simp only [Bool.and_eq_true, decide_eq_true_eq] at h
    exact h
  · simp only [Bool.and_eq_true, decide_eq_true_eq] at h
    exact ⟨Nat.le_of_lt h.1, Nat.le_of_lt h.2⟩

theorem digits_pos_of_contains (hz : x.isZero = false) (h : x.neighbourhood.Contains d) : 0 < d.digits := by
  generalize he : 1076 = e
  obtain ⟨hlow, _⟩ := Neighbourhood.bounds_of_contains h he
  have hpos : 0 < x.neighbourhood.low * 10 ^ (-d.exponent).toNat :=
    Nat.mul_pos (Nat.lt_of_lt_of_le (by decide) (low_pos hz)) (Nat.pow_pos (by decide))
  exact Nat.pos_of_mul_pos_right (Nat.lt_of_lt_of_le hpos hlow)

theorem two_pow_le_ten_pow (n : Nat) : 2 ^ (3 * n) ≤ 10 ^ n := by
  rw [Nat.pow_mul]
  exact Nat.pow_le_pow_left (by decide) n

/-- No decimal around a finite number has so great an exponent that it is settled beforehand. -/
theorem exponent_le_of_contains (hx : x.isFinite = true) (hz : x.isZero = false) (h : x.neighbourhood.Contains d) :
    d.exponent ≤ 400 := by
  generalize he : 1076 = e
  obtain ⟨_, hhigh⟩ := Neighbourhood.bounds_of_contains h he
  have hdigits := digits_pos_of_contains hz h
  refine Int.not_lt.1 fun hlt ↦ ?_
  rw [show (-d.exponent).toNat = 0 by omega, Nat.pow_zero, Nat.mul_one] at hhigh
  have hpow : 2 ^ (3 * d.exponent.toNat + e) < 2 ^ (e + 1025) :=
    calc 2 ^ (3 * d.exponent.toNat + e)
      _ = 2 ^ (3 * d.exponent.toNat) * 2 ^ e := Nat.pow_add ..
      _ ≤ 10 ^ d.exponent.toNat * 2 ^ e := Nat.mul_le_mul_right _ (two_pow_le_ten_pow _)
      _ ≤ d.digits * (10 ^ d.exponent.toNat * 2 ^ e) := Nat.le_mul_of_pos_left _ hdigits
      _ ≤ x.neighbourhood.high := hhigh
      _ < 2 ^ (e + 1025) := high_lt hx (by omega)
  have hexponent := (Nat.pow_lt_pow_iff_right (by decide)).1 hpow
  omega

/-- Nor so small a one. -/
theorem le_exponent_of_contains (hz : x.isZero = false) (h : x.neighbourhood.Contains d) :
    -(400 + d.digits.log2) ≤ d.exponent := by
  generalize he : 1076 = e
  obtain ⟨hlow, _⟩ := Neighbourhood.bounds_of_contains h he
  refine Int.not_lt.1 fun hlt ↦ ?_
  rw [show d.exponent.toNat = 0 by omega, Nat.pow_zero, Nat.one_mul] at hlow
  have hpow : 2 ^ (3 * (-d.exponent).toNat) < 2 ^ (d.digits.log2 + 1 + e) :=
    calc 2 ^ (3 * (-d.exponent).toNat)
      _ ≤ 10 ^ (-d.exponent).toNat := two_pow_le_ten_pow _
      _ ≤ x.neighbourhood.low * 10 ^ (-d.exponent).toNat :=
        Nat.le_mul_of_pos_left _ (Nat.lt_of_lt_of_le (by decide) (low_pos hz))
      _ ≤ d.digits * 2 ^ e := hlow
      _ < 2 ^ (d.digits.log2 + 1) * 2 ^ e := Nat.mul_lt_mul_of_pos_right Nat.lt_log2_self (Nat.two_pow_pos _)
      _ = 2 ^ (d.digits.log2 + 1 + e) := (Nat.pow_add ..).symm
  have hexponent := (Nat.pow_lt_pow_iff_right (by decide)).1 hpow
  omega

theorem holds_congr {n : Neighbourhood} {unit unit' step step' digits digits' : Nat} (hunit : unit = unit')
    (hstep : digits * step = digits' * step') : n.holds unit step digits = n.holds unit' step' digits' := by
  simp only [Neighbourhood.holds, hunit, hstep]

/-- Whatever lies among the reals that round to a number is read as it. -/
theorem ofDecimal_eq (hx : x.isFinite = true) (hz : x.isZero = false) (h : x.neighbourhood.Contains d) (negative : Bool) :
    ofDecimal negative d.digits d.exponent = ofMagnitude negative x.magnitude := by
  have hdigits := digits_pos_of_contains hz h
  have hle := exponent_le_of_contains hx hz h
  have hge := le_exponent_of_contains hz h
  rw [ofDecimal, if_neg (Nat.ne_of_gt hdigits), if_neg (Int.not_lt.2 hle), if_neg (Int.not_lt.2 hge)]
  generalize he : 1076 = e
  have hquarter : Nat.pow 2 e = Nat.pow 2 (e - 2) * 4 := by
    rw [show e = e - 2 + 2 by omega, Nat.pow_eq, Nat.pow_add, Nat.add_sub_cancel]
    rfl
  rw [Neighbourhood.contains_iff he] at h
  have hten : 0 < Nat.pow 10 (-d.exponent).toNat := Nat.pow_pos (by decide)
  split
  · rw [ofRatio, show 1074 = e - 2 by omega, nearestMagnitude_of_holds hx Nat.one_pos]
    rw [← h]
    refine holds_congr ?_ ?_
    · rw [show (-d.exponent).toNat = 0 by omega]
    · rw [hquarter, ← Nat.mul_assoc, ← Nat.mul_assoc]
  · rw [ofRatio, show 1074 = e - 2 by omega, nearestMagnitude_of_holds hx hten]
    rw [← h]
    refine holds_congr rfl ?_
    rw [show d.exponent.toNat = 0 by omega, hquarter, show Nat.pow 10 0 = 1 from rfl, Nat.one_mul, Nat.mul_assoc]

theorem ofMagnitude_magnitude (x : Binary64) : ofMagnitude x.negative x.magnitude = x := by
  have hlt := x.bits.toNat_lt
  have hplace : signPlace = 2 ^ 63 := rfl
  rw [ofMagnitude, negative, magnitude, hplace]
  refine congrArg Binary64.mk (UInt64.toNat_inj.1 ?_)
  rw [UInt64.toNat_ofNat']
  split
  · next hneg =>
    rw [decide_eq_true_eq] at hneg
    omega
  · next hpos =>
    rw [decide_eq_true_eq] at hpos
    omega

end Decimals

end CloudOffers.Binary64
