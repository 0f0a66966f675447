import CloudOffers.Metrics.Registry
import CloudOffers.Proofs.Decimal.Rounding
/-!
Durations in seconds. Whether one exceeds a bound is asked of rounded numbers, and is answered as it would be
for the nanoseconds.
-/

namespace CloudOffers.Metrics

open Binary64

theorem magnitude_seconds (n : Nat) : (seconds n).magnitude =
    nearestMagnitude ((ofNat (n / 1000000000)).units + (ofRatio false (n % 1000000000) 1000000000).units) 1 :=
  magnitude_ofMagnitude (nearestMagnitude_le_infinity ..) false

/-- What is left over of a duration is a second at most, also when it has been rounded. -/
theorem units_rest_le (n : Nat) : (ofRatio false (n % 1000000000) 1000000000).units ≤ (ofNat 1).units := by
  have hsecond : (ofRatio false 1000000000 1000000000).magnitude = (ofNat 1).magnitude := by decide +kernel
  refine units_mono (Nat.le_trans (magnitude_ofRatio_mono false ?_ 1000000000) (Nat.le_of_eq hsecond))
  exact Nat.le_of_lt (Nat.mod_lt _ (by decide))

theorem magnitude_seconds_mono {m n : Nat} (h : m ≤ n) (hm : m / 1000000000 + 1 < 2 ^ 53) :
    (seconds m).magnitude ≤ (seconds n).magnitude := by
  rw [magnitude_seconds, magnitude_seconds]
  refine nearestMagnitude_mono ?_ 1
  rcases Nat.lt_or_eq_of_le (Nat.div_le_div_right (c := 1000000000) h) with hlt | heq
  · -- One more whole second outweighs any rest.
    have hrest := units_rest_le m
    have hwhole := units_mono (magnitude_ofRatio_mono false (Nat.succ_le_of_lt hlt) 1)
    change (ofNat (m / 1000000000 + 1)).units ≤ (ofNat (n / 1000000000)).units at hwhole
    rw [units_ofNat hm, Nat.add_mul] at hwhole
    rw [units_ofNat (by decide)] at hrest
    rw [units_ofNat (Nat.lt_of_succ_lt hm)]
    exact Nat.le_trans (Nat.add_le_add_left hrest _) (Nat.le_trans hwhole (Nat.le_add_right ..))
  · have hrest : m % 1000000000 ≤ n % 1000000000 := by omega
    rw [heq]
    exact Nat.add_le_add_left (units_mono (magnitude_ofRatio_mono false hrest 1000000000)) _

/-- At a bound nothing is lost, and a nanosecond more makes a greater number. -/
theorem magnitude_seconds_bounds : ∀ bound ∈ bounds, bound / 1000000000 ≤ 1800 ∧
    (seconds bound).magnitude = (limit bound).magnitude ∧
    (limit bound).magnitude < (seconds (bound + 1)).magnitude := by
  decide +kernel

theorem seconds_le_limit_iff {bound : Nat} (hbound : bound ∈ bounds) (n : Nat) :
    (seconds n).le (limit bound) = true ↔ n ≤ bound := by
  obtain ⟨hsmall, hat, hbeyond⟩ := magnitude_seconds_bounds bound hbound
  have hseconds : (seconds n).negative = false := negative_ofMagnitude (nearestMagnitude_le_infinity ..)
  have hlimit : (limit bound).negative = false := negative_ofMagnitude (nearestMagnitude_le_infinity ..)
  rw [le_iff_of_nonnegative hseconds hlimit]
  constructor
  · intro hle
    by_contra hlt
    have hmono := magnitude_seconds_mono (Nat.succ_le_of_lt (Nat.lt_of_not_le hlt)) (by omega)
    exact absurd (Nat.lt_of_lt_of_le hbeyond hmono) (Nat.not_lt.2 hle)
  · intro hle
    exact Nat.le_trans (magnitude_seconds_mono hle (by omega)) (Nat.le_of_eq hat)

example : NumberStyle.plain.text ((seconds 100000000).sum (seconds 200000000)) = "0.30000000000000004" := by
  decide +kernel

end CloudOffers.Metrics
