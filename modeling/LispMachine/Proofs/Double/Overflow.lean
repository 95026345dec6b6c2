import LispMachine.Proofs.Double.Interval

set_option autoImplicit false

namespace LispMachine.Double

/-- Half a unit more than the greatest finite double, which is `(2 ^ 53 - 1) * 2 ^ 971`. -/
def overflow : ℚ := (2 * hiddenBit - 1 / 2) * 2 ^ (971 : ℤ)

def infinity (negative : Bool) : Double :=
  ⟨UInt64.ofNat ((if negative then 2048 * hiddenBit else 0) + 2047 * hiddenBit)⟩

theorem overflow_pos : 0 < overflow := mul_pos (by norm_num [hiddenBit]) (by positivity)

@[simp] theorem isFinite_infinity (negative : Bool) : (infinity negative).isFinite = false := by
  cases negative <;> decide

theorem isFinite_magnitude (negative : Bool) (m : Nat) :
    isFinite ⟨UInt64.ofNat ((if negative then 2048 * hiddenBit else 0) + min m (2047 * hiddenBit))⟩ = true ↔
      m < 2047 * hiddenBit := by
  have small : (if negative then 2048 * hiddenBit else 0) + min m (2047 * hiddenBit) < UInt64.size := by
    have capped : min m (2047 * hiddenBit) ≤ 2047 * hiddenBit := Nat.min_le_right _ _
    cases negative <;> simp only [hiddenBit, UInt64.size, if_true, Bool.false_eq_true, if_false] at capped ⊢ <;> omega
  simp only [isFinite, exponentField, UInt64.toNat_ofNat_of_lt' small, decide_eq_true_eq]
  cases negative <;> simp [hiddenBit] <;> omega

section Ratio

variable {num den n : Nat} {y : ℚ} {unit : ℤ}

theorem Nearest.lt_iff (nearest : Nearest n y) : n < 2 * hiddenBit ↔ y < 2 * hiddenBit - 1 / 2 := by
  constructor
  · intro less
    have most : (n : ℚ) + 1 ≤ 2 * hiddenBit := by exact_mod_cast less
    rcases Nat.lt_or_ge (n + 1) (2 * hiddenBit) with below | last
    · have most : (n : ℚ) + 1 + 1 ≤ 2 * hiddenBit := by exact_mod_cast below
      linarith [nearest.high]
    · have odd : n % 2 = 1 := by
        simp only [hiddenBit] at less last
        omega
      linarith [(nearest.odd odd).2]
  · intro less
    have below : (n : ℚ) < 2 * hiddenBit := by linarith [nearest.low]
    exact_mod_cast below

theorem magnitude_lt_iff (nearest : Nearest n y) (below : y < 2 * hiddenBit) (least : -1074 ≤ unit)
    (normal : -1074 < unit → hiddenBit ≤ y) :
    (unit + 1074).toNat * hiddenBit + n < 2047 * hiddenBit ↔ y * 2 ^ unit < overflow := by
  have positive : (0 : ℚ) < 2 ^ (971 : ℤ) := by positivity
  rcases lt_trichotomy unit 971 with small | rfl | great
  · have most : n < 2 * hiddenBit + 1 := by
      have most : (n : ℚ) < 2 * hiddenBit + 1 := by linarith [nearest.low]
      exact_mod_cast most
    have place : (unit + 1074).toNat ≤ 2044 := by omega
    refine iff_of_true ?_ ?_
    · simp only [hiddenBit] at most ⊢
      omega
    · have half : (2 : ℚ) ^ unit * 2 ≤ 2 ^ (971 : ℤ) := by
        rw [← zpow_add_one₀ two_ne_zero]
        exact zpow_le_zpow_right₀ one_le_two (by omega)
      rw [overflow]
      generalize (2 : ℚ) ^ (971 : ℤ) = top at *
      calc
        y * 2 ^ unit < 2 * hiddenBit * 2 ^ unit := by gcongr
        _ = hiddenBit * (2 ^ unit * 2) := by ring
        _ ≤ hiddenBit * top := by gcongr
        _ ≤ (2 * hiddenBit - 1 / 2) * top := by
          gcongr
          norm_num [hiddenBit]
  · have place : ((971 : ℤ) + 1074).toNat = 2045 := rfl
    rw [overflow, mul_lt_mul_iff_of_pos_right (by positivity), ← nearest.lt_iff, place]
    simp only [hiddenBit]
    omega
  · have whole := normal (by omega)
    have most : hiddenBit < n + 1 := by
      have most : (hiddenBit : ℚ) < n + 1 := by linarith [nearest.high]
      exact_mod_cast most
    have place : 2046 ≤ (unit + 1074).toNat := by omega
    refine iff_of_false ?_ ?_
    · simp only [hiddenBit] at most ⊢
      omega
    · have double : (2 : ℚ) ^ (971 : ℤ) * 2 ≤ 2 ^ unit := by
        rw [← zpow_add_one₀ two_ne_zero]
        exact zpow_le_zpow_right₀ one_le_two (by omega)
      rw [not_lt, overflow]
      generalize (2 : ℚ) ^ (971 : ℤ) = top at *
      calc
        (2 * hiddenBit - 1 / 2) * top ≤ 2 * hiddenBit * top := by
          gcongr
          norm_num
        _ = hiddenBit * (top * 2) := by ring
        _ ≤ hiddenBit * 2 ^ unit := by gcongr
        _ ≤ y * 2 ^ unit := by gcongr

theorem exists_magnitude (negative : Bool) (some : 0 < num) (positive : 0 < den) : ∃ m,
    ofRatio negative num den =
      ⟨UInt64.ofNat ((if negative then 2048 * hiddenBit else 0) + min m (2047 * hiddenBit))⟩ ∧
      (m < 2047 * hiddenBit ↔ (num / den : ℚ) < overflow) := by
  refine ⟨_, if_neg some.ne', ?_⟩
  have least := le_max_right (binaryScale num den - 52) (-1074)
  have nearest := nearest_scaled num positive (max (binaryScale num den - 52) (-1074))
  obtain ⟨low, high⟩ := scale_bounds some positive (max (binaryScale num den - 52) (-1074))
  have below : binaryScale num den - max (binaryScale num den - 52) (-1074) + 1 ≤ 53 := by omega
  have normal : -1074 < max (binaryScale num den - 52) (-1074) →
      binaryScale num den - max (binaryScale num den - 52) (-1074) = 52 := by omega
  generalize max (binaryScale num den - 52) (-1074) = unit at *
  have whole : (num / den / 2 ^ unit * 2 ^ unit : ℚ) = num / den := div_mul_cancel₀ _ (by positivity)
  rw [← whole]
  refine magnitude_lt_iff nearest (high.trans_le ?_) least fun above => ?_
  · calc
      (2 : ℚ) ^ (binaryScale num den - unit + 1) ≤ 2 ^ (53 : ℤ) := zpow_le_zpow_right₀ one_le_two below
      _ = 2 * hiddenBit := by norm_num [hiddenBit]
  · rw [normal above, ← hiddenBit_eq_zpow] at low
    exact low

theorem isFinite_ofRatio (negative : Bool) (positive : 0 < den) (below : (num / den : ℚ) < overflow) :
    (ofRatio negative num den).isFinite = true := by
  rcases Nat.eq_zero_or_pos num with rfl | some
  · have zero := isFinite_magnitude negative 0
    rw [Nat.zero_min, Nat.add_zero] at zero
    rw [ofRatio, if_pos rfl]
    exact zero.mpr (by decide)
  · obtain ⟨m, read, small⟩ := exists_magnitude negative some positive
    rw [read, isFinite_magnitude]
    exact small.mpr below

theorem ofRatio_eq_infinity (negative : Bool) (positive : 0 < den) (above : overflow ≤ (num / den : ℚ)) :
    ofRatio negative num den = infinity negative := by
  have some : 0 < num := by
    refine Nat.pos_of_ne_zero ?_
    rintro rfl
    rw [Nat.cast_zero, zero_div] at above
    exact absurd overflow_pos above.not_gt
  obtain ⟨m, read, small⟩ := exists_magnitude negative some positive
  have great : 2047 * hiddenBit ≤ m := Nat.le_of_not_lt fun less => above.not_gt (small.mp less)
  rw [read, Nat.min_eq_right great, infinity]

end Ratio

section Decimals

variable (negative : Bool) {digits places : Nat}

theorem ofDecimal_eq_infinity (above : overflow ≤ (digits / 10 ^ places : ℚ)) :
    ofDecimal negative digits places = infinity negative := by
  refine ofRatio_eq_infinity negative (Nat.pow_pos (by decide)) ?_
  rwa [Nat.pow_eq, Nat.cast_pow]

theorem isFinite_ofDecimal : (ofDecimal negative digits places).isFinite = true ↔
    (digits / 10 ^ places : ℚ) < overflow := by
  constructor
  · intro finite
    by_contra above
    rw [ofDecimal_eq_infinity negative (not_lt.mp above), isFinite_infinity] at finite
    cases finite
  · intro below
    refine isFinite_ofRatio negative (Nat.pow_pos (by decide)) ?_
    rwa [Nat.pow_eq, Nat.cast_pow]

end Decimals

end LispMachine.Double
