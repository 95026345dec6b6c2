import LispMachine.Double.Shortest
import LispMachine.Proofs.Double.Rounding

set_option autoImplicit false

namespace LispMachine.Double

def Interval.Contains (i : Interval) (x : ℚ) : Prop :=
  if i.closed then i.low * 2 ^ i.unit ≤ x ∧ x ≤ i.high * 2 ^ i.unit
  else i.low * 2 ^ i.unit < x ∧ x < i.high * 2 ^ i.unit

section Fields

variable (d : Double)

theorem fraction_lt : d.fraction < hiddenBit := Nat.mod_lt _ (by decide)

-- The hidden bit of a normal number counts as one more unit of its place.
theorem place_eq : (d.exponent + 1074).toNat * hiddenBit + d.significand =
    d.exponentField * hiddenBit + d.fraction := by
  unfold exponent significand
  generalize d.exponentField = field
  cases field with
  | zero => simp
  | succ place =>
      have above : (((max (place + 1) 1 : Nat) : Int) - 1075 + 1074).toNat = place := by omega
      rw [above, if_neg (Nat.succ_ne_zero place), Nat.succ_mul, Nat.add_assoc]

theorem bits_eq : (if d.isNegative then 2048 * hiddenBit else 0) +
    ((d.exponent + 1074).toNat * hiddenBit + d.significand) = d.bits.toNat := by
  have size : d.bits.toNat < 18446744073709551616 := d.bits.toNat_lt
  rw [place_eq, isNegative, exponentField, fraction]
  by_cases negative : 2048 * hiddenBit ≤ d.bits.toNat
  next =>
    rw [if_pos (decide_eq_true negative)]
    simp only [hiddenBit] at negative ⊢
    omega
  next =>
    rw [if_neg (by simpa using negative)]
    simp only [hiddenBit] at negative ⊢
    omega

theorem significand_lt : d.significand < 2 * hiddenBit := by
  simp only [significand, fraction, hiddenBit]
  split <;> omega

theorem exponent_ge : -1074 ≤ d.exponent := by
  simp only [exponent]
  omega

theorem hiddenBit_le (normal : -1074 < d.exponent) : hiddenBit ≤ d.significand := by
  simp only [exponent, significand] at normal ⊢
  split <;> omega

theorem place_lt (finite : d.isFinite = true) :
    (d.exponent + 1074).toNat * hiddenBit + d.significand < 2047 * hiddenBit := by
  have field : d.exponentField < 2047 := of_decide_eq_true finite
  have small := d.fraction_lt
  rw [place_eq]
  simp only [hiddenBit] at small ⊢
  omega

def Uneven : Prop := d.significand = hiddenBit ∧ -1074 < d.exponent

theorem low_interval : (d.Uneven → d.interval.low = 4 * d.significand - 1) ∧
    (¬ d.Uneven → d.interval.low = 4 * d.significand - 2) := by
  have edge : (d.fraction = 0 && 1 < d.exponentField) = true ↔ d.Uneven := by
    simp only [Uneven, significand, exponent, Bool.and_eq_true, decide_eq_true_eq]
    have small := d.fraction_lt
    split <;> omega
  constructor
  · intro uneven
    exact if_pos (edge.mpr uneven)
  · intro even
    exact if_neg (mt edge.mp even)

theorem le_low : 4 * d.significand ≤ d.interval.low + 2 := by
  by_cases uneven : d.Uneven
  next => rw [d.low_interval.1 uneven]; omega
  next => rw [d.low_interval.2 uneven]; omega

theorem low_lt (some : 0 < d.significand) : d.interval.low < 4 * d.significand := by
  by_cases uneven : d.Uneven
  next => rw [d.low_interval.1 uneven]; omega
  next => rw [d.low_interval.2 uneven]; omega

end Fields

section Reading

variable {d : Double} {x : ℚ}

theorem two_zpow_unit : (2 : ℚ) ^ d.interval.unit = 2 ^ d.exponent / 4 := by
  have unit : d.interval.unit = d.exponent - 2 := rfl
  rw [unit, zpow_sub₀ two_ne_zero]
  norm_num

theorem Interval.Contains.weak {i : Interval} (inside : i.Contains x) :
    i.low * 2 ^ i.unit ≤ x ∧ x ≤ i.high * 2 ^ i.unit := by
  unfold Interval.Contains at inside
  split at inside
  next => exact inside
  next => exact ⟨inside.1.le, inside.2.le⟩

theorem Interval.Contains.nearest (inside : d.interval.Contains x) :
    Nearest d.significand (x / 2 ^ d.exponent) := by
  have positive : (0 : ℚ) < 2 ^ d.exponent := by positivity
  have low : (4 * d.significand - 2 : ℚ) ≤ d.interval.low := by
    have cast : (4 * d.significand : ℚ) ≤ d.interval.low + 2 := by exact_mod_cast d.le_low
    linarith
  have high : (d.interval.high : ℚ) = 4 * d.significand + 2 := by
    exact_mod_cast (rfl : d.interval.high = 4 * d.significand + 2)
  have weak := inside.weak
  rw [two_zpow_unit, high] at weak
  refine ⟨?_, ?_, ?_⟩
  · rw [le_div_iff₀ positive]
    nlinarith
  · rw [div_le_iff₀ positive]
    linarith
  · intro odd
    have opened : d.interval.closed = false := decide_eq_false (by omega)
    unfold Interval.Contains at inside
    rw [opened, two_zpow_unit, high] at inside
    simp only [Bool.false_eq_true, if_false] at inside
    constructor
    · rw [lt_div_iff₀ positive]
      nlinarith
    · rw [div_lt_iff₀ positive]
      linarith

theorem Interval.Contains.near (inside : d.interval.Contains x) (uneven : d.Uneven) :
    (d.significand - 1 / 4 : ℚ) ≤ x / 2 ^ d.exponent := by
  have positive : (0 : ℚ) < 2 ^ d.exponent := by positivity
  have low : (d.interval.low : ℚ) = 4 * d.significand - 1 := by
    have some : 1 ≤ 4 * d.significand := by
      rw [uneven.1]
      decide
    rw [d.low_interval.1 uneven, Nat.cast_sub some]
    push_cast
    ring
  have weak := inside.weak.1
  rw [two_zpow_unit, low] at weak
  rw [le_div_iff₀ positive]
  linarith

variable {num den : Nat}

theorem lt_of_zpow_le {a b : ℤ} (low : (2 : ℚ) ^ a ≤ x) (high : x < 2 ^ b) : a < b :=
  (zpow_lt_zpow_iff_right₀ one_lt_two).mp (lt_of_le_of_lt low high)

theorem scale_bounds (some : 0 < num) (positive : 0 < den) (e : ℤ) :
    (2 : ℚ) ^ (binaryScale num den - e) ≤ num / den / 2 ^ e ∧
      (num / den / 2 ^ e : ℚ) < 2 ^ (binaryScale num den - e + 1) := by
  obtain ⟨low, high⟩ := binaryScale_bounds some positive
  have next : binaryScale num den - e + 1 = binaryScale num den + 1 - e := by ring
  rw [next, zpow_sub₀ two_ne_zero, zpow_sub₀ two_ne_zero]
  constructor <;> gcongr

theorem hiddenBit_eq_zpow : (hiddenBit : ℚ) = 2 ^ (52 : ℤ) := by
  norm_num [hiddenBit]

theorem unit_of_contains (some : 0 < num) (positive : 0 < den) (inside : d.interval.Contains (num / den)) :
    max (binaryScale num den - 52) (-1074) = d.exponent ∨
      max (binaryScale num den - 52) (-1074) = d.exponent - 1 ∧ d.Uneven ∧
        (num / den / 2 ^ d.exponent : ℚ) < hiddenBit := by
  obtain ⟨low, high⟩ := scale_bounds some positive d.exponent
  have nearest := inside.nearest
  have near := inside.near
  have least := d.exponent_ge
  generalize binaryScale num den = scale at low high ⊢
  generalize (num / den / 2 ^ d.exponent : ℚ) = y at *
  have above : scale - d.exponent < 53 := by
    refine lt_of_zpow_le low ?_
    have whole : (d.significand : ℚ) + 1 ≤ 2 * hiddenBit := by exact_mod_cast d.significand_lt
    have double : (2 : ℚ) ^ (53 : ℤ) = 2 * hiddenBit := by norm_num [hiddenBit]
    linarith [nearest.high]
  by_cases subnormal : d.exponent = -1074
  next => exact .inl (by omega)
  next =>
    have normal : -1074 < d.exponent := by omega
    by_cases whole : (hiddenBit : ℚ) ≤ y
    next =>
      have below : 52 < scale - d.exponent + 1 := lt_of_zpow_le (hiddenBit_eq_zpow ▸ whole) high
      exact .inl (by omega)
    next =>
      rw [not_le] at whole
      have uneven : d.Uneven := by
        have most : (d.significand : ℚ) < hiddenBit + 1 := by linarith [nearest.low]
        have most' : d.significand < hiddenBit + 1 := by exact_mod_cast most
        exact ⟨Nat.le_antisymm (Nat.le_of_lt_succ most') (d.hiddenBit_le normal), normal⟩
      have half : (2 : ℚ) ^ (51 : ℤ) ≤ y := by
        have quarter := near uneven
        rw [uneven.1] at quarter
        norm_num [hiddenBit] at quarter ⊢
        linarith
      have below : 51 < scale - d.exponent + 1 := lt_of_zpow_le half high
      have above' : scale - d.exponent < 52 := lt_of_zpow_le low (hiddenBit_eq_zpow ▸ whole)
      exact .inr ⟨by omega, uneven, whole⟩

theorem ofRatio_of_contains (finite : d.isFinite = true) (some : 0 < num) (positive : 0 < den)
    (inside : d.interval.Contains (num / den)) : ofRatio d.isNegative num den = d := by
  have place : (max (binaryScale num den - 52) (-1074) + 1074).toNat * hiddenBit +
      roundHalfEven (num * Nat.pow 2 (-max (binaryScale num den - 52) (-1074)).toNat)
        (den * Nat.pow 2 (max (binaryScale num den - 52) (-1074)).toNat) =
      (d.exponent + 1074).toNat * hiddenBit + d.significand := by
    rcases unit_of_contains some positive inside with unit | ⟨unit, uneven, below⟩
    · rw [unit, (nearest_scaled num positive d.exponent).unique inside.nearest]
    · have doubled : Nearest (2 * hiddenBit) (num / den / 2 ^ (d.exponent - 1)) := by
        have near := inside.near uneven
        have twice : (num / den / 2 ^ (d.exponent - 1) : ℚ) = 2 * (num / den / 2 ^ d.exponent) := by
          rw [zpow_sub₀ two_ne_zero]
          field_simp
        rw [uneven.1] at near
        rw [twice]
        refine ⟨?_, ?_, fun odd => absurd odd (by decide)⟩ <;>
        · push_cast
          linarith
      rw [unit, (nearest_scaled num positive _).unique doubled, uneven.1]
      have normal := uneven.2
      have less : (d.exponent + 1074).toNat = (d.exponent - 1 + 1074).toNat + 1 := by omega
      rw [less]
      ring
  have bound := d.place_lt finite
  unfold ofRatio
  simp only [if_neg some.ne', place, Nat.min_eq_left bound.le, d.bits_eq, UInt64.ofNat_toNat]

end Reading

end LispMachine.Double
