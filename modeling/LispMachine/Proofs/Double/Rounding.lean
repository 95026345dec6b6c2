import Mathlib.Algebra.Order.Field.Power
import Mathlib.Algebra.Order.Ring.Rat
import Mathlib.Tactic.FieldSimp
import Mathlib.Tactic.Linarith
import Mathlib.Tactic.Positivity
import Mathlib.Tactic.Ring
import LispMachine.Double.Reading

set_option autoImplicit false

namespace LispMachine.Double

section Powers

variable {b : ℚ}

-- One of the two exponents is zero.
theorem pow_toNat_div (e : ℤ) : b ^ e.toNat / b ^ (-e).toNat = b ^ e := by
  obtain ⟨n, rfl | rfl⟩ := e.eq_nat_or_neg <;> simp

theorem scaled_div (num den : ℚ) (e : ℤ) :
    num * b ^ (-e).toNat / (den * b ^ e.toNat) = num / den / b ^ e := by
  have inverse : b ^ (-e).toNat / b ^ e.toNat = (b ^ e)⁻¹ := by
    have power := pow_toNat_div (b := b) (-e)
    rwa [neg_neg, zpow_neg] at power
  rw [mul_div_mul_comm, inverse, ← div_eq_mul_inv]

end Powers

section Nearest

variable {num den n m : Nat} {x : ℚ}

structure Nearest (n : Nat) (x : ℚ) : Prop where
  low : n - 1 / 2 ≤ x
  high : x ≤ n + 1 / 2
  odd : n % 2 = 1 → n - 1 / 2 < x ∧ x < n + 1 / 2

-- Two neighbours are not both even.
theorem Nearest.not_next (one : Nearest n x) (two : Nearest (n + 1) x) : False := by
  have low := two.low
  push_cast at low
  rcases Nat.mod_two_eq_zero_or_one n with even | odd
  · have strict := (two.odd (by omega)).1
    push_cast at strict
    linarith [one.high]
  · linarith [(one.odd odd).2]

theorem Nearest.unique (one : Nearest n x) (two : Nearest m x) : n = m := by
  have below : (n : ℚ) ≤ m + 1 := by linarith [one.low, two.high]
  have above : (m : ℚ) ≤ n + 1 := by linarith [one.high, two.low]
  norm_cast at below above
  rcases Nat.lt_trichotomy n m with less | same | greater
  · obtain rfl : m = n + 1 := by omega
    exact (one.not_next two).elim
  · exact same
  · obtain rfl : n = m + 1 := by omega
    exact (two.not_next one).elim

theorem nearest_roundHalfEven (num : Nat) (positive : 0 < den) :
    Nearest (roundHalfEven num den) (num / den) := by
  have nonzero : (0 : ℚ) < den := by exact_mod_cast positive
  have remainder : num % den < den := Nat.mod_lt num positive
  have whole : (num : ℚ) = den * (num / den : ℕ) + (num % den : ℕ) := by
    exact_mod_cast (Nat.div_add_mod num den).symm
  have ratio : (num : ℚ) / den = (num / den : ℕ) + (num % den : ℕ) / den := by
    rw [whole]
    field_simp
  unfold roundHalfEven
  generalize num / den = q at ratio ⊢
  generalize num % den = r at ratio remainder ⊢
  simp only [Bool.or_eq_true, decide_eq_true_eq, Bool.and_eq_true]
  rw [ratio]
  have fraction : 0 ≤ (r : ℚ) / den ∧ (r : ℚ) / den < 1 := by
    refine ⟨by positivity, ?_⟩
    rw [div_lt_one nonzero]
    exact_mod_cast remainder
  have less : (r : ℚ) / den < 1 / 2 ↔ 2 * r < den := by
    rw [div_lt_div_iff₀ nonzero two_pos]
    norm_cast
    omega
  have more : 1 / 2 < (r : ℚ) / den ↔ den < 2 * r := by
    rw [div_lt_div_iff₀ two_pos nonzero]
    norm_cast
    omega
  split
  next down =>
    have half : (r : ℚ) / den ≤ 1 / 2 := by
      by_contra above
      have := more.mp (not_le.mp above)
      omega
    refine ⟨by linarith [fraction.1], by linarith, ?_⟩
    intro odd
    have strict := less.mpr (by omega)
    constructor <;> linarith [fraction.1]
  next up =>
    have half : 1 / 2 ≤ (r : ℚ) / den := by
      by_contra below
      have := less.mp (not_le.mp below)
      omega
    have next : ((q + 1 : ℕ) : ℚ) = q + 1 := Nat.cast_succ q
    refine ⟨by linarith, by linarith [fraction.2], ?_⟩
    intro odd
    have strict := more.mpr (by omega)
    constructor <;> linarith [fraction.2]

theorem nearest_scaled (num : Nat) (positive : 0 < den) (unit : ℤ) : Nearest
    (roundHalfEven (num * Nat.pow 2 (-unit).toNat) (den * Nat.pow 2 unit.toNat)) (num / den / 2 ^ unit) := by
  have scaled := nearest_roundHalfEven (num * Nat.pow 2 (-unit).toNat)
    (Nat.mul_pos positive (Nat.pow_pos two_pos) : 0 < den * Nat.pow 2 unit.toNat)
  rw [← scaled_div]
  simpa using scaled

end Nearest

section Scale

variable {num den : Nat}

theorem log2_bounds (some : 0 < num) :
    (2 : ℚ) ^ (num.log2 : ℤ) ≤ num ∧ (num : ℚ) < 2 ^ ((num.log2 : ℤ) + 1) := by
  have low : 2 ^ num.log2 ≤ num := Nat.log2_self_le some.ne'
  have high : num < 2 ^ (num.log2 + 1) := Nat.lt_log2_self
  constructor
  · rw [zpow_natCast]
    exact_mod_cast low
  · rw [← Nat.cast_succ, zpow_natCast]
    exact_mod_cast high

-- The two logarithms tell the scale, or the one above it.
theorem guess_bounds (some : 0 < num) (positive : 0 < den) :
    (2 : ℚ) ^ ((num.log2 : ℤ) - den.log2 - 1) ≤ num / den ∧
      (num / den : ℚ) < 2 ^ ((num.log2 : ℤ) - den.log2 + 1) := by
  obtain ⟨low, high⟩ := log2_bounds some
  obtain ⟨low', high'⟩ := log2_bounds positive
  have nonzero : (0 : ℚ) < den := by exact_mod_cast positive
  generalize (num.log2 : ℤ) = a at *
  generalize (den.log2 : ℤ) = c at *
  constructor
  · rw [le_div_iff₀ nonzero]
    calc
      (2 : ℚ) ^ (a - c - 1) * den ≤ 2 ^ (a - c - 1) * 2 ^ (c + 1) := by gcongr
      _ = 2 ^ a := by rw [← zpow_add₀ two_ne_zero]; congr 1; omega
      _ ≤ num := low
  · rw [div_lt_iff₀ nonzero]
    calc
      (num : ℚ) < 2 ^ (a + 1) := high
      _ = 2 ^ (a - c + 1) * 2 ^ c := by rw [← zpow_add₀ two_ne_zero]; congr 1; omega
      _ ≤ 2 ^ (a - c + 1) * den := by gcongr

theorem lt_zpow_iff (num : Nat) (positive : 0 < den) (e : ℤ) :
    num * Nat.pow 2 (-e).toNat < den * Nat.pow 2 e.toNat ↔ (num / den : ℚ) < 2 ^ e := by
  have nonzero : (0 : ℚ) < den := by exact_mod_cast positive
  rw [← pow_toNat_div, div_lt_div_iff₀ nonzero (by positivity), mul_comm _ (den : ℚ)]
  simp only [Nat.pow_eq]
  norm_cast

theorem binaryScale_bounds (some : 0 < num) (positive : 0 < den) :
    (2 : ℚ) ^ binaryScale num den ≤ num / den ∧ (num / den : ℚ) < 2 ^ (binaryScale num den + 1) := by
  obtain ⟨lower, upper⟩ := guess_bounds some positive
  unfold binaryScale
  simp only [lt_zpow_iff num positive]
  split
  next => exact ⟨lower, by rwa [sub_add_cancel]⟩
  next above => exact ⟨not_lt.mp above, upper⟩

end Scale

end LispMachine.Double
