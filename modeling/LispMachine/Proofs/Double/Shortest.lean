import Mathlib.Data.Nat.Cast.Order.Field
import LispMachine.Proofs.Double.Interval

set_option autoImplicit false

namespace LispMachine.Double

namespace Interval

variable {i : Interval} {e : Int} {c n : Nat} {x y z : ℚ}

theorem Contains.between (low : i.Contains x) (high : i.Contains z) (above : x ≤ y) (below : y ≤ z) :
    i.Contains y := by
  unfold Contains at *
  split
  next closed =>
    rw [if_pos closed] at low high
    exact ⟨low.1.trans above, below.trans high.2⟩
  next closed =>
    rw [if_neg closed] at low high
    exact ⟨low.1.trans_le above, below.trans_lt high.2⟩

theorem contains_of_lt (low : i.low * 2 ^ i.unit < x) (high : x < i.high * 2 ^ i.unit) : i.Contains x := by
  unfold Contains
  split
  next => exact ⟨low.le, high.le⟩
  next => exact ⟨low, high⟩

def binary (i : Interval) (e : Int) : Nat := Nat.pow 2 i.unit.toNat * Nat.pow 10 (-e).toNat

def decimal (i : Interval) (e : Int) : Nat := Nat.pow 10 e.toNat * Nat.pow 2 (-i.unit).toNat

def inside (i : Interval) (e : Int) (c : Nat) : Bool :=
  if i.closed then i.low * i.binary e ≤ c * i.decimal e && c * i.decimal e ≤ i.high * i.binary e
  else i.low * i.binary e < c * i.decimal e && c * i.decimal e < i.high * i.binary e

theorem onGrid_eq (i : Interval) (e : Int) : ∃ nearer : Bool,
    i.onGrid e =
      let below := i.mid * i.binary e / i.decimal e
      if i.inside e below && (nearer || !i.inside e (below + 1)) then some below
      else if i.inside e (below + 1) then some (below + 1)
      else none := ⟨_, rfl⟩

-- Both sides divided by the powers that stand for negative exponents.
theorem compare_eq (i : Interval) (e : Int) (a c : Nat) : ∃ unit : ℚ, 0 < unit ∧
    ((a * i.binary e : Nat) : ℚ) = a * 2 ^ i.unit * unit ∧ ((c * i.decimal e : Nat) : ℚ) = c * 10 ^ e * unit := by
  refine ⟨2 ^ (-i.unit).toNat * 10 ^ (-e).toNat, by positivity, ?_, ?_⟩
  · rw [← pow_toNat_div, binary]
    simp only [Nat.pow_eq]
    push_cast
    field_simp
  · rw [← pow_toNat_div, decimal]
    simp only [Nat.pow_eq]
    push_cast
    field_simp

theorem le_grid (i : Interval) (e : Int) (a c : Nat) :
    a * i.binary e ≤ c * i.decimal e ↔ (a * 2 ^ i.unit : ℚ) ≤ c * 10 ^ e := by
  obtain ⟨unit, positive, left, right⟩ := i.compare_eq e a c
  rw [← mul_le_mul_iff_of_pos_right positive, ← left, ← right, Nat.cast_le]

theorem grid_le (i : Interval) (e : Int) (a c : Nat) :
    c * i.decimal e ≤ a * i.binary e ↔ (c * 10 ^ e : ℚ) ≤ a * 2 ^ i.unit := by
  obtain ⟨unit, positive, left, right⟩ := i.compare_eq e a c
  rw [← mul_le_mul_iff_of_pos_right positive, ← left, ← right, Nat.cast_le]

theorem inside_iff : i.inside e c = true ↔ i.Contains (c * 10 ^ e) := by
  unfold inside Contains
  split
  next => simp only [Bool.and_eq_true, decide_eq_true_eq, le_grid, grid_le]
  next => simp only [Bool.and_eq_true, decide_eq_true_eq, ← not_le, le_grid, grid_le]

theorem onGrid_contains (found : i.onGrid e = some c) : i.Contains (c * 10 ^ e) := by
  obtain ⟨nearer, choice⟩ := i.onGrid_eq e
  rw [choice] at found
  simp only at found
  split at found
  next chosen =>
    cases found
    exact inside_iff.mp (Bool.and_eq_true_iff.mp chosen).1
  next =>
    split at found <;> cases found
    next chosen => exact inside_iff.mp chosen

theorem floor_bounds (i : Interval) (e : Int) (a : Nat) :
    ((a * i.binary e / i.decimal e : Nat) * 10 ^ e : ℚ) ≤ a * 2 ^ i.unit ∧
      (a * 2 ^ i.unit : ℚ) < ((a * i.binary e / i.decimal e + 1 : Nat) : ℚ) * 10 ^ e := by
  have positive : 0 < i.decimal e := Nat.mul_pos (Nat.pow_pos (by decide)) (Nat.pow_pos (by decide))
  constructor
  · rw [← grid_le]
    exact Nat.div_mul_le_self _ _
  · rw [← not_le, ← grid_le, not_le]
    exact Nat.lt_mul_of_div_lt (Nat.lt_succ_self _) positive

theorem onGrid_isSome (middle : i.Contains (i.mid * 2 ^ i.unit)) (hit : i.Contains (n * 10 ^ e)) :
    (i.onGrid e).isSome = true := by
  obtain ⟨nearer, choice⟩ := i.onGrid_eq e
  obtain ⟨low, high⟩ := i.floor_bounds e i.mid
  rw [choice]
  simp only
  generalize i.mid * i.binary e / i.decimal e = below at low high ⊢
  have around : i.inside e below = true ∨ i.inside e (below + 1) = true := by
    rcases Nat.lt_or_ge below n with after | before
    · refine .inr (inside_iff.mpr (middle.between hit high.le ?_))
      gcongr
      exact after
    · refine .inl (inside_iff.mpr (hit.between middle ?_ low))
      gcongr
  rcases around with found | found
  · cases nearer <;> cases i.inside e (below + 1) <;> simp [found]
  · cases nearer <;> cases i.inside e below <;> simp [found]

theorem exists_on_grid (wide : (10 : ℚ) ^ e < (i.high - i.low) * 2 ^ i.unit) :
    ∃ n : Nat, i.Contains (n * 10 ^ e) := by
  obtain ⟨low, high⟩ := i.floor_bounds e i.low
  refine ⟨_, contains_of_lt high ?_⟩
  push_cast
  linarith

end Interval

section Digits

theorem pow_length_le {n : Nat} (some : 0 < n) : 10 ^ ((Nat.toDigits 10 n).length - 1) ≤ n := by
  rcases Nat.eq_zero_or_pos ((Nat.toDigits 10 n).length - 1) with single | more
  · rw [single]
    exact some
  · have longer := mt (Nat.length_toDigits_le_iff (b := 10) (n := n) (by decide) more).mpr
    have length := Nat.length_toDigits_pos (b := 10) (n := n)
    omega

-- Three binary digits are less than one decimal digit.
theorem two_pow_le {n k : Nat} (less : n ≤ 3 * k) : 2 ^ n ≤ 10 ^ k := calc
  2 ^ n ≤ 2 ^ (3 * k) := Nat.pow_le_pow_right two_pos less
  _ = (2 ^ 3) ^ k := Nat.pow_mul 2 3 k
  _ ≤ 10 ^ k := Nat.pow_le_pow_left (by decide) k

theorem pow_length_scaled_le {mid k : Nat} {unit : ℤ} (some : 0 < mid) (least : -(3 * k) ≤ unit) :
    (10 : ℚ) ^ ((Nat.toDigits 10 (mid * 2 ^ unit.toNat * 10 ^ k / 2 ^ (-unit).toNat)).length - k - 1 : ℤ) ≤
      mid * 2 ^ unit := by
  have small : 2 ^ (-unit).toNat ≤ mid * 2 ^ unit.toNat * 10 ^ k :=
    (two_pow_le (by omega)).trans (Nat.le_mul_of_pos_left _ (by positivity))
  have length := pow_length_le (Nat.div_pos small (by positivity))
  have divided := Nat.cast_div_le (α := ℚ) (m := mid * 2 ^ unit.toNat * 10 ^ k) (n := 2 ^ (-unit).toNat)
  have digits := Nat.length_toDigits_pos (b := 10) (n := mid * 2 ^ unit.toNat * 10 ^ k / 2 ^ (-unit).toNat)
  generalize mid * 2 ^ unit.toNat * 10 ^ k / 2 ^ (-unit).toNat = scaled at *
  generalize (Nat.toDigits 10 scaled).length = n at *
  calc
    (10 : ℚ) ^ (n - k - 1 : ℤ) = 10 ^ (n - 1) / 10 ^ k := by
      rw [eq_div_iff (by positivity), ← zpow_natCast, ← zpow_natCast, ← zpow_add₀ (by norm_num)]
      congr 1
      omega
    _ ≤ scaled / 10 ^ k := by
      gcongr
      exact_mod_cast length
    _ ≤ mid * 2 ^ unit.toNat * 10 ^ k / 2 ^ (-unit).toNat / 10 ^ k := by
      gcongr
      exact_mod_cast divided
    _ = mid * 2 ^ unit := by
      rw [← pow_toNat_div]
      field_simp

end Digits

section Search

variable (d : Double)

theorem contains_mid (some : 0 < d.significand) :
    d.interval.Contains (d.interval.mid * 2 ^ d.interval.unit) := by
  have low : d.interval.low < d.interval.mid := d.low_lt some
  have high : d.interval.mid < d.interval.high := Nat.lt_add_of_pos_right (by decide)
  apply Interval.contains_of_lt <;> gcongr

theorem pow_pointAfter_le (some : 0 < d.significand) :
    (10 : ℚ) ^ (d.interval.pointAfter - 1) ≤ d.interval.mid * 2 ^ d.interval.unit := by
  have least : -(3 * 400 : ℤ) ≤ d.interval.unit := by
    have unit : d.interval.unit = d.exponent - 2 := rfl
    have := d.exponent_ge
    omega
  exact pow_length_scaled_le (Nat.mul_pos (by decide) some) least

theorem pow_lt_width (some : 0 < d.significand) :
    (10 : ℚ) ^ (d.interval.pointAfter - 17) < (d.interval.high - d.interval.low) * 2 ^ d.interval.unit := by
  have point := d.pow_pointAfter_le some
  have width : d.interval.mid + 10 ^ 16 * d.interval.low < 10 ^ 16 * d.interval.high := by
    have mid : d.interval.mid = 4 * d.significand := rfl
    have high : d.interval.high = 4 * d.significand + 2 := rfl
    have most := d.significand_lt
    rw [mid, high]
    by_cases uneven : d.Uneven
    next =>
      rw [d.low_interval.1 uneven, uneven.1]
      decide
    next =>
      rw [d.low_interval.2 uneven]
      simp only [hiddenBit] at most
      omega
  have width' : (d.interval.mid : ℚ) < (d.interval.high - d.interval.low) * 10 ^ 16 := by
    have cast : (d.interval.mid + 10 ^ 16 * d.interval.low : ℚ) < 10 ^ 16 * d.interval.high := by
      exact_mod_cast width
    linarith
  calc
    (10 : ℚ) ^ (d.interval.pointAfter - 17) = 10 ^ (d.interval.pointAfter - 1) / 10 ^ 16 := by
      rw [eq_div_iff (by positivity), ← zpow_natCast, ← zpow_add₀ (by norm_num)]
      congr 1
      push_cast
      ring
    _ ≤ d.interval.mid * 2 ^ d.interval.unit / 10 ^ 16 := by gcongr
    _ < (d.interval.high - d.interval.low) * 10 ^ 16 * 2 ^ d.interval.unit / 10 ^ 16 := by gcongr
    _ = (d.interval.high - d.interval.low) * 2 ^ d.interval.unit := by field_simp

def attempt (n : Nat) : Option Decimal :=
  (d.interval.onGrid (d.interval.pointAfter - (n + 1))).map
    (Decimal.ofScaled · (d.interval.pointAfter - (n + 1)))

theorem shortest_eq : d.shortest = ((List.range 17).findSome? d.attempt).getD ⟨[], 0⟩ := rfl

theorem exists_shortest (some : 0 < d.significand) :
    ∃ c e, d.shortest = Decimal.ofScaled c e ∧ d.interval.Contains (c * 10 ^ e) := by
  obtain ⟨n, hit⟩ := Interval.exists_on_grid (d.pow_lt_width some)
  have last := Interval.onGrid_isSome (d.contains_mid some) hit
  rw [shortest_eq]
  cases found : (List.range 17).findSome? d.attempt with
  | none =>
      have missed := List.findSome?_eq_none_iff.mp found 16 (List.mem_range.mpr (by decide))
      rw [attempt, Option.map_eq_none_iff] at missed
      rw [← Option.not_isSome_iff_eq_none] at missed
      exact absurd last missed
  | some decimal =>
      obtain ⟨n, -, hit⟩ := List.exists_of_findSome?_eq_some found
      obtain ⟨c, grid, rfl⟩ := Option.map_eq_some_iff.mp hit
      exact ⟨c, _, rfl, Interval.onGrid_contains grid⟩

end Search

end LispMachine.Double
