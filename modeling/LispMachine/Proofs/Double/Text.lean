import Mathlib.Data.Nat.Cast.Field
import LispMachine.Proofs.Double.Shortest
import LispMachine.Proofs.Printing.Literals

set_option autoImplicit false

namespace LispMachine

open Lexer

namespace Lexer

theorem decimalValue_eq_ofDigitChars (digits : List Char) :
    decimalValue digits = Nat.ofDigitChars 10 digits 0 := Nat.ofDigitChars_eq_foldl.symm

theorem decimalValue_append (a b : List Char) :
    decimalValue (a ++ b) = 10 ^ b.length * decimalValue a + decimalValue b := by
  simp only [decimalValue_eq_ofDigitChars]
  rw [Nat.ofDigitChars_append, Nat.ofDigitChars_eq_ofDigitChars_zero]

theorem decimalValue_zeros (n : Nat) : decimalValue (List.replicate n '0') = 0 := by
  rw [decimalValue_eq_ofDigitChars, Nat.ofDigitChars_replicate_zero, Nat.mul_zero]

end Lexer

namespace Double

def Spells (x : ℚ) (cs : List Char) : Prop :=
  ∃ whole places, isDigits whole = true ∧ isDigits places = true ∧ cs = whole ++ '.' :: places ∧
    (decimalValue (whole ++ places) : ℚ) / 10 ^ places.length = x

namespace Decimal

variable (d : Decimal)

def value : ℚ := decimalValue d.digits * 10 ^ (d.point - d.digits.length)

theorem exists_zeros (digits : List Char) : ∃ n, stripZeros digits ++ List.replicate n '0' = digits := by
  have split := List.takeWhile_append_dropWhile (p := fun c => decide (c = '0')) (l := digits.reverse)
  have zeros : ∀ c ∈ digits.reverse.takeWhile (fun c => decide (c = '0')), c = '0' := fun c member =>
    of_decide_eq_true (List.all_eq_true.mp List.all_takeWhile c member)
  refine ⟨(digits.reverse.takeWhile fun c => decide (c = '0')).length, ?_⟩
  rw [stripZeros, ← List.reverse_replicate, ← List.reverse_append, ← List.eq_replicate_of_mem zeros, split,
    List.reverse_reverse]

theorem isDigit_zeros (n : Nat) : ∀ c ∈ List.replicate n '0', c.isDigit = true := by
  intro c member
  rw [List.eq_of_mem_replicate member]
  rfl

theorem value_ofScaled (c : Nat) (e : Int) : (ofScaled c e).value = c * 10 ^ e := by
  obtain ⟨n, digits⟩ := exists_zeros (Nat.toDigits 10 c)
  have length := congrArg List.length digits
  have whole := congrArg decimalValue digits
  rw [List.length_append, List.length_replicate] at length
  rw [decimalValue_append, decimalValue_zeros, List.length_replicate, decimalValue_toDigits] at whole
  have point : ((Nat.toDigits 10 c).length : ℤ) + e - (stripZeros (Nat.toDigits 10 c)).length = n + e := by omega
  have scaled : (c : ℚ) = 10 ^ n * decimalValue (stripZeros (Nat.toDigits 10 c)) := by
    exact_mod_cast whole.symm
  simp only [value, ofScaled]
  rw [point, zpow_add₀ (by norm_num), zpow_natCast, scaled]
  ring

theorem digits_ofScaled (c : Nat) (e : Int) : ∀ digit ∈ (ofScaled c e).digits, digit.isDigit = true := by
  obtain ⟨n, digits⟩ := exists_zeros (Nat.toDigits 10 c)
  intro digit member
  have listed : digit ∈ Nat.toDigits 10 c := by
    rw [← digits]
    exact List.mem_append_left _ member
  exact Nat.isDigit_of_mem_toDigits (by decide) (by decide) listed

section Places

variable {d : Decimal} (proper : isDigits d.digits = true)
include proper

theorem spells_behind (small : d.point ≤ 0) :
    Spells d.value ('0' :: '.' :: (List.replicate (-d.point).toNat '0' ++ d.digits)) := by
  obtain ⟨some, numeric⟩ := isDigits_iff.mp proper
  have padded : decimalValue (['0'] ++ (List.replicate (-d.point).toNat '0' ++ d.digits)) =
      decimalValue d.digits := by
    rw [← List.append_assoc, decimalValue_append, ← List.replicate_one, List.replicate_append_replicate,
      decimalValue_zeros]
    omega
  have scale : d.point - d.digits.length = -((-d.point).toNat + d.digits.length : Nat) := by omega
  refine ⟨['0'], List.replicate (-d.point).toNat '0' ++ d.digits, rfl, ?_, rfl, ?_⟩
  · exact isDigits_iff.mpr ⟨by simp [some], List.forall_mem_append.mpr ⟨isDigit_zeros _, numeric⟩⟩
  · rw [padded, List.length_append, List.length_replicate, value, scale, zpow_neg, zpow_natCast, div_eq_mul_inv]

theorem spells_before (long : d.digits.length ≤ d.point.toNat) (above : 0 < d.point) : Spells d.value
    (d.digits ++ List.replicate (d.point.toNat - d.digits.length) '0' ++ ['.', '0']) := by
  obtain ⟨some, numeric⟩ := isDigits_iff.mp proper
  have scale : d.point - d.digits.length = (d.point.toNat - d.digits.length : Nat) := by omega
  have padded : decimalValue (d.digits ++ List.replicate (d.point.toNat - d.digits.length) '0' ++ ['0']) =
      10 ^ (d.point.toNat - d.digits.length) * decimalValue d.digits * 10 := by
    rw [decimalValue_append, decimalValue_append, decimalValue_zeros, List.length_replicate]
    show 10 ^ 1 * (10 ^ _ * _ + 0) + 0 = _
    ring
  refine ⟨d.digits ++ List.replicate (d.point.toNat - d.digits.length) '0', ['0'], ?_, rfl, rfl, ?_⟩
  · exact isDigits_iff.mpr ⟨by simp [some], List.forall_mem_append.mpr ⟨numeric, isDigit_zeros _⟩⟩
  · rw [padded, value, scale, zpow_natCast]
    show ((10 ^ _ * _ * 10 : Nat) : ℚ) / 10 ^ 1 = _
    push_cast
    ring

theorem spells_within (above : 0 < d.point) (short : d.point.toNat < d.digits.length) :
    Spells d.value (d.digits.take d.point.toNat ++ '.' :: d.digits.drop d.point.toNat) := by
  obtain ⟨some, numeric⟩ := isDigits_iff.mp proper
  have scale : d.point - d.digits.length = -(d.digits.length - d.point.toNat : Nat) := by omega
  refine ⟨d.digits.take d.point.toNat, d.digits.drop d.point.toNat, ?_, ?_, rfl, ?_⟩
  · refine isDigits_iff.mpr ⟨?_, fun c member => numeric c (List.mem_of_mem_take member)⟩
    exact mt (congrArg List.length) (by rw [List.length_take, List.length_nil]; omega)
  · refine isDigits_iff.mpr ⟨?_, fun c member => numeric c (List.mem_of_mem_drop member)⟩
    exact mt (congrArg List.length) (by rw [List.length_drop, List.length_nil]; omega)
  · rw [List.take_append_drop, List.length_drop, value, scale, zpow_neg, zpow_natCast, div_eq_mul_inv]

theorem spells_positional : Spells d.value d.positional := by
  unfold positional
  split
  next small => exact spells_behind proper small
  next above =>
    split
    next long => exact spells_before proper long (by omega)
    next short => exact spells_within proper (by omega) (by omega)

end Places

end Decimal

section Reading

variable {d : Double} {x : ℚ} {cs : List Char}

theorem pos_of_contains (some : 0 < d.significand) (inside : d.interval.Contains x) : 0 < x := by
  have low : 0 < d.interval.low := by
    have near := d.le_low
    omega
  refine lt_of_lt_of_le ?_ inside.weak.1
  positivity

theorem toList_signed (d : Double) (cs : List Char) :
    (d.signed (String.ofList cs)).toList = Lexer.signed d.isNegative cs := by
  unfold signed Lexer.signed
  split <;> simp

theorem readsBack_of_spells (finite : d.isFinite = true) (some : 0 < d.significand)
    (printed : d.text = d.signed (String.ofList cs)) (spelled : Spells x cs) (inside : d.interval.Contains x) :
    d.ReadsBack := by
  have positive := pos_of_contains some inside
  obtain ⟨whole, places, digits, fraction, rfl, rfl⟩ := spelled
  refine ⟨d.isNegative, whole, places, digits, fraction, ?_, ?_⟩
  · rw [printed, toList_signed]
  · have nonzero : decimalValue (whole ++ places) ≠ 0 := by
      intro zero
      simp [zero] at positive
    refine ofRatio_of_contains finite (Nat.pos_of_ne_zero nonzero) (Nat.pow_pos (by decide)) ?_
    rw [Nat.pow_eq, Nat.cast_pow]
    exact inside

theorem spells_integer (n : Nat) : Spells n (Nat.toDigits 10 n ++ ['.', '0']) := by
  have value : decimalValue (Nat.toDigits 10 n ++ ['0']) = n * 10 := by
    rw [decimalValue_append, decimalValue_toDigits]
    exact Nat.mul_comm _ _
  refine ⟨Nat.toDigits 10 n, ['0'], ?_, rfl, rfl, ?_⟩
  · refine isDigits_iff.mpr ⟨Nat.toDigits_ne_nil, fun c member => ?_⟩
    exact Nat.isDigit_of_mem_toDigits (by decide) (by decide) member
  · rw [value]
    show ((n * 10 : Nat) : ℚ) / 10 ^ 1 = n
    push_cast
    ring

theorem whole_eq (integral : d.isIntegral = true) : (d.whole : ℚ) = d.interval.mid * 2 ^ d.interval.unit := by
  have divides : 2 ^ (-d.exponent).toNat ∣ d.significand * 2 ^ d.exponent.toNat :=
    Dvd.dvd.mul_right (Nat.dvd_of_mod_eq_zero (of_decide_eq_true (Bool.and_eq_true_iff.mp integral).2)) _
  have mid : (d.interval.mid : ℚ) = 4 * d.significand := by
    exact_mod_cast (rfl : d.interval.mid = 4 * d.significand)
  rw [whole, Nat.pow_eq, Nat.pow_eq, Nat.cast_div divides (by positivity), mid, two_zpow_unit, ← pow_toNat_div]
  push_cast
  ring

theorem ofRatio_zero (none : d.significand = 0) (den : Nat) : ofRatio d.isNegative 0 den = d := by
  have subnormal : ¬ -1074 < d.exponent := by
    intro normal
    have most := d.hiddenBit_le normal
    rw [none] at most
    exact absurd most (by decide)
  have place : (d.exponent + 1074).toNat = 0 := by omega
  have bits := d.bits_eq
  rw [place, none, Nat.zero_mul, Nat.add_zero] at bits
  simp only [ofRatio, if_true, bits, UInt64.ofNat_toNat]

theorem readsBack_of_isIntegral (integral : d.isIntegral = true) : d.ReadsBack := by
  have finite : d.isFinite = true := (Bool.and_eq_true_iff.mp integral).1
  have spelled : toString d.whole ++ ".0" = String.ofList (Nat.toDigits 10 d.whole ++ ['.', '0']) := by
    rw [String.ofList_append, ← Nat.repr_eq_ofList_toDigits]
    rfl
  have printed : d.text = d.signed (String.ofList (Nat.toDigits 10 d.whole ++ ['.', '0'])) := by
    simp [text, finite, integral, ← spelled]
  by_cases none : d.significand = 0
  next =>
    refine ⟨d.isNegative, ['0'], ['0'], rfl, rfl, ?_, ofRatio_zero none _⟩
    have zero : d.whole = 0 := by
      rw [whole, none, Nat.zero_mul, Nat.zero_div]
    rw [printed, toList_signed, zero]
    rfl
  next =>
    have some := Nat.pos_of_ne_zero none
    refine readsBack_of_spells finite some printed (spells_integer d.whole) ?_
    rw [whole_eq integral]
    exact d.contains_mid some

theorem readsBack_of_isFinite (finite : d.isFinite = true) : d.ReadsBack := by
  by_cases integral : d.isIntegral = true
  next => exact readsBack_of_isIntegral integral
  next =>
    have some : 0 < d.significand := by
      refine Nat.pos_of_ne_zero fun none => integral ?_
      rw [isIntegral, finite, none, Nat.zero_mod]
      rfl
    obtain ⟨c, e, digits, inside⟩ := d.exists_shortest some
    have printed : d.text = d.signed (String.ofList d.shortest.positional) := by
      simp [text, finite, integral]
    rw [digits] at printed
    have positive := pos_of_contains some inside
    have proper : isDigits (Decimal.ofScaled c e).digits = true := by
      refine isDigits_iff.mpr ⟨fun none => ?_, Decimal.digits_ofScaled c e⟩
      have zero : (Decimal.ofScaled c e).value = 0 := by
        rw [Decimal.value, none]
        simp [decimalValue]
      rw [Decimal.value_ofScaled] at zero
      exact positive.ne' zero
    have spelled := Decimal.spells_positional proper
    rw [Decimal.value_ofScaled] at spelled
    exact readsBack_of_spells finite some printed spelled inside

end Reading

end Double

end LispMachine
