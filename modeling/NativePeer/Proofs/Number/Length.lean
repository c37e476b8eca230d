import Mathlib.Algebra.Order.Field.Power
import Mathlib.Algebra.Order.Field.Rat
import Mathlib.Tactic.Linarith
import Mathlib.Tactic.Positivity
import Mathlib.Tactic.Ring

/-
This file says which decimals have a number of digits and where they lie around a value.
-/

namespace NativePeer.Number

/-- A significand of `count` digits, the first of which is not zero, makes the number up. -/
structure Writes (count significand : Nat) (exponent : Int) (number : ℚ) : Prop where
  lower : 10 ^ (count - 1) ≤ significand
  upper : significand < 10 ^ count
  value : number = significand * 10 ^ exponent

/-- A number may have more digits than it needs, for zeros may stand at the end. -/
def HasLength (count : Nat) (number : ℚ) : Prop :=
  ∃ significand exponent, Writes count significand exponent number

theorem not_hasLength_zero (number : ℚ) : ¬ HasLength 0 number := by
  rintro ⟨significand, exponent, lower, upper, _⟩
  omega

section Writes

variable {count significand : Nat} {exponent : Int} {number : ℚ}
  (writes : Writes count significand exponent number)

include writes

theorem Writes.pos : 0 < number := by
  have : 0 < significand := Nat.lt_of_lt_of_le (Nat.pow_pos (by decide)) writes.lower
  rw [writes.value]
  positivity

theorem Writes.count_pos : 0 < count := by
  refine Nat.pos_of_ne_zero fun zero => not_hasLength_zero number ?_
  exact ⟨significand, exponent, zero ▸ writes⟩

theorem Writes.lt_ten_zpow : number < 10 ^ (count + exponent) := by
  rw [writes.value, zpow_add₀ (by norm_num), zpow_natCast]
  exact mul_lt_mul_of_pos_right (mod_cast writes.upper) (by positivity)

theorem Writes.ten_zpow_le : (10 : ℚ) ^ (count + exponent - 1) ≤ number := by
  have order : (count : Int) + exponent - 1 = (count - 1 : Nat) + exponent := by
    have := writes.count_pos
    omega
  rw [writes.value, order, zpow_add₀ (by norm_num), zpow_natCast]
  exact mul_le_mul_of_nonneg_right (mod_cast writes.lower) (by positivity)

/-- The power of ten at which a number begins fixes the exponent of its last digit. -/
theorem Writes.exponent_eq {order : Int} (lower : 10 ^ order ≤ number)
    (upper : number < 10 ^ (order + 1)) : exponent = order + 1 - count := by
  have above := lt_of_le_of_lt lower writes.lt_ten_zpow
  have below := lt_of_le_of_lt writes.ten_zpow_le upper
  rw [zpow_lt_zpow_iff_right₀ (by norm_num)] at above below
  omega

/-- A zero may be added at the end. -/
theorem Writes.append_zero :
    Writes (count + 1) (10 * significand) (exponent - 1) number := by
  have power : 10 ^ count = 10 ^ (count - 1) * 10 := by
    rw [← Nat.pow_succ, Nat.succ_eq_add_one, Nat.sub_add_cancel writes.count_pos]
  have lower := writes.lower
  have upper := writes.upper
  refine ⟨by rw [Nat.add_sub_cancel, power]; omega, by rw [Nat.pow_succ]; omega, ?_⟩
  rw [writes.value, zpow_sub_one₀ (by norm_num)]
  push_cast
  ring

/-- Digits are unique once their number is fixed. -/
theorem Writes.unique {other : Nat} {otherExponent : Int}
    (rest : Writes count other otherExponent number) :
    significand = other ∧ exponent = otherExponent := by
  have same : exponent = otherExponent := by
    have := writes.exponent_eq rest.ten_zpow_le (by rw [sub_add_cancel]; exact rest.lt_ten_zpow)
    omega
  have values := writes.value.symm.trans rest.value
  rw [same, mul_left_inj' (by positivity), Nat.cast_inj] at values
  exact ⟨values, same⟩

end Writes

section Grid

variable {length count : Nat} (places : Nat)

/-- A multiple of a power of ten among the numbers of `length` digits has few digits. -/
theorem writes_multiple (shorter : count ≤ length) (filled : 0 < count) {point : Nat}
    (divides : 10 ^ (length - count) ∣ point) (lower : 10 ^ (length - 1) ≤ point)
    (upper : point < 10 ^ length) :
    Writes count (point / 10 ^ (length - count)) (length - count - places)
      (point / 10 ^ places) := by
  have positive : 0 < 10 ^ (length - count) := Nat.pow_pos (by decide)
  refine ⟨?_, ?_, ?_⟩
  · rw [Nat.le_div_iff_mul_le positive, ← Nat.pow_add]
    exact (Nat.pow_le_pow_right (by decide) (by omega)).trans lower
  · rw [Nat.div_lt_iff_lt_mul positive, ← Nat.pow_add]
    exact upper.trans_le (Nat.pow_le_pow_right (by decide) (by omega))
  · obtain ⟨quotient, rfl⟩ := divides
    rw [Nat.mul_div_cancel_left _ positive, ← Nat.cast_sub shorter, zpow_sub₀ (by norm_num),
      zpow_natCast, zpow_natCast]
    push_cast
    ring

theorem writes_ten_pow (shorter : count ≤ length) (filled : 0 < count) :
    Writes count (10 ^ (count - 1)) (length + 1 - count - places)
      ((10 ^ length : Nat) / 10 ^ places) := by
  refine ⟨le_rfl, Nat.pow_lt_pow_right (by decide) (Nat.sub_lt filled Nat.one_pos), ?_⟩
  have order : (length : Int) + 1 - count - places =
      (length : Int) - (count - 1 : Nat) - places := by
    omega
  have split : (10 : ℚ) ^ length = 10 ^ (count - 1) * 10 ^ (length - (count - 1)) := by
    rw [← pow_add, Nat.add_sub_cancel' (by omega)]
  rw [order, ← Nat.cast_sub (by omega), zpow_sub₀ (by norm_num), zpow_natCast, zpow_natCast]
  push_cast
  rw [split, mul_div_assoc]

/-- A number of few digits that is no less than the power of ten below is such a multiple. -/
theorem Writes.exists_multiple {significand : Nat} {exponent : Int} {number : ℚ}
    (writes : Writes count significand exponent number) (shorter : count ≤ length)
    (large : (10 ^ (length - 1) : Nat) / 10 ^ places ≤ number) :
    ∃ point : Nat, 10 ^ (length - count) ∣ point ∧ number = point / 10 ^ places := by
  have filled := writes.count_pos
  have order : (length : Int) - count ≤ exponent + places := by
    have begun : ((10 ^ (length - 1) : Nat) : ℚ) / 10 ^ places =
        10 ^ ((length : Int) - 1 - places) := by
      rw [zpow_sub₀ (by norm_num), ← Nat.cast_pred (by omega), zpow_natCast, zpow_natCast]
      push_cast
      rfl
    rw [begun] at large
    have := large.trans_lt writes.lt_ten_zpow
    rw [zpow_lt_zpow_iff_right₀ (by norm_num)] at this
    omega
  have whole : exponent = (exponent + places).toNat - (places : Int) := by omega
  refine ⟨significand * 10 ^ (exponent + places).toNat,
    (pow_dvd_pow 10 (by omega)).trans (Nat.dvd_mul_left _ _), ?_⟩
  rw [writes.value]
  conv_lhs => rw [whole, zpow_sub₀ (by norm_num), zpow_natCast, zpow_natCast]
  push_cast
  ring

end Grid

end NativePeer.Number
