import Mathlib.Algebra.Order.Field.Power
import NativePeer.Proofs.Number.Binary
import NativePeer.Proofs.Number.Numeral

/-
This file shows that a decimal is read as the magnitude that it rounds to.
-/

namespace NativePeer.Number

/-- A power of ten is a whole number above the line or below it. -/
theorem ten_zpow (exponent : Int) :
    (10 : ℚ) ^ exponent = 10 ^ exponent.toNat / 10 ^ (-exponent).toNat := by
  cases exponent with
  | ofNat exponent => simp
  | negSucc exponent =>
    rw [zpow_negSucc, Int.neg_negSucc, Int.toNat_negSucc, Int.toNat_natCast, pow_zero, one_div]

namespace BinaryFormat

/-- The range of a format lies within its decimal reach. -/
structure IsOrdinary (format : BinaryFormat) : Prop where
  filled : 0 < format.fractionBits
  ranged : 0 < format.exponentBits
  deep : format.depth < 2 ^ format.exponentBits

theorem single_isOrdinary : single.IsOrdinary := ⟨by decide, by decide, by decide⟩

theorem double_isOrdinary : double.IsOrdinary := ⟨by decide, by decide, by decide⟩

variable {format : BinaryFormat}

/-- A number of less than half a unit rounds to zero. -/
theorem covers_zero {units : ℚ} (nonnegative : 0 ≤ units) (small : 2 * units ≤ 1) :
    format.Covers 0 units := by
  have one : format.units 1 = 1 := by
    have bounded : 1 ≤ 2 * 2 ^ format.fractionBits := Nat.mul_pos Nat.two_pos (Nat.two_pow_pos _)
    simpa using format.units_at_scale (.inl rfl) bounded
  refine ⟨?_, ?_, fun odd => absurd odd (by decide)⟩
  · simpa [units_zero] using nonnegative
  · simpa [units_zero, one] using small

theorem units_infinity (ranged : 0 < format.exponentBits) :
    format.units format.infinity = 2 ^ (format.fractionBits + (2 ^ format.exponentBits - 2)) := by
  have exponents : 2 ≤ 2 ^ format.exponentBits := Nat.pow_le_pow_right Nat.two_pos ranged
  have split : format.infinity =
      (2 ^ format.exponentBits - 2) * 2 ^ format.fractionBits + 2 ^ format.fractionBits := by
    rw [infinity, Nat.pow_eq, Nat.pow_eq, ← Nat.succ_mul]
    congr 1
    omega
  rw [split, units_at_scale format (.inr le_rfl) (Nat.le_mul_of_pos_left _ (by decide)),
    ← Nat.pow_add]

/-- What reaches beyond the largest finite magnitude rounds to none. -/
theorem Covers.lt_of_finite {magnitude : Nat} {units : ℚ} (covers : format.Covers magnitude units)
    (finite : magnitude < format.infinity) : units < format.units format.infinity := by
  have here : (format.units magnitude : ℚ) < format.units format.infinity :=
    mod_cast format.units_strictMono finite
  have next : (format.units (magnitude + 1) : ℚ) ≤ format.units format.infinity :=
    mod_cast format.units_strictMono.monotone (Nat.succ_le_of_lt finite)
  have := covers.upper
  linarith

variable {significand : Nat} {exponent : Int}

/-- The order of a decimal bounds it from above. -/
theorem decimal_lt (significand : Nat) (exponent : Int) :
    (significand : ℚ) * 10 ^ exponent <
      10 ^ ((Nat.toDigits 10 significand).length + exponent) := by
  rw [zpow_add₀ (by norm_num), zpow_natCast]
  exact mul_lt_mul_of_pos_right (mod_cast lt_pow_length_toDigits significand) (by positivity)

/-- The order of a decimal bounds it from below. -/
theorem le_decimal (filled : significand ≠ 0) :
    (10 : ℚ) ^ ((Nat.toDigits 10 significand).length + exponent - 1) ≤
      significand * 10 ^ exponent := by
  have order : (Nat.toDigits 10 significand).length + exponent - 1 =
      ((Nat.toDigits 10 significand).length - 1 : Nat) + exponent := by
    have := List.length_pos_of_ne_nil (Nat.toDigits_ne_nil (n := significand) (b := 10))
    omega
  rw [order, zpow_add₀ (by norm_num), zpow_natCast]
  exact mul_le_mul_of_nonneg_right (mod_cast pow_pred_length_toDigits_le filled) (by positivity)

theorem two_pow_le_ten_pow (exponent : Nat) : (2 : ℚ) ^ exponent ≤ 10 ^ exponent :=
  pow_le_pow_left₀ (by norm_num) (by norm_num) exponent

/-- Below the reach of a format a decimal is less than half a unit. -/
theorem decimal_small (ordinary : format.IsOrdinary)
    (below : (Nat.toDigits 10 significand).length + exponent < -format.reach) :
    2 * ((significand : ℚ) * 10 ^ exponent * 2 ^ format.depth) ≤ 1 := by
  have bounded : (significand : ℚ) * 10 ^ exponent ≤ (10 ^ 2 ^ format.exponentBits)⁻¹ := by
    refine (decimal_lt significand exponent).le.trans ?_
    rw [← zpow_natCast, ← zpow_neg]
    exact zpow_le_zpow_right₀ (by norm_num) below.le
  calc 2 * ((significand : ℚ) * 10 ^ exponent * 2 ^ format.depth)
      = significand * 10 ^ exponent * 2 ^ (format.depth + 1) := by ring
    _ ≤ (10 ^ 2 ^ format.exponentBits)⁻¹ * 10 ^ 2 ^ format.exponentBits := by
      refine mul_le_mul bounded ?_ (by positivity) (by positivity)
      exact (two_pow_le_ten_pow _).trans (pow_le_pow_right₀ (by norm_num) ordinary.deep)
    _ = 1 := inv_mul_cancel₀ (by positivity)

/-- Above the reach of a format a decimal is no less than infinity. -/
theorem decimal_large (ordinary : format.IsOrdinary) (filled : significand ≠ 0)
    (above : format.reach < (Nat.toDigits 10 significand).length + exponent) :
    (format.units format.infinity : ℚ) ≤ significand * 10 ^ exponent * 2 ^ format.depth := by
  have bounded : (10 : ℚ) ^ 2 ^ format.exponentBits ≤ significand * 10 ^ exponent := by
    refine le_trans ?_ (le_decimal filled)
    rw [← zpow_natCast]
    exact zpow_le_zpow_right₀ (by norm_num) (Int.le_sub_one_of_lt above)
  have fraction : format.fractionBits ≤ format.depth := Nat.le_add_left _ _
  calc (format.units format.infinity : ℚ)
      = 2 ^ (format.fractionBits + (2 ^ format.exponentBits - 2)) := by
        rw [units_infinity ordinary.ranged]
        norm_cast
    _ ≤ 2 ^ (2 ^ format.exponentBits + format.depth) :=
        pow_le_pow_right₀ (by norm_num)
          (Nat.add_comm _ _ ▸ Nat.add_le_add (Nat.sub_le _ _) fraction)
    _ = 2 ^ 2 ^ format.exponentBits * 2 ^ format.depth := pow_add _ _ _
    _ ≤ significand * 10 ^ exponent * 2 ^ format.depth :=
        mul_le_mul_of_nonneg_right ((two_pow_le_ten_pow _).trans bounded) (by positivity)

/-- A decimal is read as the finite magnitude that it rounds to. -/
theorem ofDecimal_eq_iff (ordinary : format.IsOrdinary) {magnitude : Nat}
    (finite : magnitude < format.infinity) :
    format.ofDecimal significand exponent = magnitude ↔
      format.RoundsTo (significand * 10 ^ exponent) magnitude := by
  have nonnegative : (0 : ℚ) ≤ significand * 10 ^ exponent := by positivity
  rw [roundsTo_iff_covers nonnegative, ofDecimal]
  split
  · next small =>
    have zero : format.Covers 0 (significand * 10 ^ exponent * 2 ^ format.depth) := by
      refine covers_zero (by positivity) ?_
      rcases small with rfl | below
      · simp
      · exact decimal_small ordinary below
    exact ⟨fun same => same ▸ zero, fun covers => zero.unique covers⟩
  · next inside =>
    split
    · next large =>
      have beyond := decimal_large ordinary (not_or.mp inside).1 large
      exact ⟨fun same => absurd finite (same ▸ lt_irrefl _),
        fun covers => absurd (covers.lt_of_finite finite) beyond.not_gt⟩
    · have divided : 0 < Nat.pow 10 (-exponent).toNat := Nat.pow_pos (by decide)
      rw [nearest_eq_iff ordinary.filled divided finite, ten_zpow]
      simp only [Nat.pow_eq]
      push_cast
      rw [← mul_div_assoc, div_mul_eq_mul_div]

end BinaryFormat

end NativePeer.Number
