import Mathlib.Algebra.Order.Field.Rat
import Mathlib.Order.Monotone.Basic
import Mathlib.Tactic.FieldSimp
import Mathlib.Tactic.Linarith
import Mathlib.Tactic.Positivity
import Mathlib.Tactic.Ring
import NativePeer.Number.Binary

/-
This file shows that the nearest magnitude of a binary format is the one that a number rounds to.
-/

namespace NativePeer.Number.BinaryFormat

variable (format : BinaryFormat)

/-- Significands up to the next power of two may stand at one scale. -/
theorem units_at_scale {scale significand : Nat}
    (normal : scale = 0 ∨ 2 ^ format.fractionBits ≤ significand)
    (bounded : significand ≤ 2 * 2 ^ format.fractionBits) :
    format.units (scale * 2 ^ format.fractionBits + significand) = significand * 2 ^ scale := by
  have positive : 0 < 2 ^ format.fractionBits := Nat.two_pow_pos _
  simp only [units, BinaryFormat.significand, BinaryFormat.scale, Nat.pow_eq]
  generalize 2 ^ format.fractionBits = width at *
  rcases Nat.lt_or_ge significand width with small | large
  · have flat : scale = 0 := normal.resolve_right (Nat.not_le.mpr small)
    simp [flat, small, Nat.div_eq_of_lt small]
  · obtain ⟨extra, rfl⟩ := Nat.exists_eq_add_of_le large
    have split : scale * width + (width + extra) = extra + width * (scale + 1) := by ring
    have normal : ¬ extra + width * (scale + 1) < width := by
      have := Nat.le_mul_of_pos_right width (Nat.succ_pos scale)
      omega
    rw [split, if_neg normal, Nat.add_mul_mod_self_left, Nat.add_mul_div_left _ _ positive]
    rcases Nat.lt_or_ge extra width with inside | carried
    · rw [Nat.mod_eq_of_lt inside, Nat.div_eq_of_lt inside, Nat.zero_add, Nat.add_sub_cancel]
    · have full : extra = width := by omega
      rw [full, Nat.mod_self, Nat.div_self positive, Nat.add_zero, Nat.add_comm 1,
        Nat.add_sub_cancel, Nat.pow_succ]
      ring

/-- The scale of a magnitude and its significand make the magnitude up. -/
theorem scale_mul_add_significand (magnitude : Nat) :
    format.scale magnitude * 2 ^ format.fractionBits + format.significand magnitude =
      magnitude := by
  have positive : 0 < 2 ^ format.fractionBits := Nat.two_pow_pos _
  simp only [BinaryFormat.significand, BinaryFormat.scale, Nat.pow_eq]
  generalize 2 ^ format.fractionBits = width at *
  split
  · next small => rw [Nat.div_eq_of_lt small, Nat.zero_sub, Nat.zero_mul, Nat.zero_add]
  · next large =>
    have leading : 0 < magnitude / width := Nat.div_pos (Nat.not_lt.mp large) positive
    calc (magnitude / width - 1) * width + (width + magnitude % width)
        = (magnitude / width - 1 + 1) * width + magnitude % width := by ring
      _ = width * (magnitude / width) + magnitude % width := by
        rw [Nat.sub_add_cancel leading, Nat.mul_comm]
      _ = magnitude := Nat.div_add_mod _ _

theorem significand_lt (magnitude : Nat) :
    format.significand magnitude < 2 * 2 ^ format.fractionBits := by
  have rest : magnitude % 2 ^ format.fractionBits < 2 ^ format.fractionBits :=
    Nat.mod_lt _ (Nat.two_pow_pos _)
  simp only [BinaryFormat.significand, Nat.pow_eq]
  split <;> omega

/-- Only at the least scale a significand has no hidden bit. -/
theorem scale_eq_zero_or_le_significand (magnitude : Nat) :
    format.scale magnitude = 0 ∨ 2 ^ format.fractionBits ≤ format.significand magnitude := by
  simp only [BinaryFormat.significand, BinaryFormat.scale, Nat.pow_eq]
  split
  · next small => exact .inl (by rw [Nat.div_eq_of_lt small])
  · exact .inr (Nat.le_add_right _ _)

/-- The next magnitude lies one spacing further. -/
theorem units_succ (magnitude : Nat) :
    format.units (magnitude + 1) = format.units magnitude + 2 ^ format.scale magnitude := by
  have normal : format.scale magnitude = 0 ∨
      2 ^ format.fractionBits ≤ format.significand magnitude + 1 :=
    (format.scale_eq_zero_or_le_significand magnitude).imp_right Nat.le_succ_of_le
  have next := format.units_at_scale normal (format.significand_lt magnitude)
  rw [← Nat.add_assoc, scale_mul_add_significand] at next
  rw [next, units, Nat.pow_eq, Nat.succ_mul]

theorem units_strictMono : StrictMono format.units := by
  refine strictMono_nat_of_lt_succ fun magnitude => ?_
  rw [units_succ]
  exact Nat.lt_add_of_pos_right (Nat.two_pow_pos _)

/-- A magnitude is even where its significand is. -/
theorem mod_two_at_scale (filled : 0 < format.fractionBits) (scale significand : Nat) :
    (scale * 2 ^ format.fractionBits + significand) % 2 = significand % 2 := by
  have even : 2 ^ format.fractionBits % 2 = 0 := by
    rw [← Nat.succ_pred_eq_of_pos filled, Nat.pow_succ, Nat.mul_mod_left]
  rw [Nat.add_mod, Nat.mul_mod, even, Nat.mul_zero, Nat.zero_mod, Nat.zero_add, Nat.mod_mod]

theorem units_zero : format.units 0 = 0 := by
  simpa using format.units_at_scale (.inl rfl) (Nat.zero_le (2 * 2 ^ format.fractionBits))

/-- The value of a magnitude. Beyond infinity the values go on as if there were more exponents. -/
def value (magnitude : Nat) : ℚ :=
  format.units magnitude / 2 ^ format.depth

/-- No magnitude has a value nearer to the number, and the tie of two goes to the even one. -/
def RoundsTo (number : ℚ) (magnitude : Nat) : Prop :=
  ∀ other, |number - format.value magnitude| ≤ |number - format.value other| ∧
    (|number - format.value magnitude| = |number - format.value other| →
      other = magnitude ∨ magnitude % 2 = 0)

theorem value_zero : format.value 0 = 0 := by
  rw [value, units_zero, Nat.cast_zero, zero_div]

theorem value_injective : Function.Injective format.value := by
  intro first second same
  have positive : (2 : ℚ) ^ format.depth ≠ 0 := by positivity
  rw [value, value, div_left_inj' positive, Nat.cast_inj] at same
  exact format.units_strictMono.injective same

/-- A value rounds to its own magnitude. -/
theorem roundsTo_value (magnitude : Nat) :
    format.RoundsTo (format.value magnitude) magnitude := by
  intro other
  rw [sub_self, abs_zero]
  refine ⟨abs_nonneg _, fun tie => .inl ?_⟩
  exact (format.value_injective (sub_eq_zero.mp (abs_eq_zero.mp tie.symm))).symm

/-- The units that a magnitude stands for reach halfway to its neighbours. The ends belong to an
even magnitude. -/
structure Covers (magnitude : Nat) (units : ℚ) : Prop where
  lower : (format.units (magnitude - 1) : ℚ) + format.units magnitude ≤ 2 * units
  upper : 2 * units ≤ format.units magnitude + format.units (magnitude + 1)
  odd : magnitude % 2 = 1 →
    (format.units (magnitude - 1) : ℚ) + format.units magnitude < 2 * units ∧
      2 * units < format.units magnitude + format.units (magnitude + 1)

variable {format}

/-- A number is covered by one magnitude. -/
theorem Covers.unique {first second : Nat} {units : ℚ} (begun : format.Covers first units)
    (ended : format.Covers second units) : first = second := by
  have ordered {lesser greater : Nat} (below : format.Covers lesser units)
      (above : format.Covers greater units) : ¬ lesser < greater := by
    intro less
    have near : (format.units lesser : ℚ) ≤ format.units (greater - 1) :=
      mod_cast format.units_strictMono.monotone (by omega)
    have far : (format.units (lesser + 1) : ℚ) ≤ format.units greater :=
      mod_cast format.units_strictMono.monotone (by omega)
    have touching : format.units lesser = format.units (greater - 1) := by
      have := below.upper
      have := above.lower
      have : (format.units lesser : ℚ) = format.units (greater - 1) := by linarith
      exact_mod_cast this
    have adjacent : lesser = greater - 1 := format.units_strictMono.injective touching
    -- Of two neighbours one is odd, and it does not have its end.
    rcases Nat.mod_two_eq_zero_or_one lesser with even | odd
    · have := (above.odd (by omega)).1
      have := below.upper
      linarith
    · have := (below.odd odd).2
      have := above.lower
      linarith
  have := ordered begun ended
  have := ordered ended begun
  omega

section Distance

variable {number lesser greater : ℚ} (less : lesser < greater)

include less

theorem lesser_near_iff :
    |number - lesser| ≤ |number - greater| ↔ 2 * number ≤ lesser + greater := by
  constructor <;> intro near <;>
    rcases abs_cases (number - lesser) with ⟨first, _⟩ | ⟨first, _⟩ <;>
      rcases abs_cases (number - greater) with ⟨second, _⟩ | ⟨second, _⟩ <;> linarith

theorem greater_near_iff :
    |number - greater| ≤ |number - lesser| ↔ lesser + greater ≤ 2 * number := by
  constructor <;> intro near <;>
    rcases abs_cases (number - lesser) with ⟨first, _⟩ | ⟨first, _⟩ <;>
      rcases abs_cases (number - greater) with ⟨second, _⟩ | ⟨second, _⟩ <;> linarith

theorem lesser_nearer_iff :
    |number - lesser| < |number - greater| ↔ 2 * number < lesser + greater := by
  rw [← not_le, greater_near_iff less, not_le]

theorem greater_nearer_iff :
    |number - greater| < |number - lesser| ↔ lesser + greater < 2 * number := by
  rw [← not_le, lesser_near_iff less, not_le]

end Distance

theorem abs_sub_value (number : ℚ) (magnitude : Nat) :
    |number - format.value magnitude| =
      |number * 2 ^ format.depth - format.units magnitude| / 2 ^ format.depth := by
  have positive : (0 : ℚ) < 2 ^ format.depth := by positivity
  rw [value, ← abs_of_pos positive, ← abs_div, sub_div, abs_of_pos positive,
    mul_div_cancel_right₀ _ positive.ne']

/-- Whether a number rounds to a magnitude is seen at the two neighbours. -/
theorem roundsTo_iff_covers {number : ℚ} (nonnegative : 0 ≤ number) {magnitude : Nat} :
    format.RoundsTo number magnitude ↔
      format.Covers magnitude (number * 2 ^ format.depth) := by
  have positive : (0 : ℚ) < 2 ^ format.depth := by positivity
  have scaled : 0 ≤ number * 2 ^ format.depth := mul_nonneg nonnegative positive.le
  simp only [RoundsTo, abs_sub_value, div_le_div_iff_of_pos_right positive,
    div_left_inj' positive.ne']
  generalize number * 2 ^ format.depth = units at scaled
  have grows {lesser greater : Nat} (less : lesser < greater) :
      (format.units lesser : ℚ) < format.units greater := mod_cast format.units_strictMono less
  have next := grows (Nat.lt_succ_self magnitude)
  constructor
  · intro nearest
    have strict (notEven : magnitude % 2 = 1) {other : Nat} (different : other ≠ magnitude) :
        |units - format.units magnitude| < |units - format.units other| :=
      (nearest other).1.lt_of_ne fun tie =>
        ((nearest other).2 tie).elim different fun even => by omega
    refine ⟨?_, (lesser_near_iff next).mp (nearest (magnitude + 1)).1, fun notEven => ⟨?_, ?_⟩⟩
    · cases magnitude with
      | zero => simpa [units_zero] using scaled
      | succ previous =>
        exact (greater_near_iff (grows previous.lt_succ_self)).mp (nearest previous).1
    · have previous : magnitude - 1 < magnitude := by omega
      exact (greater_nearer_iff (grows previous)).mp (strict notEven previous.ne)
    · exact (lesser_nearer_iff next).mp (strict notEven (Nat.succ_ne_self magnitude))
  · intro covers other
    rcases Nat.lt_trichotomy other magnitude with below | rfl | above
    · have far : (format.units other : ℚ) ≤ format.units (magnitude - 1) :=
        mod_cast format.units_strictMono.monotone (Nat.le_sub_one_of_lt below)
      have lower := covers.lower
      refine ⟨(greater_near_iff (grows below)).mpr (by linarith), fun tie => .inr ?_⟩
      by_contra notEven
      have odd := (covers.odd (Nat.mod_two_ne_zero.mp notEven)).1
      exact tie.not_lt ((greater_nearer_iff (grows below)).mpr (by linarith))
    · exact ⟨le_rfl, fun _ => .inl rfl⟩
    · have far : (format.units (magnitude + 1) : ℚ) ≤ format.units other :=
        mod_cast format.units_strictMono.monotone above
      have upper := covers.upper
      refine ⟨(lesser_near_iff (grows above)).mpr (by linarith), fun tie => .inr ?_⟩
      by_contra notEven
      have odd := (covers.odd (Nat.mod_two_ne_zero.mp notEven)).2
      exact tie.not_lt ((lesser_nearer_iff (grows above)).mpr (by linarith))

/-- A number rounds to one magnitude. -/
theorem RoundsTo.unique {number : ℚ} (nonnegative : 0 ≤ number) {first second : Nat}
    (begun : format.RoundsTo number first) (ended : format.RoundsTo number second) :
    first = second :=
  ((roundsTo_iff_covers nonnegative).mp begun).unique ((roundsTo_iff_covers nonnegative).mp ended)

/-- What lies between two numbers that round to a magnitude does so too. -/
theorem RoundsTo.of_between {lesser greater number : ℚ} (nonnegative : 0 ≤ lesser)
    {magnitude : Nat} (begun : format.RoundsTo lesser magnitude)
    (ended : format.RoundsTo greater magnitude) (above : lesser ≤ number)
    (below : number ≤ greater) : format.RoundsTo number magnitude := by
  have scaled : (0 : ℚ) ≤ 2 ^ format.depth := by positivity
  rw [roundsTo_iff_covers nonnegative] at begun
  rw [roundsTo_iff_covers (nonnegative.trans (above.trans below))] at ended
  rw [roundsTo_iff_covers (nonnegative.trans above)]
  have first := mul_le_mul_of_nonneg_right above scaled
  have second := mul_le_mul_of_nonneg_right below scaled
  refine ⟨?_, ?_, fun odd => ⟨?_, ?_⟩⟩
  · linarith [begun.lower]
  · linarith [ended.upper]
  · linarith [(begun.odd odd).1]
  · linarith [(ended.odd odd).2]

/-- The rounded quotient is the exact one to within a half, and within less if it is odd. -/
theorem roundQuotient_near (numerator : Nat) {denominator : Nat} (positive : 0 < denominator) :
    let quotient := roundQuotient numerator denominator
    2 * (quotient * denominator) ≤ 2 * numerator + denominator ∧
      2 * numerator ≤ 2 * (quotient * denominator) + denominator ∧
        (quotient % 2 = 1 →
          2 * (quotient * denominator) < 2 * numerator + denominator ∧
            2 * numerator < 2 * (quotient * denominator) + denominator) := by
  have whole : numerator / denominator * denominator + numerator % denominator = numerator :=
    Nat.div_add_mod' _ _
  have rest : numerator % denominator < denominator := Nat.mod_lt _ positive
  have next : (numerator / denominator + 1) * denominator =
      numerator / denominator * denominator + denominator := Nat.succ_mul _ _
  dsimp only [roundQuotient]
  split
  · refine ⟨?_, ?_, fun _ => ⟨?_, ?_⟩⟩ <;> omega
  · split
    · rw [next]
      refine ⟨?_, ?_, fun _ => ⟨?_, ?_⟩⟩ <;> omega
    · rcases Nat.mod_two_eq_zero_or_one (numerator / denominator) with even | odd
      · rw [even, Nat.add_zero]
        refine ⟨?_, ?_, fun odd => ?_⟩ <;> omega
      · rw [odd, next]
        refine ⟨?_, ?_, fun odd => ?_⟩ <;> omega

/-- Whether a fraction is covered is a matter of whole numbers. -/
theorem covers_div_iff {magnitude numerator denominator : Nat} (positive : 0 < denominator) :
    format.Covers magnitude (numerator / denominator) ↔
      (format.units (magnitude - 1) + format.units magnitude) * denominator ≤ 2 * numerator ∧
        2 * numerator ≤ (format.units magnitude + format.units (magnitude + 1)) * denominator ∧
          (magnitude % 2 = 1 →
            (format.units (magnitude - 1) + format.units magnitude) * denominator <
                2 * numerator ∧
              2 * numerator <
                (format.units magnitude + format.units (magnitude + 1)) * denominator) := by
  have divided : (0 : ℚ) < denominator := mod_cast positive
  constructor
  · rintro ⟨lower, upper, odd⟩
    rw [← mul_div_assoc, le_div_iff₀ divided] at lower
    rw [← mul_div_assoc, div_le_iff₀ divided] at upper
    rw [← mul_div_assoc, lt_div_iff₀ divided, div_lt_iff₀ divided] at odd
    exact_mod_cast And.intro lower (And.intro upper odd)
  · rintro ⟨lower, upper, odd⟩
    refine ⟨?_, ?_, ?_⟩
    · rw [← mul_div_assoc, le_div_iff₀ divided]
      exact_mod_cast lower
    · rw [← mul_div_assoc, div_le_iff₀ divided]
      exact_mod_cast upper
    · rw [← mul_div_assoc, lt_div_iff₀ divided, div_lt_iff₀ divided]
      exact_mod_cast odd

section Quotient

variable (format) (numerator : Nat) {denominator : Nat} (positive : 0 < denominator)

include positive

/-- A scale above zero is one at which the quotient has its hidden bit. -/
theorem scale_eq_zero_or_le_quotient :
    let scale := Nat.log2 (numerator / denominator) - format.fractionBits
    scale = 0 ∨ 2 ^ format.fractionBits * (denominator * 2 ^ scale) ≤ numerator := by
  intro scale
  refine or_iff_not_imp_left.mpr fun raised => ?_
  have filled : numerator / denominator ≠ 0 := by
    intro empty
    exact raised (by simp [scale, empty])
  have order : format.fractionBits + scale = Nat.log2 (numerator / denominator) := by omega
  have leading := Nat.log2_self_le filled
  rw [← order, Nat.pow_add, Nat.le_div_iff_mul_le positive] at leading
  calc 2 ^ format.fractionBits * (denominator * 2 ^ scale)
      = 2 ^ format.fractionBits * 2 ^ scale * denominator := by ring
    _ ≤ numerator := leading

theorem quotient_lt :
    let scale := Nat.log2 (numerator / denominator) - format.fractionBits
    numerator < 2 * 2 ^ format.fractionBits * (denominator * 2 ^ scale) := by
  intro scale
  have order : Nat.log2 (numerator / denominator) + 1 ≤ format.fractionBits + 1 + scale := by omega
  have above := Nat.lt_of_lt_of_le Nat.lt_log2_self (Nat.pow_le_pow_right Nat.two_pos order)
  rw [Nat.pow_add, Nat.pow_succ, Nat.div_lt_iff_lt_mul positive] at above
  calc numerator < 2 ^ format.fractionBits * 2 * 2 ^ scale * denominator := above
    _ = 2 * 2 ^ format.fractionBits * (denominator * 2 ^ scale) := by ring

end Quotient

/-- The spacing after a magnitude is at least that of any scale it may stand at. -/
theorem le_units_next {scale significand : Nat}
    (normal : scale = 0 ∨ 2 ^ format.fractionBits ≤ significand)
    (bounded : significand ≤ 2 * 2 ^ format.fractionBits) :
    (significand + 1) * 2 ^ scale ≤
      format.units (scale * 2 ^ format.fractionBits + significand + 1) := by
  have wide : scale ≤ format.scale (scale * 2 ^ format.fractionBits + significand) := by
    rcases normal with flat | large
    · exact flat ▸ Nat.zero_le _
    · rw [BinaryFormat.scale, Nat.pow_eq]
      refine Nat.le_sub_one_of_lt ((Nat.le_div_iff_mul_le (Nat.two_pow_pos _)).mpr ?_)
      rw [Nat.succ_mul]
      omega
  rw [units_succ, units_at_scale format normal bounded, Nat.succ_mul]
  exact Nat.add_le_add_left (Nat.pow_le_pow_right Nat.two_pos wide) _

section Near

variable {scale significand numerator step : Nat} (spaced : 0 < step)
  (normal : scale = 0 ∨ 2 ^ format.fractionBits * step ≤ numerator)
  (bounded : numerator < 2 * 2 ^ format.fractionBits * step)
  (above : 2 * (significand * step) ≤ 2 * numerator + step)
  (below : 2 * numerator ≤ 2 * (significand * step) + step)

include spaced

include normal below in
theorem normal_of_near : scale = 0 ∨ 2 ^ format.fractionBits ≤ significand := by
  refine normal.imp_right fun large => Nat.not_lt.mp fun small => ?_
  have := Nat.mul_le_mul_right step (Nat.succ_le_of_lt small)
  rw [Nat.succ_mul] at this
  omega

include bounded above in
theorem bounded_of_near : significand ≤ 2 * 2 ^ format.fractionBits := by
  refine Nat.not_lt.mp fun large => ?_
  have := Nat.mul_le_mul_right step (Nat.succ_le_of_lt large)
  rw [Nat.succ_mul] at this
  omega

end Near

/-- What a quotient is rounded to before infinity comes in. -/
theorem covers_rounded (filled : 0 < format.fractionBits) (numerator : Nat) {denominator : Nat}
    (positive : 0 < denominator) :
    let scale := Nat.log2 (numerator / denominator) - format.fractionBits
    format.Covers
      (scale * 2 ^ format.fractionBits + roundQuotient numerator (denominator * 2 ^ scale))
      (numerator / denominator) := by
  intro scale
  have large : scale = 0 ∨ 2 ^ format.fractionBits * (denominator * 2 ^ scale) ≤ numerator :=
    format.scale_eq_zero_or_le_quotient numerator positive
  have small : numerator < 2 * 2 ^ format.fractionBits * (denominator * 2 ^ scale) :=
    format.quotient_lt numerator positive
  have spaced : 0 < denominator * 2 ^ scale := Nat.mul_pos positive (Nat.two_pow_pos _)
  obtain ⟨above, below, odd⟩ := roundQuotient_near numerator spaced
  generalize roundQuotient numerator (denominator * 2 ^ scale) = significand at *
  have normal := normal_of_near spaced large below
  have bounded := bounded_of_near spaced small above
  have expand (count : Nat) : count * 2 ^ scale * denominator =
      count * (denominator * 2 ^ scale) := by ring
  have here : format.units (scale * 2 ^ format.fractionBits + significand) * denominator =
      significand * (denominator * 2 ^ scale) := by
    rw [format.units_at_scale normal bounded, expand]
  have next := Nat.mul_le_mul_right denominator (le_units_next normal bounded)
  rw [expand, Nat.succ_mul] at next
  rw [covers_div_iff positive, mod_two_at_scale format filled, Nat.add_mul, Nat.add_mul, here]
  suffices lower : _ ∧ (significand % 2 = 1 → _) from
    ⟨lower.1, by omega, fun notEven => ⟨lower.2 notEven, by have := odd notEven; omega⟩⟩
  by_cases steep : scale = 0 ∨ 2 ^ format.fractionBits < significand
  · -- The lower neighbour stands at the same scale.
    cases significand with
    | zero =>
      have flat : scale = 0 := steep.resolve_right (Nat.not_lt_zero _)
      simp [flat, units_zero]
    | succ previous =>
      have before : format.units (scale * 2 ^ format.fractionBits + previous) =
          previous * 2 ^ scale :=
        format.units_at_scale (steep.imp_right Nat.le_of_lt_succ) (Nat.le_of_succ_le bounded)
      have split : (previous + 1) * (denominator * 2 ^ scale) =
          previous * (denominator * 2 ^ scale) + denominator * 2 ^ scale := Nat.succ_mul _ _
      rw [split] at above odd
      rw [Nat.add_succ_sub_one, before, expand, split]
      exact ⟨by omega, fun notEven => by have := odd notEven; omega⟩
  · -- The significand is the least one with a hidden bit, and the number is no less.
    rw [not_or, Nat.not_lt] at steep
    have least : significand = 2 ^ format.fractionBits :=
      Nat.le_antisymm steep.2 (normal.resolve_left steep.1)
    have lower := large.resolve_left steep.1
    rw [← least] at lower
    have before := Nat.mul_le_mul_right denominator (format.units_strictMono.monotone
      (Nat.sub_le (scale * 2 ^ format.fractionBits + significand) 1))
    rw [here] at before
    have even := format.mod_two_at_scale filled 1 0
    rw [Nat.one_mul, Nat.add_zero, ← least] at even
    exact ⟨by omega, fun notEven => by omega⟩

variable {magnitude numerator denominator : Nat}

/-- Below infinity the nearest magnitude is the one that covers the quotient. -/
theorem nearest_eq_iff (filled : 0 < format.fractionBits) (positive : 0 < denominator)
    (finite : magnitude < format.infinity) :
    format.nearest numerator denominator = magnitude ↔
      format.Covers magnitude (numerator / denominator) := by
  have rounded := covers_rounded filled numerator positive
  constructor
  · intro same
    rw [nearest, Nat.pow_eq, Nat.pow_eq] at same
    rw [← same] at finite ⊢
    rw [min_eq_left ((min_lt_iff.mp finite).resolve_right (lt_irrefl _)).le]
    exact rounded
  · intro covers
    rw [nearest, Nat.pow_eq, Nat.pow_eq, rounded.unique covers]
    exact min_eq_left finite.le

end NativePeer.Number.BinaryFormat
