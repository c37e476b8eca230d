import NativePeer.Proofs.Number.Length
import NativePeer.Proofs.Number.Shortest

/-
This file finds the decimals of a given length that round to a magnitude.
-/

namespace NativePeer.Number.BinaryFormat

open RoundingInterval

/-- No decimal of fewer digits rounds to the magnitude. -/
structure IsFewest (format : BinaryFormat) (magnitude count : Nat) : Prop where
  reached : ∃ number, HasLength count number ∧ format.RoundsTo number magnitude
  least : ∀ fewer number, fewer < count → HasLength fewer number →
    ¬ format.RoundsTo number magnitude

theorem IsFewest.unique {format : BinaryFormat} {magnitude first second : Nat}
    (begun : format.IsFewest magnitude first) (ended : format.IsFewest magnitude second) :
    first = second := by
  obtain ⟨number, length, rounds⟩ := begun.reached
  obtain ⟨other, otherLength, otherRounds⟩ := ended.reached
  rcases Nat.lt_trichotomy first second with less | same | greater
  · exact absurd rounds (ended.least first number less length)
  · exact same
  · exact absurd otherRounds (begun.least second other greater otherLength)

/-- Nothing is shorter than one digit. -/
theorem isFewest_one {format : BinaryFormat} {magnitude : Nat} {number : ℚ}
    (length : HasLength 1 number) (rounds : format.RoundsTo number magnitude) :
    format.IsFewest magnitude 1 := by
  refine ⟨⟨number, length, rounds⟩, fun fewer other less shorter => ?_⟩
  rw [Nat.lt_one_iff.mp less] at shorter
  exact absurd shorter (not_hasLength_zero other)

/-- The decimal has the fewest digits, none of its length is nearer to the value, and of two that
are equally near it is the greater. -/
structure IsShortest (format : BinaryFormat) (magnitude count : Nat) (number : ℚ) : Prop where
  fewest : format.IsFewest magnitude count
  length : HasLength count number
  rounds : format.RoundsTo number magnitude
  nearest : ∀ other, HasLength count other → format.RoundsTo other magnitude →
    |number - format.value magnitude| < |other - format.value magnitude| ∨
      |number - format.value magnitude| = |other - format.value magnitude| ∧ other ≤ number

/-- The number at a point of the interval of a magnitude. -/
def numberAt (format : BinaryFormat) (point : Nat) : ℚ :=
  point / 10 ^ format.places

/-- How many digits the value of a magnitude has in the scale of its interval. -/
def digitCount (format : BinaryFormat) (magnitude : Nat) : Nat :=
  (Nat.toDigits 10 (format.interval magnitude).value).length

variable {format : BinaryFormat}

theorem numberAt_le_iff {lesser greater : Nat} :
    format.numberAt lesser ≤ format.numberAt greater ↔ lesser ≤ greater := by
  have positive : (0 : ℚ) < 10 ^ format.places := by positivity
  rw [numberAt, numberAt, div_le_div_iff_of_pos_right positive, Nat.cast_le]

section Distance

variable (format : BinaryFormat) (magnitude : Nat)

theorem numberAt_value : format.numberAt (format.interval magnitude).value =
    format.value magnitude :=
  format.interval_value magnitude

theorem abs_numberAt_sub_value (point : Nat) :
    |format.numberAt point - format.value magnitude| =
      (format.interval magnitude).distance point / 10 ^ format.places := by
  have positive : (0 : ℚ) < 10 ^ format.places := by positivity
  rw [← numberAt_value, numberAt, numberAt, ← sub_div, abs_div, abs_of_pos positive, distance]
  congr 1
  rcases Nat.le_total point (format.interval magnitude).value with below | above
  · rw [abs_of_nonpos (sub_nonpos.mpr (mod_cast below)), Nat.sub_eq_zero_of_le below, Nat.add_zero,
      Nat.cast_sub below]
    ring
  · rw [abs_of_nonneg (sub_nonneg.mpr (mod_cast above)), Nat.sub_eq_zero_of_le above, Nat.zero_add,
      Nat.cast_sub above]

theorem distance_le_iff {first second : Nat} :
    |format.numberAt first - format.value magnitude| ≤
        |format.numberAt second - format.value magnitude| ↔
      (format.interval magnitude).distance first ≤ (format.interval magnitude).distance second := by
  have positive : (0 : ℚ) < 10 ^ format.places := by positivity
  rw [abs_numberAt_sub_value, abs_numberAt_sub_value, div_le_div_iff_of_pos_right positive,
    Nat.cast_le]

end Distance

section Value

theorem digitCount_eq {magnitude length : Nat}
    (lower : 10 ^ (length - 1) ≤ (format.interval magnitude).value)
    (upper : (format.interval magnitude).value < 10 ^ length) :
    format.digitCount magnitude = length := by
  have above : (format.interval magnitude).value < 10 ^ format.digitCount magnitude :=
    lt_pow_length_toDigits _
  have some : 0 < format.digitCount magnitude := List.length_pos_of_ne_nil Nat.toDigits_ne_nil
  refine Nat.le_antisymm ?_ (Nat.not_lt.mp fun less => ?_)
  · rcases Nat.eq_zero_or_pos length with rfl | positive
    · omega
    · exact (Nat.length_toDigits_le_iff (by decide) positive).mpr upper
  · have shorter := Nat.pow_le_pow_right (Nat.succ_pos 9) (Nat.le_sub_one_of_lt less)
    exact lt_irrefl _ (above.trans_le (shorter.trans lower))

variable (format) {magnitude : Nat} (filled : magnitude ≠ 0)

include filled

theorem interval_value_pos : 0 < (format.interval magnitude).value := by
  have positive : 0 < format.significand magnitude := significand_pos filled
  rw [interval, Nat.pow_eq, Nat.pow_eq]
  positivity

theorem value_bounds : 10 ^ (format.digitCount magnitude - 1) ≤ (format.interval magnitude).value ∧
    (format.interval magnitude).value < 10 ^ format.digitCount magnitude :=
  ⟨pow_pred_length_toDigits_le (format.interval_value_pos filled).ne', lt_pow_length_toDigits _⟩

theorem two_le_digitCount : 2 ≤ format.digitCount magnitude := by
  have positive : 0 < format.significand magnitude := significand_pos filled
  have large : 100 ≤ (format.interval magnitude).value := by
    have five : 5 ^ 2 ≤ 5 ^ format.places :=
      Nat.pow_le_pow_right (by decide) (Nat.le_add_left 2 _)
    calc 100 = 4 * 1 * (1 * 5 ^ 2) := by decide
      _ ≤ 4 * format.significand magnitude * (2 ^ format.scale magnitude * 5 ^ format.places) :=
        Nat.mul_le_mul (Nat.mul_le_mul_left 4 positive)
          (Nat.mul_le_mul (Nat.two_pow_pos _) five)
  refine Nat.not_lt.mp fun short => ?_
  have := (format.value_bounds filled).2.trans_le
    (Nat.pow_le_pow_right (by decide) (Nat.le_of_lt_succ short))
  omega

theorem value_shortest :
    (format.shortest magnitude).value =
      format.numberAt (format.interval magnitude).shortest := by
  rw [shortest, if_neg filled, Scientific.value_ofFixed]
  rfl

end Value

section Magnitude

variable (ordinary : format.IsOrdinary) {magnitude : Nat} (filled : magnitude ≠ 0)

include ordinary filled

theorem holds_iff_roundsTo {point : Nat} :
    (format.interval magnitude).holds point = true ↔
      format.RoundsTo (format.numberAt point) magnitude :=
  holds_interval_iff ordinary filled

variable {count : Nat} (shorter : count ≤ format.digitCount magnitude)

include shorter

/-- A decimal that rounds to a magnitude is a point of the grid of its length, or the grid has a
point that is nearer. -/
theorem exists_grid_point {number : ℚ} (length : HasLength count number)
    (rounds : format.RoundsTo number magnitude) :
    ∃ point, 10 ^ (format.digitCount magnitude - count) ∣ point ∧
      (format.interval magnitude).holds point = true ∧
        (number = format.numberAt point ∨
          |format.numberAt point - format.value magnitude| <
            |number - format.value magnitude|) := by
  obtain ⟨significand, exponent, writes⟩ := length
  have filledCount := writes.count_pos
  obtain ⟨lower, _⟩ := format.value_bounds filled
  rcases le_or_gt (format.numberAt (10 ^ (format.digitCount magnitude - 1))) number
    with large | small
  · obtain ⟨point, divides, same⟩ := writes.exists_multiple format.places shorter large
    refine ⟨point, divides, ?_, .inl same⟩
    rw [holds_iff_roundsTo ordinary filled, numberAt, ← same]
    exact rounds
  · -- The power of ten below the value lies between the number and the value.
    have near : format.numberAt (10 ^ (format.digitCount magnitude - 1)) ≤
        format.value magnitude := by
      rw [← numberAt_value, numberAt_le_iff]
      exact lower
    refine ⟨10 ^ (format.digitCount magnitude - 1), pow_dvd_pow 10 (by omega), ?_, .inr ?_⟩
    · rw [holds_iff_roundsTo ordinary filled]
      exact rounds.of_between writes.pos.le (format.roundsTo_value magnitude) small.le near
    · rw [abs_of_nonpos (sub_nonpos.mpr near), abs_of_nonpos (by linarith)]
      linarith

/-- A grid without a point in the interval has no decimal that rounds to the magnitude. -/
theorem not_roundsTo_of_hit? {number : ℚ}
    (missed : (format.interval magnitude).hit?
      (10 ^ (format.digitCount magnitude - count)) = none)
    (length : HasLength count number) : ¬ format.RoundsTo number magnitude := by
  intro rounds
  obtain ⟨point, divides, holds, _⟩ := exists_grid_point ordinary filled shorter length rounds
  rw [not_holds_of_hit? (holds_interval_value ordinary filled) (Nat.pow_pos (by decide)) missed
    divides] at holds
  cases holds

variable (filledCount : 0 < count) {point : Nat}
  (nearest : (format.interval magnitude).IsNearest
    (10 ^ (format.digitCount magnitude - count)) point)

include nearest

/-- Of the decimals of one length none is nearer than the nearest point of the grid, and one that
is as near is a point below it. -/
theorem nearer_of_isNearest {number : ℚ} (length : HasLength count number)
    (rounds : format.RoundsTo number magnitude) :
    |format.numberAt point - format.value magnitude| < |number - format.value magnitude| ∨
      ∃ other, 10 ^ (format.digitCount magnitude - count) ∣ other ∧ other ≤ point ∧
        (format.interval magnitude).holds other = true ∧ number = format.numberAt other ∧
          (format.interval magnitude).distance point =
            (format.interval magnitude).distance other := by
  obtain ⟨other, divides, holds, same⟩ := exists_grid_point ordinary filled shorter length rounds
  have near := nearest.nearest other divides holds
  have weak : |format.numberAt point - format.value magnitude| ≤
      |format.numberAt other - format.value magnitude| :=
    (distance_le_iff format magnitude).mpr (by omega)
  rcases same with same | nearer
  · rcases near with less | ⟨tie, below⟩
    · rw [same, ← not_le, distance_le_iff]
      exact .inl (Nat.not_le.mpr less)
    · exact .inr ⟨other, divides, below, holds, same, tie⟩
  · exact .inl (weak.trans_lt nearer)

include filledCount

theorem point_bounds : 10 ^ (format.digitCount magnitude - 1) ≤ point ∧
    point ≤ 10 ^ format.digitCount magnitude := by
  obtain ⟨lower, upper⟩ := format.value_bounds filled
  have centred := holds_interval_value ordinary filled
  exact ⟨nearest.le_point centred (pow_dvd_pow 10 (by omega)) lower,
    nearest.point_le centred (pow_dvd_pow 10 (by omega)) upper.le⟩

/-- The nearest point of a grid has the length of the grid. Its significand is the count of steps,
unless all digits were carried. -/
theorem exists_writes : ∃ significand exponent,
    Writes count significand exponent (format.numberAt point) ∧
      (significand * 10 ^ (format.digitCount magnitude - count) = point ∨
        significand = 10 ^ (count - 1)) := by
  obtain ⟨lower, upper⟩ := point_bounds ordinary filled shorter filledCount nearest
  rcases upper.lt_or_eq with less | rfl
  · exact ⟨_, _, writes_multiple format.places shorter filledCount nearest.divides lower less,
      .inl (Nat.div_mul_cancel nearest.divides)⟩
  · exact ⟨_, _, writes_ten_pow format.places shorter filledCount, .inr rfl⟩

omit shorter nearest filledCount

/-- The shortest point is the nearest of the fewest digits. -/
theorem exists_isFewest : ∃ count, 0 < count ∧ count ≤ format.digitCount magnitude ∧
    format.IsFewest magnitude count ∧
      (format.interval magnitude).hit? (10 ^ (format.digitCount magnitude - count)) =
        some (format.interval magnitude).shortest := by
  have centred := holds_interval_value ordinary filled
  obtain ⟨count, filledCount, shorter, hit, missed⟩ := exists_hit?_shortest centred
  have nearest := isNearest_of_hit? centred (Nat.pow_pos (by decide)) hit
  refine ⟨count, filledCount, shorter, ⟨?_, ?_⟩, hit⟩
  · obtain ⟨significand, exponent, writes, _⟩ :=
      exists_writes ordinary filled shorter filledCount nearest
    exact ⟨_, ⟨significand, exponent, writes⟩,
      (holds_iff_roundsTo ordinary filled).mp nearest.inside⟩
  · intro fewer number less length
    rcases Nat.eq_zero_or_pos fewer with rfl | positive
    · exact absurd length (not_hasLength_zero number)
    · exact not_roundsTo_of_hit? ordinary filled (less.le.trans shorter)
        (missed fewer positive less) length

/-- A grid of fewer digits than the fewest has no point. -/
theorem hit?_eq_none {count fewer : Nat} (shorter : count ≤ format.digitCount magnitude)
    (fewest : format.IsFewest magnitude count) (some : 0 < fewer) (less : fewer < count) :
    (format.interval magnitude).hit? (10 ^ (format.digitCount magnitude - fewer)) = none := by
  cases hit : (format.interval magnitude).hit? (10 ^ (format.digitCount magnitude - fewer)) with
  | none => rfl
  | some point =>
    have nearest := isNearest_of_hit? (holds_interval_value ordinary filled)
      (Nat.pow_pos (by decide)) hit
    obtain ⟨_, _, writes, _⟩ :=
      exists_writes ordinary filled (less.le.trans shorter) some nearest
    exact absurd ((holds_iff_roundsTo ordinary filled).mp nearest.inside)
      (fewest.least fewer _ less ⟨_, _, writes⟩)

theorem isFewest_one_of_hit? {point : Nat}
    (hit : (format.interval magnitude).hit? (10 ^ (format.digitCount magnitude - 1)) =
      some point) : format.IsFewest magnitude 1 := by
  have nearest := isNearest_of_hit? (holds_interval_value ordinary filled)
    (Nat.pow_pos (by decide)) hit
  obtain ⟨_, _, writes, _⟩ := exists_writes ordinary filled
    (Nat.le_of_succ_le (format.two_le_digitCount filled)) Nat.one_pos nearest
  exact isFewest_one ⟨_, _, writes⟩ ((holds_iff_roundsTo ordinary filled).mp nearest.inside)

theorem exists_isShortest :
    ∃ count, format.IsShortest magnitude count (format.shortest magnitude).value := by
  have centred := holds_interval_value ordinary filled
  obtain ⟨count, filledCount, shorter, fewest, hit⟩ := exists_isFewest ordinary filled
  have nearest := isNearest_of_hit? centred (Nat.pow_pos (by decide)) hit
  obtain ⟨_, _, writes, _⟩ := exists_writes ordinary filled shorter filledCount nearest
  rw [value_shortest format filled]
  refine ⟨count, fewest, ⟨_, _, writes⟩,
    (holds_iff_roundsTo ordinary filled).mp nearest.inside, fun number length rounds => ?_⟩
  rcases nearer_of_isNearest ordinary filled shorter nearest length rounds
    with strict | ⟨other, _, below, _, rfl, tie⟩
  · exact .inl strict
  · rw [abs_numberAt_sub_value, abs_numberAt_sub_value, tie]
    exact .inr ⟨rfl, numberAt_le_iff.mpr below⟩

end Magnitude

end NativePeer.Number.BinaryFormat
