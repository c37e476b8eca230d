import NativePeer.Proofs.Number.Candidate

/-
This file compares the shortest decimal of a magnitude with the one that the managed runtime
chooses.
-/

namespace NativePeer.Number

/-- Two digits of one decimal come nearer to the value than one digit does. -/
def RoundingInterval.strays (interval : RoundingInterval) (length : Nat) : Bool :=
  match interval.hit? (10 ^ (length - 1)), interval.hit? (10 ^ (length - 2)) with
  | some coarse, some fine => interval.distance fine < interval.distance coarse
  | _, _ => false

namespace BinaryFormat

open RoundingInterval

/-- The choice of the managed runtime: of the decimals that round to the magnitude and have the
fewest digits, but at least two, the nearest to the value. A tie goes to the even significand. -/
structure IsManaged (format : BinaryFormat) (magnitude count significand : Nat) (exponent : Int)
    (number : ℚ) : Prop where
  fewest : format.IsFewest magnitude count
  writes : Writes (max count 2) significand exponent number
  rounds : format.RoundsTo number magnitude
  nearest : ∀ other, HasLength (max count 2) other → format.RoundsTo other magnitude →
    |number - format.value magnitude| ≤ |other - format.value magnitude| ∧
      (|number - format.value magnitude| = |other - format.value magnitude| →
        other = number ∨ significand % 2 = 0)

def IsManagedDecimal (format : BinaryFormat) (magnitude : Nat) (number : ℚ) : Prop :=
  ∃ count significand exponent, format.IsManaged magnitude count significand exponent number

/-- The value lies midway between two decimals with the fewest digits, and the lower one has the
even significand. -/
structure Halves (format : BinaryFormat) (magnitude count significand : Nat) (exponent : Int) :
    Prop where
  fewest : format.IsFewest magnitude count
  lower : 10 ^ (count - 1) ≤ significand
  upper : significand < 10 ^ count
  even : significand % 2 = 0
  below : format.RoundsTo (significand * 10 ^ exponent) magnitude
  above : format.RoundsTo ((significand + 1) * 10 ^ exponent) magnitude
  midway : format.value magnitude = (significand + 1 / 2) * 10 ^ exponent

def IsMidway (format : BinaryFormat) (magnitude : Nat) : Prop :=
  ∃ count significand exponent, format.Halves magnitude count significand exponent

variable {format : BinaryFormat} {magnitude count significand : Nat} {exponent : Int}

section Halves

variable (halves : format.Halves magnitude count significand exponent)

include halves

theorem Halves.count_pos : 0 < count := by
  have lower := halves.lower
  have upper := halves.upper
  refine Nat.pos_of_ne_zero fun zero => ?_
  subst zero
  omega

theorem Halves.writes_below : Writes count significand exponent (significand * 10 ^ exponent) :=
  ⟨halves.lower, halves.upper, rfl⟩

theorem Halves.writes_above :
    Writes count (significand + 1) exponent ((significand + 1) * 10 ^ exponent) := by
  refine ⟨halves.lower.trans (Nat.le_succ _), ?_, by push_cast; rfl⟩
  -- The power of ten is even and so is not the next number.
  have even : 10 ^ count % 2 = 0 := by
    rw [← Nat.succ_pred_eq_of_pos halves.count_pos, Nat.pow_succ, Nat.mul_mod, Nat.mul_zero]
  have := halves.upper
  have := halves.even
  omega

theorem Halves.distance_below :
    |significand * 10 ^ exponent - format.value magnitude| = 10 ^ exponent / 2 := by
  have negative : significand * 10 ^ exponent - format.value magnitude = -(10 ^ exponent / 2) := by
    rw [halves.midway]
    ring
  rw [negative, abs_neg, abs_of_nonneg (by positivity)]

theorem Halves.distance_above :
    |(significand + 1) * 10 ^ exponent - format.value magnitude| = 10 ^ exponent / 2 := by
  have positive : (significand + 1) * 10 ^ exponent - format.value magnitude =
      10 ^ exponent / 2 := by
    rw [halves.midway]
    ring
  rw [positive, abs_of_nonneg (by positivity)]

/-- No decimal of the same length lies between the two. -/
theorem Halves.not_between {number : ℚ} (length : HasLength count number)
    (above : significand * 10 ^ exponent < number)
    (below : number < (significand + 1) * 10 ^ exponent) : False := by
  obtain ⟨other, otherExponent, writes⟩ := length
  have same := writes.exponent_eq (halves.writes_below.ten_zpow_le.trans above.le)
    (by rw [sub_add_cancel]; exact below.trans halves.writes_above.lt_ten_zpow)
  have exponents : otherExponent = exponent := by omega
  rw [writes.value, exponents, mul_lt_mul_iff_of_pos_right (by positivity)] at above below
  have := Nat.cast_lt.mp above
  have : other < significand + 1 := by exact_mod_cast below
  omega

omit halves in
/-- A value that is itself a decimal with the fewest digits is not midway. -/
theorem not_isMidway_of_hasLength (fewest : format.IsFewest magnitude count)
    (length : HasLength count (format.value magnitude)) : ¬ format.IsMidway magnitude := by
  rintro ⟨chosen, significand, exponent, halves⟩
  have same := halves.fewest.unique fewest
  subst same
  have positive : (0 : ℚ) < 10 ^ exponent := by positivity
  have midway := halves.midway
  exact halves.not_between length (by linarith) (by linarith)

omit halves in
theorem below_lt_above (significand : Nat) (exponent : Int) :
    (significand : ℚ) * 10 ^ exponent < (significand + 1) * 10 ^ exponent :=
  mul_lt_mul_of_pos_right (lt_add_one _) (by positivity)

end Halves

section Magnitude

variable (ordinary : format.IsOrdinary) (filled : magnitude ≠ 0)

include ordinary filled

section Nearest

variable (shorter : count ≤ format.digitCount magnitude) {point : Nat}
  (nearest : (format.interval magnitude).IsNearest
    (10 ^ (format.digitCount magnitude - count)) point)

include shorter nearest

/-- Of two decimals that are equally near the nearest point is the greater. -/
theorem Halves.numberAt_eq (halves : format.Halves magnitude count significand exponent) :
    format.numberAt point = (significand + 1) * 10 ^ exponent := by
  have between := below_lt_above significand exponent
  have strict : ¬ |format.numberAt point - format.value magnitude| < 10 ^ exponent / 2 := by
    intro less
    rw [abs_lt, halves.midway] at less
    obtain ⟨_, _, writes, _⟩ := exists_writes ordinary filled shorter halves.count_pos nearest
    exact halves.not_between ⟨_, _, writes⟩ (by linarith) (by linarith)
  have above := nearer_of_isNearest ordinary filled shorter nearest
    ⟨_, _, halves.writes_above⟩ halves.above
  have below := nearer_of_isNearest ordinary filled shorter nearest
    ⟨_, _, halves.writes_below⟩ halves.below
  rw [halves.distance_above] at above
  rw [halves.distance_below] at below
  obtain ⟨greater, _, reached, _, greaterSame, greaterTie⟩ := above.resolve_left strict
  obtain ⟨lesser, _, _, _, lesserSame, lesserTie⟩ := below.resolve_left strict
  rw [lesserSame, greaterSame, ← not_le, numberAt_le_iff, not_le] at between
  -- Only two points are equally far from the value.
  have same : point = greater := by
    simp only [distance] at greaterTie lesserTie
    omega
  rw [same, greaterSame]

end Nearest

omit ordinary filled in
/-- The runtime does not choose the greater of the two. -/
theorem Halves.not_isManagedDecimal (halves : format.Halves magnitude count significand exponent) :
    ¬ format.IsManagedDecimal magnitude ((significand + 1) * 10 ^ exponent) := by
  rintro ⟨chosen, other, otherExponent, managed⟩
  have same := managed.fewest.unique halves.fewest
  subst same
  rcases Nat.lt_or_ge 1 chosen with several | single
  · have writes := managed.writes
    rw [Nat.max_eq_left several] at writes
    have odd := (writes.unique halves.writes_above).1
    have even := halves.even
    have tie := (managed.nearest _
      (by rw [Nat.max_eq_left several]; exact ⟨_, _, halves.writes_below⟩) halves.below).2
      (halves.distance_above.trans halves.distance_below.symm)
    rcases tie with same | notOdd
    · exact (below_lt_above significand exponent).ne same
    · omega
  · -- With a second digit the value itself is a decimal.
    have one : chosen = 1 := Nat.le_antisymm single halves.count_pos
    subst one
    have writes : Writes 2 (10 * significand + 5) (exponent - 1) (format.value magnitude) := by
      have lower := halves.lower
      have upper := halves.upper
      refine ⟨by omega, by omega, ?_⟩
      rw [halves.midway, zpow_sub_one₀ (by norm_num)]
      push_cast
      ring
    have near := (managed.nearest _ ⟨_, _, writes⟩ (format.roundsTo_value magnitude)).1
    rw [halves.distance_above, sub_self, abs_zero] at near
    have : (0 : ℚ) < 10 ^ exponent / 2 := by positivity
    linarith

section Several

variable (shorter : count ≤ format.digitCount magnitude) (several : 1 < count)
  (fewest : format.IsFewest magnitude count) {point : Nat}
  (nearest : (format.interval magnitude).IsNearest
    (10 ^ (format.digitCount magnitude - count)) point)

include shorter several fewest nearest

/-- A tie that the runtime would decide otherwise is one between two decimals next to each
other. -/
theorem isMidway_of_tie {other : Nat}
    (divides : 10 ^ (format.digitCount magnitude - count) ∣ other) (less : other < point)
    (holds : (format.interval magnitude).holds other = true)
    (tie : (format.interval magnitude).distance point = (format.interval magnitude).distance other)
    (writes : Writes count significand exponent (format.numberAt point))
    (odd : significand % 2 = 1) : format.IsMidway magnitude := by
  have step : 0 < 10 ^ (format.digitCount magnitude - count) := Nat.pow_pos (by decide)
  have filledCount : 0 < count := Nat.lt_trans Nat.one_pos several
  obtain ⟨lower, upper⟩ := format.value_bounds filled
  obtain ⟨adjacent, around⟩ := nearest.eq_of_tie step divides less holds tie
  have otherLower : 10 ^ (format.digitCount magnitude - 1) ≤ other := by
    have power : 10 ^ (format.digitCount magnitude - count) ∣
        10 ^ (format.digitCount magnitude - 1) := pow_dvd_pow 10 (by omega)
    refine Nat.not_lt.mp fun small => ?_
    have := add_step_le divides power small
    omega
  have otherWrites := writes_multiple format.places shorter filledCount divides otherLower
    (by omega)
  have pointUpper : point < 10 ^ format.digitCount magnitude := by
    refine (point_bounds ordinary filled shorter filledCount nearest).2.lt_of_ne fun top => ?_
    -- After a carry the significand is a power of ten and hence even.
    have carried := writes_ten_pow format.places shorter filledCount
    rw [← top] at carried
    rw [(writes.unique carried).1, ← Nat.succ_pred_eq_of_pos (Nat.sub_pos_of_lt several),
      Nat.pow_succ, Nat.mul_mod, Nat.mul_zero] at odd
    cases odd
  have pointWrites := writes_multiple format.places shorter filledCount nearest.divides
    (otherLower.trans less.le) pointUpper
  have next : point / 10 ^ (format.digitCount magnitude - count) =
      other / 10 ^ (format.digitCount magnitude - count) + 1 := by
    rw [adjacent, Nat.add_div_right _ step]
  have parity : (other / 10 ^ (format.digitCount magnitude - count)) % 2 = 0 := by
    rw [(writes.unique pointWrites).1, next] at odd
    omega
  have above := pointWrites.value
  rw [next, Nat.cast_succ] at above
  refine ⟨count, other / 10 ^ (format.digitCount magnitude - count),
    format.digitCount magnitude - count - format.places,
    ⟨fewest, otherWrites.lower, otherWrites.upper, parity, ?_, ?_, ?_⟩⟩
  · rw [← otherWrites.value]
    exact (holds_iff_roundsTo ordinary filled).mp holds
  · rw [← above]
    exact (holds_iff_roundsTo ordinary filled).mp nearest.inside
  · have mean : 2 * format.value magnitude = format.numberAt other + format.numberAt point := by
      rw [← numberAt_value, numberAt, numberAt, numberAt, ← add_div, ← mul_div_assoc]
      exact_mod_cast congrArg (fun units : Nat => (units : ℚ) / 10 ^ format.places) around
    rw [numberAt, numberAt, above, otherWrites.value] at mean
    linarith

theorem isManagedDecimal_of_not_isMidway (decided : ¬ format.IsMidway magnitude) :
    format.IsManagedDecimal magnitude (format.numberAt point) := by
  obtain ⟨significand, exponent, writes, _⟩ :=
    exists_writes ordinary filled shorter (Nat.lt_trans Nat.one_pos several) nearest
  refine ⟨count, significand, exponent, fewest, by rwa [Nat.max_eq_left several],
    (holds_iff_roundsTo ordinary filled).mp nearest.inside, ?_⟩
  rw [Nat.max_eq_left several]
  intro number length rounds
  rcases nearer_of_isNearest ordinary filled shorter nearest length rounds
    with strict | ⟨other, divides, below, holds, rfl, tie⟩
  · exact ⟨strict.le, fun same => absurd same strict.ne⟩
  · refine ⟨(distance_le_iff format magnitude).mpr tie.le, fun _ => ?_⟩
    rcases below.lt_or_eq with less | rfl
    · refine .inr (Nat.mod_two_ne_one.mp fun odd => decided ?_)
      exact isMidway_of_tie ordinary filled shorter several fewest nearest divides less holds tie
        writes odd
    · exact .inl rfl

end Several

section Single

variable (fewest : format.IsFewest magnitude 1) {coarse fine : Nat}
  (hitCoarse : (format.interval magnitude).hit? (10 ^ (format.digitCount magnitude - 1)) =
    some coarse)
  (hitFine : (format.interval magnitude).hit? (10 ^ (format.digitCount magnitude - 2)) =
    some fine)

include fewest hitCoarse hitFine

/-- One digit is kept exactly where no two digits come nearer. -/
theorem isManagedDecimal_iff_distance_le :
    format.IsManagedDecimal magnitude (format.numberAt coarse) ↔
      (format.interval magnitude).distance coarse ≤ (format.interval magnitude).distance fine := by
  have centred := holds_interval_value ordinary filled
  have nearestCoarse := isNearest_of_hit? centred (Nat.pow_pos (by decide)) hitCoarse
  have nearestFine := isNearest_of_hit? centred (Nat.pow_pos (by decide)) hitFine
  have two : 2 ≤ format.digitCount magnitude := format.two_le_digitCount filled
  have one : 1 ≤ format.digitCount magnitude := Nat.le_of_succ_le two
  rw [← distance_le_iff]
  constructor
  · rintro ⟨chosen, significand, exponent, managed⟩
    rw [managed.fewest.unique fewest] at managed
    obtain ⟨_, _, writes, _⟩ := exists_writes ordinary filled two Nat.two_pos nearestFine
    exact (managed.nearest _ ⟨_, _, writes⟩
      ((holds_iff_roundsTo ordinary filled).mp nearestFine.inside)).1
  · intro near
    obtain ⟨digit, exponent, writes, _⟩ :=
      exists_writes ordinary filled one Nat.one_pos nearestCoarse
    refine ⟨1, 10 * digit, exponent - 1, fewest, ?_,
      (holds_iff_roundsTo ordinary filled).mp nearestCoarse.inside,
      fun number length rounds => ⟨near.trans ?_, fun _ => .inr (by omega)⟩⟩
    · exact writes.append_zero
    · rcases nearer_of_isNearest ordinary filled two nearestFine length rounds
        with strict | ⟨other, _, _, _, rfl, tie⟩
      · exact strict.le
      · exact (distance_le_iff format magnitude).mpr tie.le

omit hitCoarse in
/-- Where one digit would do the runtime chooses the nearest decimal of two digits. -/
theorem isManagedDecimal_of_hit? (below : fine ≤ (format.interval magnitude).value) :
    format.IsManagedDecimal magnitude (format.numberAt fine) := by
  have centred := holds_interval_value ordinary filled
  have nearest := isNearest_of_hit? centred (Nat.pow_pos (by decide)) hitFine
  have two : 2 ≤ format.digitCount magnitude := format.two_le_digitCount filled
  obtain ⟨significand, exponent, writes, _⟩ :=
    exists_writes ordinary filled two Nat.two_pos nearest
  refine ⟨1, significand, exponent, fewest, writes,
    (holds_iff_roundsTo ordinary filled).mp nearest.inside, fun number length rounds => ?_⟩
  rcases nearer_of_isNearest ordinary filled two nearest length rounds
    with strict | ⟨other, _, less, _, rfl, tie⟩
  · exact ⟨strict.le, fun same => absurd same strict.ne⟩
  · have same : other = fine := by
      simp only [distance] at tie
      omega
    rw [same]
    exact ⟨le_rfl, fun _ => .inl rfl⟩

end Single

/-- The shortest decimal is the choice of the runtime unless a second digit comes nearer or a tie
goes the other way. -/
theorem isManagedDecimal_shortest_iff :
    format.IsManagedDecimal magnitude (format.shortest magnitude).value ↔
      (format.interval magnitude).strays (format.digitCount magnitude) = false ∧
        ¬ format.IsMidway magnitude := by
  have centred := holds_interval_value ordinary filled
  have shortest := format.value_shortest filled
  obtain ⟨count, filledCount, shorter, fewest, hit⟩ := exists_isFewest ordinary filled
  have nearest := isNearest_of_hit? centred (Nat.pow_pos (by decide)) hit
  have undecided (midway : format.IsMidway magnitude) :
      ¬ format.IsManagedDecimal magnitude (format.shortest magnitude).value := by
    obtain ⟨chosen, significand, exponent, halves⟩ := midway
    have same := halves.fewest.unique fewest
    subst same
    rw [shortest, halves.numberAt_eq ordinary filled shorter nearest]
    exact halves.not_isManagedDecimal
  rw [shortest] at undecided ⊢
  rcases Nat.lt_or_ge 1 count with several | single
  · have noDigit : (format.interval magnitude).hit? (10 ^ (format.digitCount magnitude - 1)) =
        none := hit?_eq_none ordinary filled shorter fewest Nat.one_pos several
    have kept : (format.interval magnitude).strays (format.digitCount magnitude) = false := by
      rw [strays, noDigit]
    rw [kept]
    exact ⟨fun managed => ⟨rfl, fun midway => undecided midway managed⟩, fun decided =>
      isManagedDecimal_of_not_isMidway ordinary filled shorter several fewest nearest decided.2⟩
  · have one : count = 1 := Nat.le_antisymm single filledCount
    subst one
    obtain ⟨point, fine⟩ := nearest.exists_hit? centred (Nat.pow_pos (by decide))
      (pow_dvd_pow 10 (Nat.sub_le_sub_left one_le_two (format.digitCount magnitude)))
    have kept := isManagedDecimal_iff_distance_le ordinary filled fewest hit fine
    have same : (format.interval magnitude).strays (format.digitCount magnitude) = false ↔
        (format.interval magnitude).distance (format.interval magnitude).shortest ≤
          (format.interval magnitude).distance point := by
      rw [strays, hit, fine]
      simp
    rw [same, ← kept]
    exact ⟨fun managed => ⟨managed, fun midway => undecided midway managed⟩, And.left⟩

/-- Where the significand has three digits a second digit never comes nearer than one: the
interval is too narrow for that. -/
theorem strays_eq_false (long : 100 ≤ format.significand magnitude) :
    (format.interval magnitude).strays (format.digitCount magnitude) = false := by
  have centred := holds_interval_value ordinary filled
  unfold strays
  split
  · next coarse fine hitCoarse hitFine =>
    have nearestCoarse := isNearest_of_hit? centred (Nat.pow_pos (by decide)) hitCoarse
    have nearestFine := isNearest_of_hit? centred (Nat.pow_pos (by decide)) hitFine
    refine decide_eq_false fun nearer => ?_
    have divides : 10 ^ (format.digitCount magnitude - 2) ∣ coarse :=
      (pow_dvd_pow 10 (Nat.sub_le_sub_left one_le_two _)).trans nearestCoarse.divides
    have apart := lt_distance_of_nearer nearestFine.divides divides nearer
    have narrow : 200 * (format.interval magnitude).distance coarse ≤
        (format.interval magnitude).value := by
      calc 200 * (format.interval magnitude).distance coarse
          ≤ 200 * (2 * (2 ^ format.scale magnitude * 5 ^ format.places)) :=
            Nat.mul_le_mul_left 200 (distance_le_of_holds nearestCoarse.inside)
        _ = 4 * 100 * (2 ^ format.scale magnitude * 5 ^ format.places) := by ring
        _ ≤ 4 * format.significand magnitude * (2 ^ format.scale magnitude * 5 ^ format.places) :=
            Nat.mul_le_mul_right _ (Nat.mul_le_mul_left 4 long)
    have power : 10 ^ format.digitCount magnitude =
        10 ^ (format.digitCount magnitude - 2) * 10 ^ 2 := by
      rw [← Nat.pow_add, Nat.sub_add_cancel (format.two_le_digitCount filled)]
    have := (format.value_bounds filled).2
    omega
  · rfl

end Magnitude

/-- Below one hundred the magnitudes listed are those for which a second digit comes nearer. -/
def straysListed (format : BinaryFormat) (lengths listed : List Nat) : Bool :=
  (List.range 100).all fun magnitude => magnitude = 0 || lengths.any fun length =>
    10 ^ (length - 1) ≤ (format.interval magnitude).value &&
      (format.interval magnitude).value < 10 ^ length &&
        (format.interval magnitude).strays length = decide (magnitude ∈ listed)

theorem straysListed_single :
    single.straysListed [107, 108, 109] [1, 2, 3, 4, 6, 7, 21, 29, 71] = true := by decide +kernel

theorem straysListed_double :
    double.straysListed [753, 754, 755] [1, 2, 10, 12, 14, 16, 18, 20] = true := by decide +kernel

theorem strays_eq_decide (ordinary : format.IsOrdinary) (filled : magnitude ≠ 0)
    (wide : 100 ≤ 2 ^ format.fractionBits) {lengths listed : List Nat}
    (small : ∀ listedMagnitude ∈ listed, listedMagnitude < 100)
    (checked : format.straysListed lengths listed = true) :
    (format.interval magnitude).strays (format.digitCount magnitude) =
      decide (magnitude ∈ listed) := by
  rcases Nat.lt_or_ge magnitude 100 with below | above
  · have entry := List.all_eq_true.mp checked magnitude (List.mem_range.mpr below)
    rw [decide_eq_false filled, Bool.false_or, List.any_eq_true] at entry
    obtain ⟨length, _, entry⟩ := entry
    simp only [Bool.and_eq_true, decide_eq_true_eq] at entry
    rw [digitCount_eq entry.1.1 entry.1.2]
    exact entry.2
  · have long : 100 ≤ format.significand magnitude := by
      unfold significand
      split
      · exact above
      · exact wide.trans (Nat.le_add_right _ _)
    rw [strays_eq_false ordinary filled long, eq_comm, decide_eq_false_iff_not]
    exact fun member => absurd (small magnitude member) (Nat.not_lt.mpr above)

end BinaryFormat

end NativePeer.Number
