import NativePeer.Proofs.Number.Layout
import NativePeer.Proofs.Number.Rounding

/-
This file shows that the shortest decimal of a magnitude rounds to it and that no shorter one does.
-/

namespace NativePeer.Number

/-- The first answer in a range comes after none. -/
theorem exists_first_of_findSome? {A : Type} {test : Nat → Option A} {length : Nat} {answer : A}
    (found : (List.range length).findSome? test = some answer) :
    ∃ count, count < length ∧ test count = some answer ∧
      ∀ earlier, earlier < count → test earlier = none := by
  induction length with
  | zero => cases found
  | succ length inductionHypothesis =>
    rw [List.range_succ, List.findSome?_append] at found
    cases begun : (List.range length).findSome? test with
    | some first =>
      rw [begun] at found
      obtain ⟨count, inside, rest⟩ := inductionHypothesis (begun.trans found)
      exact ⟨count, Nat.lt_succ_of_lt inside, rest⟩
    | none =>
      rw [begun, Option.none_or, List.findSome?_singleton] at found
      exact ⟨length, length.lt_succ_self, found, fun earlier less =>
        List.findSome?_eq_none_iff.mp begun earlier (List.mem_range.mpr less)⟩

namespace RoundingInterval

variable (interval : RoundingInterval)

def distance (point : Nat) : Nat :=
  (interval.value - point) + (point - interval.value)

/-- Of the multiples of a step in the interval none is nearer to the value, and of two that are
equally near the point is the greater. -/
structure IsNearest (step point : Nat) : Prop where
  divides : step ∣ point
  inside : interval.holds point = true
  nearest : ∀ other, step ∣ other → interval.holds other = true →
    interval.distance point < interval.distance other ∨
      interval.distance point = interval.distance other ∧ other ≤ point

variable {interval}

theorem holds_of_between {first second point : Nat} (begun : interval.holds first = true)
    (ended : interval.holds second = true) (above : first ≤ point) (below : point ≤ second) :
    interval.holds point = true := by
  unfold holds at *
  split at * <;> simp_all <;> omega

/-- Two multiples of a step are a step apart. -/
theorem add_step_le {step lesser greater : Nat} (first : step ∣ lesser) (second : step ∣ greater)
    (less : lesser < greater) : lesser + step ≤ greater := by
  have apart := Nat.le_of_dvd (Nat.sub_pos_of_lt less) (Nat.dvd_sub second first)
  omega

/-- The two multiples of a step around the value have no other between them. -/
theorem multiple_outside (value : Nat) {step other : Nat} (divides : step ∣ other) :
    other ≤ value / step * step ∨ value / step * step + step ≤ other := by
  obtain ⟨count, rfl⟩ := divides
  rw [Nat.mul_comm step, ← Nat.succ_mul]
  rcases Nat.lt_or_ge (value / step) count with greater | less
  · exact .inr (Nat.mul_le_mul_right step greater)
  · exact .inl (Nat.mul_le_mul_right step less)

section Hit

variable (centred : interval.holds interval.value = true) {step : Nat} (positive : 0 < step)

include centred positive

theorem isNearest_of_hit? {point : Nat} (hit : interval.hit? step = some point) :
    interval.IsNearest step point := by
  have below := Nat.div_mul_le_self interval.value step
  have above := Nat.lt_div_mul_add positive (a := interval.value)
  have down : step ∣ interval.value / step * step := Nat.dvd_mul_left _ _
  have up : step ∣ interval.value / step * step + step := Nat.dvd_add down (Nat.dvd_refl step)
  have outside {other : Nat} (divides : step ∣ other) := multiple_outside interval.value divides
  unfold hit? at hit
  dsimp only at hit
  generalize interval.value / step * step = lesser at *
  split at hit
  · next lesserHolds greaterHolds =>
    split at hit <;> cases hit
    · refine ⟨down, lesserHolds, fun other divides _ => ?_⟩
      have := outside divides
      simp only [distance]
      omega
    · refine ⟨up, greaterHolds, fun other divides _ => ?_⟩
      have := outside divides
      simp only [distance]
      omega
  · next lesserHolds greaterMisses =>
    cases hit
    refine ⟨down, lesserHolds, fun other divides holds => ?_⟩
    rcases outside divides with less | greater
    · simp only [distance]
      omega
    · rw [holds_of_between centred holds above.le greater] at greaterMisses
      cases greaterMisses
  · next lesserMisses greaterHolds =>
    cases hit
    refine ⟨up, greaterHolds, fun other divides holds => ?_⟩
    rcases outside divides with less | greater
    · rw [holds_of_between holds centred less below] at lesserMisses
      cases lesserMisses
    · simp only [distance]
      omega
  · cases hit

/-- Where the neighbours of the value are not in the interval no multiple of the step is. -/
theorem not_holds_of_hit? (missed : interval.hit? step = none) {point : Nat}
    (divides : step ∣ point) : interval.holds point = false := by
  have below := Nat.div_mul_le_self interval.value step
  have above := Nat.lt_div_mul_add positive (a := interval.value)
  unfold hit? at missed
  dsimp only at missed
  rw [← Bool.not_eq_true]
  intro holds
  split at missed
  · cases missed
  · cases missed
  · cases missed
  · next lesserMisses greaterMisses =>
    rcases multiple_outside interval.value divides with less | greater
    · rw [holds_of_between holds centred less below] at lesserMisses
      cases lesserMisses
    · rw [holds_of_between centred holds above.le greater] at greaterMisses
      cases greaterMisses

end Hit

/-- No multiple of the step lies between the nearest one and the value. -/
theorem IsNearest.le_point {step point other : Nat} (nearest : interval.IsNearest step point)
    (centred : interval.holds interval.value = true) (divides : step ∣ other)
    (below : other ≤ interval.value) : other ≤ point := by
  refine Nat.not_lt.mp fun less => ?_
  have inside := holds_of_between nearest.inside centred less.le below
  have := nearest.nearest other divides inside
  simp only [distance] at this
  omega

theorem IsNearest.point_le {step point other : Nat} (nearest : interval.IsNearest step point)
    (centred : interval.holds interval.value = true) (divides : step ∣ other)
    (above : interval.value ≤ other) : point ≤ other := by
  refine Nat.not_lt.mp fun greater => ?_
  have inside := holds_of_between centred nearest.inside above greater.le
  have := nearest.nearest other divides inside
  simp only [distance] at this
  omega

/-- A finer grid has a point where the grid itself has one. -/
theorem IsNearest.exists_hit? {fine step point : Nat} (nearest : interval.IsNearest step point)
    (centred : interval.holds interval.value = true) (positive : 0 < fine)
    (divides : fine ∣ step) : ∃ other, interval.hit? fine = some other := by
  cases hit : interval.hit? fine with
  | some other => exact ⟨other, rfl⟩
  | none =>
    have holds := nearest.inside
    rw [not_holds_of_hit? centred positive hit (divides.trans nearest.divides)] at holds
    cases holds

/-- Between a multiple of the step and the nearest one, as far above the value, is no other. -/
theorem IsNearest.eq_of_tie {step point other : Nat} (nearest : interval.IsNearest step point)
    (positive : 0 < step) (divides : step ∣ other) (less : other < point)
    (holds : interval.holds other = true)
    (tie : interval.distance point = interval.distance other) :
    point = other + step ∧ 2 * interval.value = other + point := by
  have apart := add_step_le divides nearest.divides less
  have inside := holds_of_between holds nearest.inside (Nat.le_add_right other _) apart
  have near := nearest.nearest _ (Nat.dvd_add divides (Nat.dvd_refl _)) inside
  simp only [distance] at tie near
  omega

/-- Of two multiples of a step one is further from the value than half the step. -/
theorem lt_distance_of_nearer {step near far : Nat} (first : step ∣ near) (second : step ∣ far)
    (nearer : interval.distance near < interval.distance far) :
    step < 2 * interval.distance far := by
  rcases Nat.lt_trichotomy near far with less | rfl | greater
  · have apart := add_step_le first second less
    simp only [distance] at *
    omega
  · exact absurd nearer (lt_irrefl _)
  · have apart := add_step_le second first greater
    simp only [distance] at *
    omega

/-- On the finest grid the value itself is a point. -/
theorem isSome_hit?_one (centred : interval.holds interval.value = true) :
    (interval.hit? 1).isSome = true := by
  unfold hit?
  dsimp only
  rw [Nat.div_one, Nat.mul_one, centred]
  split <;> first | rfl | contradiction

/-- The shortest point of an interval has the fewest digits for which there is one. -/
theorem exists_hit?_shortest (centred : interval.holds interval.value = true) :
    ∃ digits, 0 < digits ∧ digits ≤ (Nat.toDigits 10 interval.value).length ∧
      interval.hit? (10 ^ ((Nat.toDigits 10 interval.value).length - digits)) =
          some interval.shortest ∧
        ∀ fewer, 0 < fewer → fewer < digits →
          interval.hit? (10 ^ ((Nat.toDigits 10 interval.value).length - fewer)) = none := by
  have positive := List.length_pos_of_ne_nil (Nat.toDigits_ne_nil (b := 10) (n := interval.value))
  unfold shortest
  generalize (Nat.toDigits 10 interval.value).length = length at *
  dsimp only
  cases found : (List.range length).findSome? fun digit =>
      interval.hit? (Nat.pow 10 (length - 1 - digit)) with
  | none =>
    have last := List.findSome?_eq_none_iff.mp found (length - 1) (List.mem_range.mpr (by omega))
    have some := isSome_hit?_one centred
    rw [Nat.sub_self] at last
    rw [show (1 : Nat) = Nat.pow 10 0 from rfl, last] at some
    cases some
  | some point =>
    obtain ⟨count, inside, hit, missed⟩ := exists_first_of_findSome? found
    refine ⟨count + 1, count.succ_pos, inside, ?_, fun fewer filled less => ?_⟩
    · rw [Nat.add_comm, ← Nat.sub_sub]
      exact hit
    · have earlier := missed (fewer - 1) (by omega)
      rwa [Nat.pow_eq, Nat.sub_sub, Nat.add_sub_cancel' filled] at earlier

end RoundingInterval

namespace BinaryFormat

variable {format : BinaryFormat} {magnitude : Nat}

theorem significand_pos (filled : magnitude ≠ 0) : 0 < format.significand magnitude := by
  unfold significand
  split
  · exact Nat.pos_of_ne_zero filled
  · exact Nat.add_pos_left (Nat.pow_pos Nat.two_pos) _

/-- How many quarters of the spacing lie halfway to the magnitude before. -/
def quartersBelow (format : BinaryFormat) (magnitude : Nat) : Nat :=
  if format.significand magnitude = Nat.pow 2 format.fractionBits ∧ format.scale magnitude ≠ 0
    then 1 else 2

theorem quartersBelow_le (format : BinaryFormat) (magnitude : Nat) :
    format.quartersBelow magnitude ≤ 2 := by
  unfold quartersBelow
  split <;> decide

/-- The magnitude before lies one spacing back, or half of that below a power of two. -/
theorem units_pred (filled : magnitude ≠ 0) :
    2 * format.units magnitude = 2 * format.units (magnitude - 1) +
      format.quartersBelow magnitude * 2 ^ format.scale magnitude := by
  have make := format.scale_mul_add_significand magnitude
  have normal := format.scale_eq_zero_or_le_significand magnitude
  have bounded := format.significand_lt magnitude
  have positive : 0 < format.significand magnitude := significand_pos filled
  have here : format.units magnitude =
      format.significand magnitude * 2 ^ format.scale magnitude := rfl
  rw [here, quartersBelow, Nat.pow_eq]
  generalize format.significand magnitude = significand at *
  generalize format.scale magnitude = scale at *
  obtain ⟨previous, rfl⟩ := Nat.exists_eq_add_of_lt positive
  rw [Nat.zero_add] at *
  split
  · next narrow =>
    obtain ⟨least, raised⟩ := narrow
    obtain ⟨lower, rfl⟩ := Nat.exists_eq_succ_of_ne_zero raised
    have before : magnitude - 1 = lower * 2 ^ format.fractionBits + (2 * previous + 1) := by
      rw [← make, ← least, Nat.succ_mul]
      omega
    rw [before, units_at_scale format (.inr (by omega)) (by omega), Nat.pow_succ]
    ring
  · next wide =>
    have before : magnitude - 1 = scale * 2 ^ format.fractionBits + previous := by
      rw [← make, ← Nat.add_assoc, Nat.add_sub_cancel]
    rw [before, units_at_scale format (by omega) (by omega)]
    ring

/-- The interval of a magnitude holds what rounds to it. -/
theorem holds_interval_iff_covers (ordinary : format.IsOrdinary) (filled : magnitude ≠ 0)
    {point : Nat} :
    (format.interval magnitude).holds point = true ↔
      format.Covers magnitude (point / (4 * 5 ^ format.places : Nat)) := by
  have parity : format.significand magnitude % 2 = magnitude % 2 := by
    rw [← format.mod_two_at_scale ordinary.filled (format.scale magnitude),
      scale_mul_add_significand]
  have here : format.units magnitude =
      format.significand magnitude * 2 ^ format.scale magnitude := rfl
  have lower : (format.units (magnitude - 1) + format.units magnitude) * (4 * 5 ^ format.places) =
      2 * (format.interval magnitude).lower := by
    have previous : 2 * format.units magnitude = _ := units_pred filled
    have split : (4 * format.significand magnitude - format.quartersBelow magnitude) *
        2 ^ format.scale magnitude =
          2 * (format.units (magnitude - 1) + format.units magnitude) := by
      rw [Nat.sub_mul, Nat.mul_assoc, ← here]
      omega
    calc (format.units (magnitude - 1) + format.units magnitude) * (4 * 5 ^ format.places)
        = 2 * (2 * (format.units (magnitude - 1) + format.units magnitude) *
            5 ^ format.places) := by ring
      _ = 2 * ((4 * format.significand magnitude - format.quartersBelow magnitude) *
            2 ^ format.scale magnitude * 5 ^ format.places) := by rw [split]
      _ = 2 * (format.interval magnitude).lower := by rw [Nat.mul_assoc _ (2 ^ _)]; rfl
  have upper : (format.units magnitude + format.units (magnitude + 1)) * (4 * 5 ^ format.places) =
      2 * (format.interval magnitude).upper := by
    simp only [units_succ, here, interval, Nat.pow_eq]
    ring
  have closed : (format.interval magnitude).closed = decide (magnitude % 2 = 0) := by
    rw [← parity]
    rfl
  rw [covers_div_iff (by positivity), RoundingInterval.holds, lower, upper, closed]
  rcases Nat.mod_two_eq_zero_or_one magnitude with even | odd
  · simp [even]
  · simp [odd]
    omega

/-- No point of the interval of a magnitude is further from the value than half the spacing. -/
theorem distance_le_of_holds {point : Nat}
    (holds : (format.interval magnitude).holds point = true) :
    (format.interval magnitude).distance point ≤
      2 * (2 ^ format.scale magnitude * 5 ^ format.places) := by
  have bounds : (format.interval magnitude).lower ≤ point ∧
      point ≤ (format.interval magnitude).upper := by
    unfold RoundingInterval.holds at holds
    split at holds <;> simp only [Bool.and_eq_true, decide_eq_true_eq] at holds
    · exact holds
    · exact ⟨holds.1.le, holds.2.le⟩
  have lower : (format.interval magnitude).value ≤
      (format.interval magnitude).lower + 2 * (2 ^ format.scale magnitude * 5 ^ format.places) := by
    have few := format.quartersBelow_le magnitude
    calc (format.interval magnitude).value
        = 4 * format.significand magnitude * (2 ^ format.scale magnitude * 5 ^ format.places) := rfl
      _ ≤ (4 * format.significand magnitude - format.quartersBelow magnitude + 2) *
            (2 ^ format.scale magnitude * 5 ^ format.places) :=
          Nat.mul_le_mul_right _ (by omega)
      _ = (format.interval magnitude).lower +
            2 * (2 ^ format.scale magnitude * 5 ^ format.places) := Nat.add_mul _ _ _
  have upper : (format.interval magnitude).upper = (format.interval magnitude).value +
      2 * (2 ^ format.scale magnitude * 5 ^ format.places) := Nat.add_mul _ _ _
  simp only [RoundingInterval.distance]
  omega

/-- The scale of the intervals is fine enough for quarters of a unit. -/
theorem ten_pow_places (format : BinaryFormat) :
    (10 : ℚ) ^ format.places = 2 ^ format.depth * (4 * 5 ^ format.places : Nat) := by
  have split : (2 : ℚ) ^ format.places = 2 ^ format.depth * 4 := by
    rw [places, pow_add]
    norm_num
  calc (10 : ℚ) ^ format.places = (2 * 5) ^ format.places := by norm_num
    _ = 2 ^ format.depth * 4 * 5 ^ format.places := by rw [mul_pow, split]
    _ = 2 ^ format.depth * (4 * 5 ^ format.places : Nat) := by push_cast; ring

theorem interval_value (format : BinaryFormat) (magnitude : Nat) :
    ((format.interval magnitude).value : ℚ) / 10 ^ format.places = format.value magnitude := by
  have scaled : (format.interval magnitude).value =
      format.units magnitude * (4 * 5 ^ format.places) := by
    simp only [interval, units, Nat.pow_eq]
    ring
  have positive : ((4 * 5 ^ format.places : Nat) : ℚ) ≠ 0 := by positivity
  rw [value, ten_pow_places, scaled, Nat.cast_mul, mul_div_mul_right _ _ positive]

theorem holds_interval_iff (ordinary : format.IsOrdinary) (filled : magnitude ≠ 0) {point : Nat} :
    (format.interval magnitude).holds point = true ↔
      format.RoundsTo (point / 10 ^ format.places) magnitude := by
  have positive : (2 : ℚ) ^ format.depth ≠ 0 := by positivity
  rw [holds_interval_iff_covers ordinary filled, roundsTo_iff_covers (by positivity),
    ten_pow_places, mul_comm (2 ^ format.depth), div_mul_eq_mul_div, mul_div_mul_right _ _ positive]

theorem holds_interval_value (ordinary : format.IsOrdinary) (filled : magnitude ≠ 0) :
    (format.interval magnitude).holds (format.interval magnitude).value = true := by
  rw [holds_interval_iff ordinary filled, interval_value]
  exact format.roundsTo_value magnitude

end BinaryFormat

namespace Scientific

/-- The digits of a number are those kept and the zeros at the end. -/
theorem exists_toDigits_eq_append (value places : Nat) :
    ∃ zeros, Nat.toDigits 10 value =
      (ofFixed value places).digits ++ List.replicate zeros '0' := by
  let dropped := (Nat.toDigits 10 value).reverse.takeWhile (· = '0')
  have zeros : dropped = List.replicate dropped.length '0' :=
    List.eq_replicate_of_mem fun letter member => by simpa using List.mem_takeWhile_imp member
  refine ⟨dropped.length, ?_⟩
  rw [ofFixed, ← List.reverse_replicate, ← zeros, ← List.reverse_append,
    List.takeWhile_append_dropWhile, List.reverse_reverse]

variable {value : Nat} (places : Nat)

theorem value_ofFixed (value : Nat) : (ofFixed value places).value = value / 10 ^ places := by
  obtain ⟨zeros, split⟩ := exists_toDigits_eq_append value places
  have whole : value = 10 ^ zeros * Nat.ofDigitChars 10 (ofFixed value places).digits 0 := by
    rw [← Nat.ofDigitChars_replicate_zero, ← Nat.ofDigitChars_append, ← split,
      Nat.ofDigitChars_ten_toDigits]
  have length : (Nat.toDigits 10 value).length = (ofFixed value places).digits.length + zeros := by
    rw [split, List.length_append, List.length_replicate]
  have order : (ofFixed value places).exponent + 1 - (ofFixed value places).digits.length =
      (zeros : Int) - places := by
    have : (ofFixed value places).exponent = (Nat.toDigits 10 value).length - 1 - places := rfl
    rw [this, length]
    push_cast
    ring
  rw [Scientific.value, order, zpow_sub₀ (by norm_num), zpow_natCast, zpow_natCast,
    ← mul_div_assoc, mul_comm]
  congr 1
  exact_mod_cast whole.symm

theorem numeric_ofFixed (value : Nat) :
    ∀ digit ∈ (ofFixed value places).digits, digit.isDigit = true := by
  obtain ⟨zeros, split⟩ := exists_toDigits_eq_append value places
  exact fun digit member => Nat.isDigit_of_mem_toDigits (by decide) (by decide)
    (split ▸ List.mem_append_left _ member)

variable (filled : value ≠ 0)

include filled

theorem isProper_ofFixed : (ofFixed value places).IsProper where
  filled := by
    intro empty
    have zero := value_ofFixed places value
    rw [Scientific.value, empty, Nat.ofDigitChars_nil, Nat.cast_zero, zero_mul] at zero
    exact filled (by simpa using zero.symm)
  numeric := numeric_ofFixed places value

end Scientific

namespace BinaryFormat

variable {format : BinaryFormat}

/-- The shortest point is in the interval. -/
theorem holds_shortest (ordinary : format.IsOrdinary) {magnitude : Nat} (filled : magnitude ≠ 0) :
    (format.interval magnitude).holds (format.interval magnitude).shortest = true := by
  have centred := holds_interval_value ordinary filled
  obtain ⟨digits, _, _, hit, _⟩ := RoundingInterval.exists_hit?_shortest centred
  exact (RoundingInterval.isNearest_of_hit? centred (Nat.pow_pos (by decide)) hit).inside

theorem shortest_ne_zero (ordinary : format.IsOrdinary) {magnitude : Nat} (filled : magnitude ≠ 0) :
    (format.interval magnitude).shortest ≠ 0 := by
  intro zero
  have rounds := (holds_interval_iff ordinary filled).mp (holds_shortest ordinary filled)
  rw [zero, Nat.cast_zero, zero_div, ← format.value_zero] at rounds
  exact filled (rounds.unique format.value_zero.ge (format.roundsTo_value 0))

theorem isProper_shortest (ordinary : format.IsOrdinary) (magnitude : Nat) :
    (format.shortest magnitude).IsProper := by
  unfold shortest
  split
  · exact ⟨List.cons_ne_nil _ _, List.forall_mem_singleton.mpr (by decide)⟩
  · next filled => exact Scientific.isProper_ofFixed _ (shortest_ne_zero ordinary filled)

/-- The shortest decimal of a magnitude rounds to it. -/
theorem roundsTo_value_shortest (ordinary : format.IsOrdinary) (magnitude : Nat) :
    format.RoundsTo (format.shortest magnitude).value magnitude := by
  unfold shortest
  split
  · next zero =>
    have nothing : (Scientific.mk ['0'] 0).value = format.value magnitude := by
      rw [zero, value_zero, Scientific.value]
      exact (congrArg (· * _) Nat.cast_zero).trans (zero_mul _)
    rw [nothing]
    exact format.roundsTo_value magnitude
  · next filled =>
    rw [Scientific.value_ofFixed, ← holds_interval_iff ordinary filled]
    exact holds_shortest ordinary filled

end BinaryFormat

end NativePeer.Number
