import NativePeer.Proofs.Native.Reading
import NativePeer.Proofs.Number.Managed

/-
This file says for which floating constants the literal is the text of the managed runtime.
-/

namespace NativePeer

open Number

namespace Number

/-- The layout of the managed runtime: plain from a thousandth up to ten million, and otherwise
with one digit that is not zero before the point. No zero is superfluous. -/
structure Layout.IsManaged (layout : Layout) : Prop where
  plain : layout.exponent = none ↔ 10 ^ (-3 : Int) ≤ layout.value ∧ layout.value < 10 ^ (7 : Int)
  whole : layout.whole = ['0'] ∨ layout.whole.head? ≠ some '0'
  fraction : layout.fraction = ['0'] ∨ layout.fraction.getLast? ≠ some '0'
  scientific : layout.exponent ≠ none → layout.whole.length = 1 ∧ layout.whole ≠ ['0']

/-- A text has one value. -/
theorem Layout.value_eq_of_signed {negative : Bool} {first second : Layout}
    (same : first.signed negative = second.signed negative) : first.value = second.value := by
  have read := first.reading?_signed negative
  rw [same, second.reading?_signed, Option.some_inj, Reading.mk.injEq,
    Magnitude.finite.injEq] at read
  rw [Layout.value, Layout.value, read.2.1, read.2.2]

namespace Scientific

/-- Neither the first digit nor the last is zero, and the exponent is that of the first. -/
structure IsCanonical (decimal : Scientific) : Prop extends decimal.IsProper where
  head : decimal.digits.head? ≠ some '0'
  last : decimal.digits.getLast? ≠ some '0'
  lower : 10 ^ decimal.exponent ≤ decimal.value
  upper : decimal.value < 10 ^ (decimal.exponent + 1)

theorem isCanonical_ofFixed {value : Nat} (places : Nat) (filled : value ≠ 0) :
    (ofFixed value places).IsCanonical where
  toIsProper := isProper_ofFixed places filled
  head := by
    obtain ⟨zeros, split⟩ := exists_toDigits_eq_append value places
    have first := head_toDigits filled
    rwa [split, List.head?_append_of_ne_nil _ (isProper_ofFixed places filled).filled] at first
  last := by
    intro zero
    rw [ofFixed, List.getLast?_reverse] at zero
    have stops := List.head?_dropWhile_not (· = '0') (Nat.toDigits 10 value).reverse
    rw [zero] at stops
    cases stops
  lower := by
    have order : (ofFixed value places).exponent + places =
        ((Nat.toDigits 10 value).length - 1 : Nat) := by
      have some : 0 < (Nat.toDigits 10 value).length :=
        List.length_pos_of_ne_nil Nat.toDigits_ne_nil
      simp only [ofFixed]
      omega
    rw [value_ofFixed, le_div_iff₀ (by positivity), ← zpow_natCast, ← zpow_add₀ (by norm_num),
      order, zpow_natCast]
    exact_mod_cast pow_pred_length_toDigits_le filled
  upper := by
    have order : (ofFixed value places).exponent + 1 + places =
        ((Nat.toDigits 10 value).length : Nat) := by
      simp only [ofFixed]
      omega
    rw [value_ofFixed, div_lt_iff₀ (by positivity), ← zpow_natCast, ← zpow_add₀ (by norm_num),
      order, zpow_natCast]
    exact_mod_cast lt_pow_length_toDigits value

section IsCanonical

variable {decimal : Scientific} (canonical : decimal.IsCanonical)

include canonical

theorem IsCanonical.plain_iff :
    canonical.layout.exponent = none ↔
      10 ^ (-3 : Int) ≤ canonical.layout.value ∧ canonical.layout.value < 10 ^ (7 : Int) := by
  rw [canonical.exponent_layout, canonical.value_layout]
  have ten : (1 : ℚ) < 10 := by norm_num
  split
  · next near =>
    refine ⟨fun _ => ⟨?_, ?_⟩, fun _ => rfl⟩
    · exact (zpow_le_zpow_right₀ ten.le near.1).trans canonical.lower
    · exact canonical.upper.trans_le (zpow_le_zpow_right₀ ten.le near.2)
  · next far =>
    refine ⟨(nomatch ·), fun within => absurd ?_ far⟩
    have lower := within.1.trans_lt canonical.upper
    have upper := canonical.lower.trans_lt within.2
    rw [zpow_lt_zpow_iff_right₀ ten] at lower upper
    omega

theorem IsCanonical.isManaged_layout : canonical.layout.IsManaged where
  plain := canonical.plain_iff
  whole := canonical.whole_layout canonical.head
  fraction := by
    have last (count : Nat) :
        (if decimal.digits.length ≤ count then ['0'] else decimal.digits.drop count) = ['0'] ∨
          (if decimal.digits.length ≤ count then ['0']
            else decimal.digits.drop count).getLast? ≠ some '0' := by
      split
      · exact .inl rfl
      · next long =>
        rw [List.getLast?_drop, if_neg long]
        exact .inr canonical.last
    unfold IsProper.layout
    split
    · exact last _
    · split
      · refine .inr ?_
        rw [Layout.ofFraction, List.getLast?_append_of_ne_nil _ canonical.filled]
        exact canonical.last
      · exact last _
  scientific := by
    obtain ⟨digit, rest, shape⟩ := List.exists_cons_of_ne_nil canonical.filled
    have head := canonical.head
    unfold IsProper.layout
    split
    · exact fun some => absurd rfl some
    · split
      · exact fun some => absurd rfl some
      · intro _
        have whole : decimal.digits.take 1 ++ List.replicate (1 - decimal.digits.length) '0' =
            [digit] := by simp [shape]
        rw [shape, List.head?_cons] at head
        simp only [Layout.ofDigits, whole]
        exact ⟨rfl, fun zero => head (congrArg List.head? zero)⟩

end IsCanonical

end Scientific

namespace BinaryFormat

/-- The text that the managed runtime gives a magnitude and its sign. -/
def IsManagedText (format : BinaryFormat) (negative : Bool) (magnitude : Nat)
    (letters : List Char) : Prop :=
  ∃ layout : Layout, layout.IsManaged ∧ format.IsManagedDecimal magnitude layout.value ∧
    letters = layout.signed negative

/-- The same layout, but of the shortest decimal. -/
def IsShortestText (format : BinaryFormat) (negative : Bool) (magnitude : Nat)
    (letters : List Char) : Prop :=
  ∃ layout : Layout, layout.IsManaged ∧
    (∃ count, format.IsShortest magnitude count layout.value) ∧ letters = layout.signed negative

section Text

variable {format : BinaryFormat} {magnitude : Nat} (ordinary : format.IsOrdinary)
  (filled : magnitude ≠ 0) (negative : Bool)

include ordinary filled

theorem isCanonical_shortest : (format.shortest magnitude).IsCanonical := by
  rw [shortest, if_neg filled]
  exact Scientific.isCanonical_ofFixed _ (shortest_ne_zero ordinary filled)

theorem isShortestText_text :
    format.IsShortestText negative magnitude ((format.shortest magnitude).text negative) := by
  have canonical := isCanonical_shortest ordinary filled
  obtain ⟨count, shortest⟩ := exists_isShortest ordinary filled
  refine ⟨canonical.layout, canonical.isManaged_layout, ⟨count, ?_⟩, ?_⟩
  · rwa [canonical.value_layout]
  · exact (canonical.signed_layout negative).symm

theorem isManagedText_text_iff :
    format.IsManagedText negative magnitude ((format.shortest magnitude).text negative) ↔
      format.IsManagedDecimal magnitude (format.shortest magnitude).value := by
  have canonical := isCanonical_shortest ordinary filled
  rw [← canonical.signed_layout, ← canonical.value_layout]
  constructor
  · rintro ⟨layout, _, decimal, same⟩
    rwa [Layout.value_eq_of_signed same]
  · exact fun decimal => ⟨_, canonical.isManaged_layout, decimal, rfl⟩

end Text

/-- The runtime gives the least positive double a second digit. -/
theorem isManagedText_least : double.IsManagedText false 1 "4.9E-324".toList := by
  have ordinary := double_isOrdinary
  have filled : 1 ≠ 0 := Nat.one_ne_zero
  have digits : double.digitCount 1 = 753 :=
    digitCount_eq (by decide +kernel) (by decide +kernel)
  have one : double.IsFewest 1 1 := by
    have hit : (double.interval 1).hit? (10 ^ (753 - 1)) = some (5 * 10 ^ 752) := by
      decide +kernel
    rw [← digits] at hit
    exact isFewest_one_of_hit? ordinary filled hit
  have managed : double.IsManagedDecimal 1
      (double.numberAt (49 * 10 ^ 751)) := by
    have hit : (double.interval 1).hit? (10 ^ (753 - 2)) = some (49 * 10 ^ 751) := by
      decide +kernel
    rw [← digits] at hit
    exact isManagedDecimal_of_hit? ordinary filled one hit (by decide +kernel)
  have writes : Writes 2 49 (-325) (Scientific.mk ['4', '9'] (-324)).value :=
    ⟨by decide, by decide, rfl⟩
  have value : (Scientific.mk ['4', '9'] (-324)).value =
      double.numberAt (49 * 10 ^ 751) := by
    have order : (-325 : Int) = (751 : Nat) - (1076 : Nat) := by decide
    have places : double.places = 1076 := by decide
    rw [writes.value, numberAt, places, order, zpow_sub₀ (by norm_num), zpow_natCast,
      zpow_natCast]
    simp only [Nat.cast_mul, Nat.cast_pow, Nat.cast_ofNat, mul_div_assoc]
  have canonical : (Scientific.mk ['4', '9'] (-324)).IsCanonical :=
    ⟨⟨List.cons_ne_nil _ _, List.all_eq_true.mp rfl⟩, by decide, by decide,
      writes.ten_zpow_le, writes.lt_ten_zpow⟩
  refine ⟨canonical.layout, canonical.isManaged_layout, ?_, ?_⟩
  · rwa [canonical.value_layout, value]
  · exact (canonical.letters_layout.trans (by decide)).symm

end BinaryFormat

end Number

namespace Constant

/-- The literal of a finite number that is not zero has the layout of the managed runtime and the
fewest digits, and it is the text of the runtime except where a second digit comes nearer to the
value than one digit does, which is listed, and where a tie goes up to an odd digit. -/
theorem literal_managed_iff (host : Host) :
    (∀ bits : UInt32, (Constant.float bits).IsFinite →
      BinaryFormat.single.magnitude bits.toNat ≠ 0 →
        let negative := BinaryFormat.single.isNegative bits.toNat
        let magnitude := BinaryFormat.single.magnitude bits.toNat
        ∃ letters, (Constant.float bits).literal host = String.ofList letters ++ "f" ∧
          BinaryFormat.single.IsShortestText negative magnitude letters ∧
            (BinaryFormat.single.IsManagedText negative magnitude letters ↔
              magnitude ∉ [1, 2, 3, 4, 6, 7, 21, 29, 71] ∧
                ¬ BinaryFormat.single.IsMidway magnitude)) ∧
    ∀ bits : UInt64, (Constant.double bits).IsFinite →
      BinaryFormat.double.magnitude bits.toNat ≠ 0 →
        let negative := BinaryFormat.double.isNegative bits.toNat
        let magnitude := BinaryFormat.double.magnitude bits.toNat
        ∃ letters, (Constant.double bits).literal host = String.ofList letters ∧
          BinaryFormat.double.IsShortestText negative magnitude letters ∧
            (BinaryFormat.double.IsManagedText negative magnitude letters ↔
              magnitude ∉ [1, 2, 10, 12, 14, 16, 18, 20] ∧
                ¬ BinaryFormat.double.IsMidway magnitude) := by
  have text {format : BinaryFormat} (ordinary : format.IsOrdinary)
      (wide : 100 ≤ 2 ^ format.fractionBits) {lengths listed : List Nat}
      (small : ∀ magnitude ∈ listed, magnitude < 100)
      (checked : format.straysListed lengths listed = true) (negative : Bool) {magnitude : Nat}
      (filled : magnitude ≠ 0) :
      format.IsManagedText negative magnitude ((format.shortest magnitude).text negative) ↔
        magnitude ∉ listed ∧ ¬ format.IsMidway magnitude := by
    rw [BinaryFormat.isManagedText_text_iff ordinary filled,
      BinaryFormat.isManagedDecimal_shortest_iff ordinary filled,
      BinaryFormat.strays_eq_decide ordinary filled wide small checked, decide_eq_false_iff_not]
  refine ⟨fun bits finite filled => ?_, fun bits finite filled => ?_⟩
  · exact ⟨_, floatLiteral_of_finite finite singleWords,
      BinaryFormat.isShortestText_text BinaryFormat.single_isOrdinary filled _,
      text BinaryFormat.single_isOrdinary (by decide) (by decide) BinaryFormat.straysListed_single
        _ filled⟩
  · exact ⟨_, (floatLiteral_of_finite finite doubleWords).trans String.append_empty,
      BinaryFormat.isShortestText_text BinaryFormat.double_isOrdinary filled _,
      text BinaryFormat.double_isOrdinary (by decide) (by decide) BinaryFormat.straysListed_double
        _ filled⟩

/-- One is written as the runtime writes it, and the least positive double is not. -/
theorem literal_managed_iff_least :
    ((Constant.float 0x3F800000).literal .unix = "1.0f" ∧
      BinaryFormat.single.IsManagedText false 0x3F800000 ['1', '.', '0']) ∧
    ((Constant.double 1).literal .unix = "5.0E-324" ∧
      ¬ BinaryFormat.double.IsManagedText false 1 "5.0E-324".toList ∧
        BinaryFormat.double.IsManagedText false 1 "4.9E-324".toList) := by
  constructor
  · have one : BinaryFormat.single.value 0x3F800000 = 1 := by
      have units : BinaryFormat.single.units 0x3F800000 = 2 ^ BinaryFormat.single.depth := by decide
      rw [BinaryFormat.value, units, Nat.cast_pow, Nat.cast_ofNat, div_self (by positivity)]
    have written : (Constant.float 0x3F800000).literal .unix = "1.0f" := by decide +kernel
    obtain ⟨letters, literal, _, iff⟩ := (literal_managed_iff .unix).1 0x3F800000
      (Nat.lt_of_sub_ne_zero (by decide)) (by decide)
    refine ⟨written, ?_⟩
    have same : letters = ['1', '.', '0'] := by
      have texts : ['1', '.', '0'] ++ ['f'] = letters ++ ['f'] := by
        have whole := congrArg String.toList (written.symm.trans literal)
        rw [String.toList_append, @String.toList_ofList letters] at whole
        exact whole
      exact (List.append_cancel_right texts).symm
    have length : HasLength 1 (BinaryFormat.single.value 0x3F800000) :=
      ⟨1, 0, by decide, by decide, by rw [one]; norm_num⟩
    have fewest := BinaryFormat.isFewest_one length (BinaryFormat.roundsTo_value _ _)
    rw [← same]
    exact iff.mpr ⟨by decide, BinaryFormat.not_isMidway_of_hasLength fewest length⟩
  · have written : (Constant.double 1).literal .unix = "5.0E-324" := by decide +kernel
    obtain ⟨letters, literal, _, iff⟩ := (literal_managed_iff .unix).2 1
      (Nat.lt_of_sub_ne_zero (by decide)) (by decide)
    refine ⟨written, fun managed => ?_, BinaryFormat.isManagedText_least⟩
    rw [written.symm.trans literal, String.toList_ofList] at managed
    exact (iff.mp managed).1 (by decide)

end Constant

end NativePeer
