import NativePeer.Native.Literal
import NativePeer.Proofs.Number.Layout

/-
This file reads integer expressions as a native compiler does and says which literals mean their
constants.
-/

namespace NativePeer

open Number

/-- Native compilers differ in the width of `long`. -/
structure DataModel where
  longBits : Nat
  least : 32 ≤ longBits
  most : longBits ≤ 64

/-- A value of a signed type of `bits` bits. -/
structure SignedValue where
  bits : Nat
  value : Int
  lower : -2 ^ (bits - 1) ≤ value
  upper : value < 2 ^ (bits - 1)

namespace SignedValue

/-- A type that is too narrow does not hold the value. -/
def ofNat? (value bits : Nat) : Option SignedValue :=
  if fits : value < 2 ^ (bits - 1) then
    some {
      bits := bits
      value := value
      lower := (Int.neg_nonpos_of_nonneg (Int.pow_nonneg (by decide))).trans (Int.natCast_nonneg _)
      upper := mod_cast fits }
  else none

/-- The type keeps its width, so that the least value has no negation. -/
def negate? (operand : SignedValue) : Option SignedValue :=
  if fits : -operand.value < 2 ^ (operand.bits - 1) then
    some {
      bits := operand.bits
      value := -operand.value
      lower := Int.neg_le_neg operand.upper.le
      upper := fits }
  else none

theorem value_ofNat? (value bits : Nat) :
    (ofNat? value bits).map SignedValue.value =
      if value < 2 ^ (bits - 1) then some (value : Int) else none := by
  unfold ofNat?
  split <;> rfl

theorem value_negate? {operand : SignedValue} (natural : 0 ≤ operand.value) :
    operand.negate?.map SignedValue.value = some (-operand.value) := by
  have fits : -operand.value < 2 ^ (operand.bits - 1) :=
    (Int.neg_nonpos_of_nonneg natural).trans_lt (Int.pow_pos (by decide))
  rw [negate?, dif_pos fits]
  rfl

end SignedValue

/-- What may stand after the digits of an integer literal. -/
inductive IntegerSuffix where
  | long
  | longLong
  | int64
  deriving DecidableEq

namespace IntegerSuffix

def all : List IntegerSuffix := [.long, .longLong, .int64]

def text : IntegerSuffix → String
  | .long => "L"
  | .longLong => "LL"
  | .int64 => "i64"

def ofText? (text : String) : Option IntegerSuffix :=
  all.find? fun suffix => suffix.text = text

theorem ofText?_text (suffix : IntegerSuffix) : ofText? suffix.text = some suffix := by
  cases suffix <;> rfl

/-- The widths of the types that a literal may have. -/
def widths (model : DataModel) : IntegerSuffix → List Nat
  | .long => [model.longBits, 64]
  | .longLong => [64]
  | .int64 => [64]

/-- A literal has the first type that holds its value. -/
def literal? (model : DataModel) (suffix : IntegerSuffix) (value : Nat) : Option SignedValue :=
  (suffix.widths model).findSome? (SignedValue.ofNat? value)

/-- Every suffix allows a type of 64 bits and none allows a wider one. -/
theorem value_literal? (model : DataModel) (suffix : IntegerSuffix) (value : Nat) :
    (suffix.literal? model value).map SignedValue.value =
      if value < 2 ^ 63 then some (value : Int) else none := by
  have wide : ([64].findSome? (SignedValue.ofNat? value)).map SignedValue.value =
      if value < 2 ^ 63 then some (value : Int) else none := by
    rw [List.findSome?_singleton]
    exact SignedValue.value_ofNat? value 64
  cases suffix with
  | longLong => exact wide
  | int64 => exact wide
  | long =>
    have narrow := SignedValue.value_ofNat? value model.longBits
    rw [literal?, widths, List.findSome?_cons]
    by_cases fits : value < 2 ^ (model.longBits - 1)
    · have bound : 2 ^ (model.longBits - 1) ≤ 2 ^ 63 :=
        Nat.pow_le_pow_right (by decide) (Nat.sub_le_sub_right model.most 1)
      rw [if_pos fits] at narrow
      obtain ⟨typed, found, magnitude⟩ := Option.map_eq_some_iff.mp narrow
      rw [found, if_pos (fits.trans_le bound), ← magnitude]
      rfl
    · rw [if_neg fits, Option.map_eq_none_iff] at narrow
      rw [narrow]
      exact wide

/-- A negation never leaves the type of a literal. -/
theorem value_negation (model : DataModel) (suffix : IntegerSuffix) (value : Nat) :
    ((suffix.literal? model value).bind SignedValue.negate?).map SignedValue.value =
      if value < 2 ^ 63 then some (-value : Int) else none := by
  have read := suffix.value_literal? model value
  by_cases fits : value < 2 ^ 63
  · rw [if_pos fits] at read
    obtain ⟨typed, found, magnitude⟩ := Option.map_eq_some_iff.mp read
    have natural : 0 ≤ typed.value := magnitude ▸ Int.natCast_nonneg value
    rw [found, Option.bind_some, SignedValue.value_negate? natural, magnitude, if_pos fits]
  · rw [if_neg fits, Option.map_eq_none_iff] at read
    rw [read, if_neg fits]
    rfl

end IntegerSuffix

namespace DataModel

variable (model : DataModel)

/-- Digits and a suffix make a decimal literal. A zero does not lead other digits. -/
def literal? (letters : List Char) : Option SignedValue :=
  let digits := letters.takeWhile Char.isDigit
  if digits.head? = some '0' ∧ digits ≠ ['0'] then none
  else
    match digits? digits,
      IntegerSuffix.ofText? (String.ofList (letters.dropWhile Char.isDigit)) with
    | some value, some suffix => suffix.literal? model value
    | _, _ => none

/-- A minus sign is an operator and no part of the literal. -/
def evaluate? (text : String) : Option SignedValue :=
  match text.toList with
  | '-' :: letters => (model.literal? letters).bind SignedValue.negate?
  | letters => model.literal? letters

theorem literal?_naturalText (suffix : IntegerSuffix) (value : Nat) :
    model.literal? (naturalText value ++ suffix.text.toList) = suffix.literal? model value := by
  have numeric : ∀ digit ∈ naturalText value, digit.isDigit = true := fun digit member =>
    Nat.isDigit_of_mem_toDigits (by decide) (by decide) member
  have span := Layout.span_digits numeric suffix.text.toList
    (by cases suffix <;> simp [IntegerSuffix.text])
  have leading : ¬((naturalText value).head? = some '0' ∧ naturalText value ≠ ['0']) := by
    rintro ⟨zero, several⟩
    rcases Nat.eq_zero_or_pos value with rfl | positive
    · exact several rfl
    · exact head_toDigits positive.ne' zero
  rw [literal?, span.1, span.2, if_neg leading, digits?_naturalText, String.ofList_toList,
    IntegerSuffix.ofText?_text]

theorem evaluate?_ofNat (suffix : IntegerSuffix) (value : Nat) :
    model.evaluate? (Constant.integerLiteral value suffix.text) = suffix.literal? model value := by
  have letters : (Constant.integerLiteral value suffix.text).toList =
      naturalText value ++ suffix.text.toList :=
    String.toList_append.trans (congrArg (· ++ _) String.toList_ofList)
  unfold evaluate?
  rw [letters]
  split
  · next rest minus =>
    obtain ⟨digit, digits, written⟩ : ∃ digit digits, naturalText value = digit :: digits :=
      List.exists_cons_of_ne_nil Nat.toDigits_ne_nil
    rw [written, List.cons_append, List.cons.injEq] at minus
    exact absurd (naturalText_head written) (by rw [minus.1]; decide)
  · exact model.literal?_naturalText suffix value

theorem evaluate?_negSucc (suffix : IntegerSuffix) (value : Nat) :
    model.evaluate? (Constant.integerLiteral (.negSucc value) suffix.text) =
      (suffix.literal? model (value + 1)).bind SignedValue.negate? := by
  have letters : (Constant.integerLiteral (.negSucc value) suffix.text).toList =
      '-' :: (naturalText (value + 1) ++ suffix.text.toList) :=
    String.toList_append.trans (congrArg (· ++ _) String.toList_ofList)
  rw [evaluate?, letters]
  exact congrArg (·.bind SignedValue.negate?) (model.literal?_naturalText suffix (value + 1))

/-- The magnitude must fit 64 bits before the sign counts. -/
theorem value_evaluate? (suffix : IntegerSuffix) (value : Int) :
    (model.evaluate? (Constant.integerLiteral value suffix.text)).map SignedValue.value =
      if value.natAbs < 2 ^ 63 then some value else none := by
  cases value with
  | ofNat value =>
    exact (congrArg _ (model.evaluate?_ofNat suffix value)).trans
      (suffix.value_literal? model value)
  | negSucc value =>
    rw [evaluate?_negSucc]
    exact suffix.value_negation model (value + 1)

end DataModel

namespace Constant

/-- The value of an integral constant. -/
def integer? : Constant → Option Int
  | .byte value => some value.toInt
  | .char unit => some unit.toNat
  | .short value => some value.toInt
  | .int value => some value.toInt
  | .long value => some value.toInt
  | .boolean _ | .float _ | .double _ => none

/-- Only the least `long` has a magnitude of 64 bits. -/
theorem natAbs_lt_iff {constant : Constant} {value : Int}
    (integral : constant.integer? = some value) :
    value.natAbs < 2 ^ 63 ↔ constant ≠ .long Int64.minValue := by
  cases constant with
  | boolean _ | float _ | double _ => cases integral
  | char unit =>
    cases integral
    have upper := unit.toNat_lt
    exact iff_of_true (by omega) (by simp)
  | byte constant | short constant | int constant =>
    cases integral
    have lower := constant.le_toInt
    have upper := constant.toInt_lt
    exact iff_of_true (by omega) (by simp)
  | long constant =>
    cases integral
    have lower := constant.le_toInt
    have upper := constant.toInt_lt
    have least : Int64.minValue.toInt = -2 ^ 63 := by decide
    rw [ne_eq, Constant.long.injEq, ← Int64.toInt_inj, least]
    omega

/-- The suffix of a literal is one that native integer literals have. -/
theorem exists_literal_eq_integerLiteral (host : Host) {constant : Constant} {value : Int}
    (integral : constant.integer? = some value) :
    ∃ suffix : IntegerSuffix, constant.literal host = integerLiteral value suffix.text := by
  cases constant with
  | boolean _ | float _ | double _ => cases integral
  | byte _ | char _ | short _ | int _ =>
    cases integral
    exact ⟨.long, rfl⟩
  | long _ =>
    cases integral
    cases host with
    | windows => exact ⟨.int64, rfl⟩
    | unix => exact ⟨.longLong, rfl⟩

/-- A native compiler takes the literal of an integral constant for the constant, whatever the
width of `long` is. Only the literal of the least `long` is no expression, for its digits alone
fit no type. -/
theorem literal_evaluates (host : Host) (model : DataModel) {constant : Constant} {value : Int}
    (integral : constant.integer? = some value) :
    (model.evaluate? (constant.literal host)).map SignedValue.value =
      if constant = .long Int64.minValue then none else some value := by
  obtain ⟨suffix, literal⟩ := exists_literal_eq_integerLiteral host integral
  rw [literal, model.value_evaluate?]
  by_cases least : constant = .long Int64.minValue
  · rw [if_pos least, if_neg fun fits => (natAbs_lt_iff integral).mp fits least]
  · rw [if_neg least, if_pos ((natAbs_lt_iff integral).mpr least)]

/-- The least `int` is an expression where `long` is as narrow, and the least `long` is none where
it is wide. -/
theorem literal_evaluates_least :
    ((DataModel.mk 32 (by decide) (by decide)).evaluate?
        ((Constant.int Int32.minValue).literal .windows)).map SignedValue.value =
          some (-2147483648) ∧
      ((DataModel.mk 64 (by decide) (by decide)).evaluate?
        ((Constant.long Int64.minValue).literal .unix)).map SignedValue.value = none :=
  ⟨literal_evaluates .windows _ rfl, literal_evaluates .unix _ rfl⟩

end Constant

end NativePeer
