import NativePeer.Proofs.Native.Mangling
import NativePeer.Proofs.Text.Units

/-
This file shows which names read back from their mangled forms.
-/

namespace NativePeer

namespace Text

def isHexDigit (letter : Char) : Bool :=
  letter.isDigit || ('a' ≤ letter && letter ≤ 'f')

/-- Whether a text begins with `_0` and four lower-case hexadecimal digits. -/
def beginsEscape : List Char → Bool
  | '_' :: '0' :: first :: second :: third :: fourth :: _ =>
    [first, second, third, fourth].all isHexDigit
  | _ => false

/-- Whether `_0` and four lower-case hexadecimal digits stand anywhere in a text. -/
def hasEscape : List Char → Bool
  | [] => false
  | letter :: letters => beginsEscape (letter :: letters) || hasEscape letters

theorem hasEscape_of_suffix {letters suffix : List Char} (inside : suffix <:+ letters)
    (plain : hasEscape letters = false) : hasEscape suffix = false := by
  induction letters with
  | nil => rw [List.suffix_nil.mp inside, hasEscape]
  | cons letter letters inductionHypothesis =>
    rcases List.suffix_cons_iff.mp inside with same | shorter
    · rw [same, plain]
    · rw [hasEscape, Bool.or_eq_false_iff] at plain
      exact inductionHypothesis shorter plain.2

theorem isHexDigit_of_mem_hexDigits {unit : Nat} {shown : Char}
    (member : shown ∈ hexDigits unit) : isHexDigit shown = true := by
  have digit (code : Nat) : isHexDigit (Nat.digitChar (code % 16)) = true := by
    have inRange : code % 16 < 16 := Nat.mod_lt _ (by decide)
    have everyDigit : ∀ digit < 16, isHexDigit (Nat.digitChar digit) = true := by decide
    exact everyDigit _ inRange
  simp only [hexDigits, List.mem_cons, List.not_mem_nil, or_false] at member
  rcases member with same | same | same | same <;> rw [same, digit]

theorem underscore_not_mem_zero_hexDigits (unit : Nat) : '_' ∉ '0' :: hexDigits unit := by
  intro listed
  rcases List.mem_cons.mp listed with impossible | digit
  · cases impossible
  · exact absurd (isHexDigit_of_mem_hexDigits digit) (by decide)

/-- The escape of a code unit. -/
def escapeUnit (unit : Nat) : List Char :=
  '_' :: '0' :: hexDigits unit

def escapeLetter (letter : Char) : List Char :=
  (codeUnits letter).flatMap escapeUnit

theorem beginsEscape_escapeUnit (unit : Nat) (rest : List Char) :
    beginsEscape (escapeUnit unit ++ rest) = true := by
  have digits : (hexDigits unit).all isHexDigit = true :=
    List.all_eq_true.mpr fun _ member => isHexDigit_of_mem_hexDigits member
  exact digits

theorem exists_escapeLetter_eq (letter : Char) :
    ∃ unit rest, escapeLetter letter = escapeUnit unit ++ rest := by
  unfold escapeLetter
  cases units : codeUnits letter with
  | nil => exact absurd units (codeUnits_ne_nil letter)
  | cons unit others => exact ⟨unit, others.flatMap escapeUnit, List.flatMap_cons⟩

theorem escapeUnit_prefixFree : PrefixFree (· < 0x10000) escapeUnit := by
  intro first second firstSmall secondSmall firstRest secondRest same
  simp only [escapeUnit, List.cons_append, List.cons.injEq, true_and] at same
  exact hexDigits_prefixFree first second firstSmall secondSmall firstRest secondRest same

theorem escapeLetter_prefixFree : PrefixFree (fun _ => True) escapeLetter :=
  codeUnits_prefixFree.spell escapeUnit_prefixFree fun _ _ member => lt_of_mem_codeUnits member

end Text

namespace SymbolRole

variable {role : SymbolRole} {letter : Char}

theorem mangleLetter_of_isAlphanum (plain : letter.isAlphanum = true) :
    role.mangleLetter letter = [letter] := by
  rw [mangleLetter, if_pos plain]

theorem mangleLetter_of_replacement? {text : String} (special : letter.isAlphanum = false)
    (replaced : role.replacement? letter = some text) : role.mangleLetter letter = text.toList := by
  simp [mangleLetter, special, replaced]

theorem mangleLetter_of_escaped (special : letter.isAlphanum = false)
    (escaped : role.replacement? letter = none) :
    role.mangleLetter letter = Text.escapeLetter letter := by
  simp only [mangleLetter, special, Bool.false_eq_true, if_false, escaped]
  rfl

/-- All that is replaced begins with an underscore. -/
theorem exists_mangleLetter_eq (special : letter.isAlphanum = false) :
    ∃ rest, role.mangleLetter letter = '_' :: rest := by
  cases replaced : role.replacement? letter with
  | none =>
    obtain ⟨unit, rest, begun⟩ := Text.exists_escapeLetter_eq letter
    rw [mangleLetter_of_escaped special replaced, begun]
    exact ⟨_, rfl⟩
  | some text =>
    rw [mangleLetter_of_replacement? special replaced]
    unfold replacement? at replaced
    split at replaced <;> cases replaced <;> exact ⟨_, rfl⟩

theorem head?_mangleLetter_append (letter : Char) (rest : List Char) :
    (role.mangleLetter letter ++ rest).head? =
      some (if letter.isAlphanum then letter else '_') := by
  cases ordinary : letter.isAlphanum with
  | true => simp [mangleLetter_of_isAlphanum ordinary]
  | false =>
    obtain ⟨tail, begun⟩ : ∃ tail, role.mangleLetter letter = '_' :: tail :=
      exists_mangleLetter_eq ordinary
    simp [begun]

/-- The letters of a mangled text before its first underscore stand for themselves. -/
theorem exists_of_flatMap_eq_append {letters word rest : List Char} (plain : '_' ∉ word)
    (same : letters.flatMap role.mangleLetter = word ++ rest) :
    ∃ others, letters = word ++ others ∧ others.flatMap role.mangleLetter = rest := by
  induction word generalizing letters with
  | nil => exact ⟨letters, rfl, same⟩
  | cons shown word inductionHypothesis =>
    rw [List.mem_cons, not_or] at plain
    cases letters with
    | nil => cases same
    | cons letter letters =>
      rw [List.flatMap_cons] at same
      have heads := congrArg List.head? same
      rw [head?_mangleLetter_append, List.cons_append, List.head?_cons, Option.some.injEq] at heads
      cases ordinary : letter.isAlphanum with
      | true =>
        rw [mangleLetter_of_isAlphanum ordinary, List.singleton_append, List.cons_append,
          List.cons.injEq] at same
        obtain ⟨others, found, mangled⟩ := inductionHypothesis plain.2 same.2
        exact ⟨others, by rw [found, same.1, List.cons_append], mangled⟩
      | false =>
        rw [ordinary, if_neg Bool.false_ne_true] at heads
        exact absurd heads plain.1

theorem isAlphanum_eq_of_append_eq {first second : Char} {firstRest secondRest : List Char}
    (same : role.mangleLetter first ++ firstRest = role.mangleLetter second ++ secondRest) :
    first.isAlphanum = second.isAlphanum := by
  have heads := congrArg List.head? same
  rw [head?_mangleLetter_append, head?_mangleLetter_append, Option.some.injEq] at heads
  have kept (letter : Char) :
      (if letter.isAlphanum then letter else '_').isAlphanum = letter.isAlphanum := by
    cases ordinary : letter.isAlphanum with
    | true => rw [if_pos rfl, ordinary]
    | false => rfl
  rw [← kept first, heads, kept second]

/-- Letters that have no spelling of their own are told apart by their escapes. -/
theorem mangleLetter_prefixFree {allowed : Char → Prop}
    (escaped : ∀ letter, allowed letter → role.replacement? letter = none) :
    Text.PrefixFree allowed role.mangleLetter := by
  intro first second firstAllowed secondAllowed firstRest secondRest same
  have sameKind := isAlphanum_eq_of_append_eq same
  cases ordinary : second.isAlphanum with
  | true =>
    rw [mangleLetter_of_isAlphanum (sameKind.trans ordinary), mangleLetter_of_isAlphanum ordinary]
      at same
    simpa using same
  | false =>
    rw [mangleLetter_of_escaped (sameKind.trans ordinary) (escaped first firstAllowed),
      mangleLetter_of_escaped ordinary (escaped second secondAllowed)] at same
    exact Text.escapeLetter_prefixFree first second trivial trivial _ _ same

/-- A letter that is written as a bare underscore is not taken for another letter as long as what
follows it never completes one. -/
theorem eq_of_flatMap_mangleLetter_eq {bare : Char} {allowed : Char → Prop}
    (free : Text.PrefixFree allowed role.mangleLetter)
    (written : role.mangleLetter bare = ['_']) {firsts seconds : List Char}
    (firstAllowed : ∀ letter ∈ firsts, letter ≠ bare → allowed letter)
    (secondAllowed : ∀ letter ∈ seconds, letter ≠ bare → allowed letter)
    (firstApart : ∀ rest, bare :: rest <:+ firsts → ∀ other more, allowed other →
      '_' :: rest.flatMap role.mangleLetter ≠ role.mangleLetter other ++ more)
    (secondApart : ∀ rest, bare :: rest <:+ seconds → ∀ other more, allowed other →
      '_' :: rest.flatMap role.mangleLetter ≠ role.mangleLetter other ++ more)
    (same : firsts.flatMap role.mangleLetter = seconds.flatMap role.mangleLetter) :
    firsts = seconds := by
  induction firsts generalizing seconds with
  | nil =>
    cases seconds with
    | nil => rfl
    | cons second seconds =>
      rw [List.flatMap_nil, List.flatMap_cons] at same
      exact absurd (List.append_eq_nil_iff.mp same.symm).1 (role.mangleLetter_ne_nil second)
  | cons first firsts inductionHypothesis =>
    cases seconds with
    | nil =>
      rw [List.flatMap_nil, List.flatMap_cons] at same
      exact absurd (List.append_eq_nil_iff.mp same).1 (role.mangleLetter_ne_nil first)
    | cons second seconds =>
      rw [List.forall_mem_cons] at firstAllowed secondAllowed
      rw [List.flatMap_cons, List.flatMap_cons] at same
      have heads : first = second ∧
          firsts.flatMap role.mangleLetter = seconds.flatMap role.mangleLetter := by
        by_cases firstBare : first = bare
        · rw [firstBare, written, List.singleton_append] at same
          by_cases secondBare : second = bare
          · rw [secondBare, written, List.singleton_append, List.cons.injEq] at same
            exact ⟨firstBare.trans secondBare.symm, same.2⟩
          · exact absurd same (firstApart firsts (firstBare ▸ List.suffix_rfl) second _
              (secondAllowed.1 secondBare))
        · by_cases secondBare : second = bare
          · rw [secondBare, written, List.singleton_append] at same
            exact absurd same.symm (secondApart seconds (secondBare ▸ List.suffix_rfl) first _
              (firstAllowed.1 firstBare))
          · exact free first second (firstAllowed.1 firstBare) (secondAllowed.1 secondBare) _ _ same
      rw [heads.1, inductionHypothesis firstAllowed.2 secondAllowed.2
        (fun rest inside => firstApart rest (inside.trans (List.suffix_cons _ _)))
        (fun rest inside => secondApart rest (inside.trans (List.suffix_cons _ _))) heads.2]

/-- Only letters that are not ordinary are written with an underscore. -/
theorem isAlphanum_eq_false_of_underscore {other : Char} {rest more : List Char}
    (same : '_' :: rest = role.mangleLetter other ++ more) : other.isAlphanum = false := by
  have heads := congrArg List.head? same
  rw [head?_mangleLetter_append, List.head?_cons, Option.some.injEq] at heads
  cases ordinary : other.isAlphanum with
  | false => rfl
  | true =>
    rw [if_pos ordinary] at heads
    rw [← heads] at ordinary
    cases ordinary

theorem member_replacement?_eq_none (other : letter ≠ '_') :
    member.replacement? letter = none := by
  unfold replacement?
  split <;> simp_all

/-- An underscore in a name without escapes does not begin the escape of a letter. -/
theorem member_apart {rest : List Char} (plain : Text.hasEscape ('_' :: rest) = false)
    {other : Char} (special : other ≠ '_') (more : List Char) :
    '_' :: rest.flatMap member.mangleLetter ≠ member.mangleLetter other ++ more := by
  intro same
  obtain ⟨unit, tail, begun⟩ := Text.exists_escapeLetter_eq other
  rw [mangleLetter_of_escaped (isAlphanum_eq_false_of_underscore same)
    (member_replacement?_eq_none special), begun, List.append_assoc, Text.escapeUnit,
    List.cons_append, List.cons.injEq] at same
  obtain ⟨others, found, _⟩ :=
    exists_of_flatMap_eq_append (Text.underscore_not_mem_zero_hexDigits unit) same.2
  rw [found, Text.hasEscape, Bool.or_eq_false_iff] at plain
  exact absurd ((Text.beginsEscape_escapeUnit unit others).symm.trans plain.1) (by decide)

/-- Names without escapes are told apart as members. -/
theorem member_mangle_injective {first second : String}
    (firstPlain : Text.hasEscape first.toList = false)
    (secondPlain : Text.hasEscape second.toList = false)
    (same : member.mangle first = member.mangle second) : first = second := by
  have free : Text.PrefixFree (· ≠ '_') member.mangleLetter :=
    mangleLetter_prefixFree fun _ other => member_replacement?_eq_none other
  have letters := congrArg String.toList same
  rw [toList_mangle, toList_mangle] at letters
  apply String.toList_injective
  refine eq_of_flatMap_mangleLetter_eq free rfl (fun _ _ other => other) (fun _ _ other => other)
    ?_ ?_ letters
  · intro rest inside other more special
    exact member_apart (Text.hasEscape_of_suffix inside firstPlain) special more
  · intro rest inside other more special
    exact member_apart (Text.hasEscape_of_suffix inside secondPlain) special more

end SymbolRole

end NativePeer
