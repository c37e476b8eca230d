import Mathlib.Data.List.Induction
import NativePeer.Proofs.Text.Blank
import NativePeer.Proofs.Text.Cut
import NativePeer.Proofs.Type

/-
This file gives a grammar for the spellings of types. Every text of the grammar has one spelling and
is read as the type that the spelling stands for, and no other text is read.
-/

namespace NativePeer

open Text

/-- The white space of a spelling: before the name, before each pair of brackets and at the end. -/
@[ext]
structure Spacing where
  before : List Char
  gaps : List (List Char)
  after : List Char
  begun : AllBlank before
  between : ∀ gap ∈ gaps, AllBlank gap
  ended : AllBlank after

namespace Spacing

def brackets (gaps : List (List Char)) : List Char :=
  gaps.flatMap fun gap => gap ++ ['[', ']']

def around (spacing : Spacing) (name : String) : String :=
  String.ofList (spacing.before ++ (name.toList ++ brackets spacing.gaps) ++ spacing.after)

@[simp] theorem toList_around (spacing : Spacing) (name : String) :
    (spacing.around name).toList =
      spacing.before ++ (name.toList ++ brackets spacing.gaps) ++ spacing.after :=
  String.toList_ofList

theorem brackets_cons (gap : List Char) (gaps : List (List Char)) :
    brackets (gap :: gaps) = gap ++ '[' :: ']' :: brackets gaps := by
  simp [brackets]

theorem brackets_concat (gaps : List (List Char)) (gap : List Char) :
    brackets (gaps ++ [gap]) = brackets gaps ++ gap ++ ['[', ']'] := by
  simp [brackets]

theorem isTrimmed_brackets {letters : List Char} (nonempty : letters ≠ [])
    (trimmed : IsTrimmed letters) (gaps : List (List Char)) :
    IsTrimmed (letters ++ brackets gaps) where
  head := by
    obtain ⟨first, rest, rfl⟩ := List.exists_cons_of_ne_nil nonempty
    simpa using trimmed.head
  last := by
    cases gaps using List.reverseRecOn with
    | nil => simpa [brackets] using trimmed.last
    | append_singleton gaps gap =>
      rw [brackets_concat]
      simp
      decide

/-- Blanks and brackets tell how many pairs there are and what stands before each of them. -/
theorem brackets_injective {firsts seconds : List (List Char)}
    (firstBlank : ∀ gap ∈ firsts, AllBlank gap) (secondBlank : ∀ gap ∈ seconds, AllBlank gap)
    (same : brackets firsts = brackets seconds) : firsts = seconds := by
  have unmarked {gap : List Char} (blank : AllBlank gap) : '[' ∉ gap := fun member =>
    absurd (blank '[' member) (by decide)
  induction firsts generalizing seconds with
  | nil =>
    cases seconds with
    | nil => rfl
    | cons gap gaps => simp [brackets] at same
  | cons gap gaps inductionHypothesis =>
    cases seconds with
    | nil => simp [brackets] at same
    | cons other others =>
      rw [List.forall_mem_cons] at firstBlank secondBlank
      rw [brackets_cons, brackets_cons] at same
      have cut := append_cons_cancel (unmarked firstBlank.1) (unmarked secondBlank.1) same
      rw [cut.1, inductionHypothesis firstBlank.2 secondBlank.2 (List.cons.inj cut.2).2]

end Spacing

namespace ManagedType

def nameSeparators : List Char :=
  ['[', ']', ' ', '\t', '<', '>']

/-- White space other than spaces and tabs may stand inside a name. -/
structure IsTypeName (name : String) : Prop where
  nonempty : name ≠ ""
  trimmed : IsTrimmed name.toList
  unseparated : ∀ separator ∈ nameSeparators, separator ∉ name.toList

inductive Names : String → ManagedType → Prop where
  | void : Names "void" .void
  | primitive (kind : Primitive) : Names kind.name (.primitive kind)
  | string : Names "String" .string
  | qualifiedString : Names stringClass .string
  | reference {name : String} (other : name ∉ reservedNames) : Names name (.reference name)

/-- A spelling is a name and any number of bracket pairs. There is no array of `void`. -/
@[ext]
structure Spelling extends Spacing where
  name : String
  proper : IsTypeName name
  filled : name = "void" → gaps = []

namespace Spelling

def text (spelling : Spelling) : String :=
  spelling.around spelling.name

inductive Denotes (spelling : Spelling) : ManagedType → Prop where
  | single {type : ManagedType} (none : spelling.gaps = []) (named : Names spelling.name type) :
    Denotes spelling type
  | array {element : ManagedType} (some : spelling.gaps ≠ [])
    (named : Names spelling.name element) :
    Denotes spelling (.array element spelling.gaps.length)

end Spelling

/-- The name in the shortest spelling of a type. -/
def ownName : ManagedType → String
  | .void => "void"
  | .primitive kind => kind.name
  | .string => "String"
  | .reference className => className
  | .array element _ => element.ownName

def dimension : ManagedType → Nat
  | .array _ dimension => dimension
  | .void | .primitive _ | .string | .reference _ => 0

theorem isSeparator_iff {letter : Char} : isSeparator letter = true ↔ letter ∈ nameSeparators := by
  simp [isSeparator, nameSeparators, or_assoc]

/-- Every name names one type. -/
theorem names_iff {name : String} {type : ManagedType} : Names name type ↔ ofName name = type := by
  constructor
  · intro named
    cases named with
    | void => decide
    | primitive kind => cases kind <;> decide
    | string => decide
    | qualifiedString => decide
    | reference other =>
      simp only [reservedNames, List.mem_cons, not_or] at other
      obtain ⟨noVoid, noString, noQualified, noPrimitive⟩ := other
      have noKind : Primitive.ofName? name = none := by
        simpa [Primitive.ofName?] using noPrimitive
      simp [ofName, noVoid, noString, noQualified, noKind]
  · rintro rfl
    unfold ofName
    split
    · next same => exact same ▸ .void
    · next noVoid =>
      split
      · next same =>
        rcases same with rfl | rfl
        · exact .string
        · exact .qualifiedString
      · next noString =>
        cases found : Primitive.ofName? name with
        | some kind =>
          have same : kind.name = name := by simpa using List.find?_some found
          exact same ▸ .primitive kind
        | none =>
          apply Names.reference
          rw [not_or] at noString
          simpa [reservedNames, noVoid, noString, Primitive.ofName?] using found

theorem Names.dimension_eq_zero {name : String} {type : ManagedType} (named : Names name type) :
    type.dimension = 0 := by
  cases named <;> rfl

/-- The shortest spelling of a type begins with a name of its own. -/
theorem Names.ownName {name : String} {type : ManagedType} (named : Names name type) :
    Names type.ownName type := by
  cases named with
  | void => exact .void
  | primitive kind => exact .primitive kind
  | string => exact .string
  | qualifiedString => exact .string
  | reference other => exact .reference other

theorem isTypeName_of_mem_reservedNames {name : String} (reserved : name ∈ reservedNames) :
    IsTypeName name := by
  have checked : ∀ other ∈ reservedNames, other ≠ "" ∧
      other.toList.head?.all (isBlank · = false) = true ∧
      other.toList.getLast?.all (isBlank · = false) = true ∧
      nameSeparators.all (· ∉ other.toList) = true := by decide +kernel
  obtain ⟨nonempty, head, last, unseparated⟩ := checked name reserved
  rw [Option.all_eq_true] at head last
  exact ⟨nonempty, ⟨by simpa using head, by simpa using last⟩, by simpa using unseparated⟩

theorem Names.isTypeName_ownName {name : String} {type : ManagedType} (named : Names name type)
    (proper : IsTypeName name) : IsTypeName type.ownName := by
  cases named with
  | void => exact isTypeName_of_mem_reservedNames (by decide)
  | primitive kind => exact isTypeName_of_mem_reservedNames (by cases kind <;> decide)
  | string => exact isTypeName_of_mem_reservedNames (by decide)
  | qualifiedString => exact isTypeName_of_mem_reservedNames (by decide)
  | reference other => exact proper

/-- Brackets are split off from the right until a name is left. -/
theorem splitDimensions_brackets {letters : List Char} (nonempty : letters ≠ [])
    (trimmed : IsTrimmed letters) (unseparated : ']' ∉ letters) {gaps : List (List Char)}
    (blank : ∀ gap ∈ gaps, AllBlank gap) :
    splitDimensions (letters ++ Spacing.brackets gaps).reverse =
      (letters.reverse, gaps.length) := by
  induction gaps using List.reverseRecOn with
  | nil =>
    have whole : letters ++ Spacing.brackets [] = letters := List.append_nil letters
    rw [whole, splitDimensions]
    · rfl
    · intro rest shape
      have member : ']' ∈ letters.reverse := by simp [shape]
      exact unseparated (List.mem_reverse.mp member)
  | append_singleton gaps gap inductionHypothesis =>
    rw [List.forall_mem_append, List.forall_mem_singleton] at blank
    have reversed : (letters ++ Spacing.brackets (gaps ++ [gap])).reverse =
        ']' :: '[' :: (gap.reverse ++ (letters ++ Spacing.brackets gaps).reverse) := by
      simp [Spacing.brackets_concat]
    have visible := (Spacing.isTrimmed_brackets nonempty trimmed gaps).reverse.head
    rw [reversed, splitDimensions, dropBlanks_append blank.2.reverse, dropBlanks_of_head visible,
      inductionHypothesis blank.1]
    simp

/-- What is split off is white space and brackets. -/
theorem exists_splitDimensions (letters : List Char)
    (visible : ∀ letter ∈ letters.head?, isBlank letter = false) :
    ∃ gaps, (∀ gap ∈ gaps, AllBlank gap) ∧ (splitDimensions letters).2 = gaps.length ∧
      letters.reverse = (splitDimensions letters).1.reverse ++ Spacing.brackets gaps ∧
      ∀ letter ∈ (splitDimensions letters).1.head?, isBlank letter = false := by
  induction letters using splitDimensions.induct with
  | case1 letters base dimension split inductionHypothesis =>
    obtain ⟨gap, blank, cut⟩ := exists_dropBlanks letters
    obtain ⟨gaps, between, counted, whole, first⟩ :=
      inductionHypothesis (head_dropBlanks letters)
    rw [splitDimensions]
    refine ⟨gaps ++ [gap.reverse], ?_, ?_, ?_, first⟩
    · rw [List.forall_mem_append, List.forall_mem_singleton]
      exact ⟨between, blank.reverse⟩
    · simp [counted]
    · calc (']' :: '[' :: letters).reverse
          = (dropBlanks letters).reverse ++ gap.reverse ++ ['[', ']'] := by
            rw [← List.reverse_append, ← cut]
            simp
        _ = (splitDimensions (dropBlanks letters)).1.reverse ++
              Spacing.brackets (gaps ++ [gap.reverse]) := by
            rw [whole, Spacing.brackets_concat]
            simp only [List.append_assoc]
  | case2 letters bare =>
    rw [splitDimensions]
    · exact ⟨[], List.forall_mem_nil _, rfl, (List.append_nil _).symm, visible⟩
    · exact bare

/-- A text is read if a name is left of it, and `void` stands without brackets. -/
theorem parse?_eq_some {text : String} {type : ManagedType} {reversed : List Char}
    {dimension : Nat} (cut : splitDimensions (trim text.toList).reverse = (reversed, dimension)) :
    parse? text = some type ↔
      reversed ≠ [] ∧ (∀ separator ∈ nameSeparators, separator ∉ reversed) ∧
        ∃ element, Names (String.ofList reversed.reverse) element ∧
          (dimension = 0 ∧ type = element ∨
            dimension ≠ 0 ∧ element ≠ .void ∧ type = .array element dimension) := by
  have refused_iff : (reversed = [] ∨ reversed.any isSeparator = true) ↔
      ¬ (reversed ≠ [] ∧ ∀ separator ∈ nameSeparators, separator ∉ reversed) := by
    simp only [List.any_eq_true, isSeparator_iff]
    grind
  rw [parse?, cut]
  dsimp only
  split
  · next refused =>
    have unnamed := refused_iff.mp refused
    exact ⟨nofun, fun parts => absurd ⟨parts.1, parts.2.1⟩ unnamed⟩
  · next accepted =>
    obtain ⟨nonempty, unseparated⟩ := not_not.mp (mt refused_iff.mpr accepted)
    simp only [names_iff, exists_eq_left']
    grind

theorem names_void_iff {name : String} : Names name .void ↔ name = "void" := by
  constructor
  · intro named
    cases named
    rfl
  · rintro rfl
    exact .void

namespace Spelling

variable (spelling : Spelling)

/-- A spelling without the white space around it. -/
def stem : List Char :=
  spelling.name.toList ++ Spacing.brackets spelling.gaps

theorem isTrimmed_stem : IsTrimmed spelling.stem := by
  have letters : spelling.name.toList ≠ [] := by simpa using spelling.proper.nonempty
  exact Spacing.isTrimmed_brackets letters spelling.proper.trimmed spelling.gaps

theorem toList_text : spelling.text.toList = spelling.before ++ spelling.stem ++ spelling.after :=
  spelling.toList_around spelling.name

theorem trim_text : trim spelling.text.toList = spelling.stem := by
  rw [toList_text]
  exact trim_append spelling.begun spelling.ended spelling.isTrimmed_stem

theorem splitDimensions_text :
    splitDimensions (trim spelling.text.toList).reverse =
      (spelling.name.toList.reverse, spelling.gaps.length) := by
  obtain ⟨nonempty, trimmed, unseparated⟩ := spelling.proper
  rw [trim_text]
  exact splitDimensions_brackets (by simpa using nonempty) trimmed (unseparated ']' (by decide))
    spelling.between

/-- White space ends where the name begins. -/
theorem dropBlanks_text : dropBlanks spelling.text.toList = spelling.stem ++ spelling.after := by
  have visible : ∀ letter ∈ (spelling.stem ++ spelling.after).head?, isBlank letter = false := by
    have letters : spelling.name.toList ≠ [] := by simpa using spelling.proper.nonempty
    have head := spelling.isTrimmed_stem.head
    obtain ⟨first, rest, shape⟩ := List.exists_cons_of_ne_nil letters
    rw [stem, shape] at head ⊢
    simpa using head
  rw [toList_text, List.append_assoc, dropBlanks_append spelling.begun, dropBlanks_of_head visible]

/-- A text has at most one spelling. -/
theorem text_injective : Function.Injective text := by
  intro first second same
  have split := second.splitDimensions_text
  rw [← same, first.splitDimensions_text, Prod.mk.injEq, List.reverse_inj,
    String.toList_inj] at split
  have stems := first.trim_text
  rw [same, second.trim_text] at stems
  have gaps : first.gaps = second.gaps := by
    rw [stem, stem, split.1, List.append_cancel_left_eq] at stems
    exact Spacing.brackets_injective first.between second.between stems.symm
  have ends := first.dropBlanks_text
  rw [same, second.dropBlanks_text, stems, List.append_cancel_left_eq] at ends
  have begins := first.toList_text
  rw [same, second.toList_text, stems, ends, List.append_assoc, List.append_assoc,
    List.append_cancel_right_eq] at begins
  ext1
  · exact begins.symm
  · exact gaps
  · exact ends.symm
  · exact split.1

end Spelling

/-- The text of a spelling is read as the type that the spelling stands for. -/
theorem parse?_text {spelling : Spelling} {type : ManagedType} (denoted : spelling.Denotes type) :
    parse? spelling.text = some type := by
  obtain ⟨nonempty, trimmed, unseparated⟩ := spelling.proper
  rw [parse?_eq_some spelling.splitDimensions_text, List.reverse_reverse, String.ofList_toList]
  refine ⟨by simpa using nonempty, by simpa using unseparated, ?_⟩
  cases denoted with
  | single none named => exact ⟨type, named, .inl ⟨by simp [none], rfl⟩⟩
  | array some named =>
    refine ⟨_, named, .inr ⟨by simp [some], ?_, rfl⟩⟩
    rintro rfl
    exact some (spelling.filled (names_void_iff.mp named))

/-- Every text that is read has a spelling. -/
theorem exists_spelling {text : String} {type : ManagedType} (parsed : parse? text = some type) :
    ∃ spelling : Spelling, spelling.text = text ∧ spelling.Denotes type := by
  obtain ⟨trimmed, before, after, begun, ended, whole⟩ := exists_trim text.toList
  obtain ⟨gaps, between, counted, rest, last⟩ :=
    exists_splitDimensions (trim text.toList).reverse trimmed.reverse.head
  rw [List.reverse_reverse] at rest
  generalize cut : splitDimensions (trim text.toList).reverse = parts at counted rest last
  obtain ⟨reversed, dimension⟩ := parts
  obtain ⟨nonempty, unseparated, element, named, shape⟩ := (parse?_eq_some cut).mp parsed
  dsimp only at counted rest last
  have head : ∀ letter ∈ reversed.reverse.head?, isBlank letter = false := by
    intro letter first
    apply trimmed.head
    rw [rest, List.head?_append, Option.mem_def.mp first]
    rfl
  have filled : String.ofList reversed.reverse = "void" → gaps = [] := by
    intro same
    have nothing : Names (String.ofList reversed.reverse) .void := names_void_iff.mpr same
    rw [names_iff] at nothing named
    rcases shape with none | some
    · exact List.eq_nil_of_length_eq_zero (counted.symm.trans none.1)
    · exact absurd (named.symm.trans nothing) some.2.1
  let spelling : Spelling :=
    { before, gaps, after, begun, between, ended, filled
      name := String.ofList reversed.reverse
      proper := ⟨by simpa using nonempty, by simpa using ⟨head, by simpa using last⟩,
        by simpa using unseparated⟩ }
  refine ⟨spelling, ?_, ?_⟩
  · apply String.toList_injective
    rw [Spelling.text, Spacing.toList_around, whole, rest]
    simp [spelling]
  · rcases shape with ⟨none, rfl⟩ | ⟨some, _, rfl⟩
    · exact .single (List.eq_nil_of_length_eq_zero (counted.symm.trans none)) named
    · have filled : gaps ≠ [] := fun empty => some (by simp [counted, empty])
      rw [counted]
      exact .array filled named

/-- What a spelling stands for has a spelling with its own name and any white space. -/
theorem Spelling.Denotes.respaced {spelling : Spelling} {type : ManagedType}
    (denoted : spelling.Denotes type) {spacing : Spacing}
    (sameLength : spacing.gaps.length = type.dimension) :
    ∃ other : Spelling, other.text = spacing.around type.ownName ∧ other.Denotes type := by
  cases denoted with
  | single none named =>
    rw [named.dimension_eq_zero] at sameLength
    have bare : spacing.gaps = [] := List.eq_nil_of_length_eq_zero sameLength
    exact ⟨{ spacing with
      name := type.ownName
      proper := named.isTypeName_ownName spelling.proper
      filled := fun _ => bare }, rfl, .single bare named.ownName⟩
  | @array element some named =>
    have filled : element.ownName = "void" → spacing.gaps = [] := by
      intro same
      have element_eq : element = .void := by
        have own := named.ownName
        rw [same, names_iff] at own
        exact own.symm
      rw [element_eq, names_void_iff] at named
      exact absurd (spelling.filled named) some
    have solid : spacing.gaps ≠ [] := by
      intro bare
      rw [bare] at sameLength
      exact some (List.eq_nil_of_length_eq_zero sameLength.symm)
    refine ⟨{ spacing with
      name := element.ownName
      proper := named.isTypeName_ownName spelling.proper
      filled }, rfl, ?_⟩
    have sameDimension : spacing.gaps.length = spelling.gaps.length := sameLength
    rw [← sameDimension]
    exact .array solid named.ownName

/-- A text is read exactly if it has a spelling, which is then its only one, and it is read as the
type that the spelling stands for. The type is read again from its own name with any white
space. -/
theorem parse?_spellings :
    (∀ text type, parse? text = some type ↔
      ∃ spelling : Spelling, spelling.text = text ∧ spelling.Denotes type) ∧
    Function.Injective Spelling.text ∧
    ∀ text type, parse? text = some type → ∀ spacing : Spacing,
      spacing.gaps.length = type.dimension → parse? (spacing.around type.ownName) = some type := by
  refine ⟨fun text type => ⟨exists_spelling, ?_⟩, Spelling.text_injective, ?_⟩
  · intro parts
    obtain ⟨spelling, same, denoted⟩ := parts
    exact same ▸ parse?_text denoted
  · intro text type parsed spacing sameLength
    obtain ⟨spelling, _, denoted⟩ := exists_spelling parsed
    obtain ⟨other, same, otherDenoted⟩ := denoted.respaced sameLength
    exact same ▸ parse?_text otherDenoted

/-- Wide blanks and line ends stand around the name and the brackets. -/
def wideSpacing : Spacing where
  before := ['\u3000', '\n']
  gaps := [['\u00A0'], []]
  after := ['\t', ' ']
  begun := by decide
  between := by decide
  ended := by decide

theorem parse?_spellings_wide :
    parse? "java.util.List[] []" = some (.array (.reference "java.util.List") 2) ∧
      parse? (wideSpacing.around "java.util.List") =
        some (.array (.reference "java.util.List") 2) := by
  have parsed : parse? "java.util.List[] []" = some (.array (.reference "java.util.List") 2) := by
    decide +kernel
  exact ⟨parsed, parse?_spellings.2.2 _ _ parsed wideSpacing rfl⟩

end ManagedType

end NativePeer
