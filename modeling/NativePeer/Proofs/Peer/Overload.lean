import Mathlib.Data.List.Infix
import NativePeer.Peer.Binding
import NativePeer.Proofs.Native.Demangling

/-
This file shows that the symbols of ordinary methods read back to names and parameters.
-/

namespace NativePeer

/-- A method whose names need no care. The letters `__` in a symbol stand between its name and its
parameters, and its parameters hide nothing that a method body uses. -/
structure Method.IsOrdinary (baseName : String) (method : Method) : Prop where
  plain : Text.hasEscape method.name.toList = false
  unpaired : ¬ ['_', '_'] <:+: method.name.toList
  uninherited : method.name ∉ inheritedMembers
  unlikeBase : SymbolRole.member.mangle method.name ≠ baseName
  types : ∀ type ∈ method.parameters.map Parameter.type, type.IsOrdinary
  plainParameters : ∀ parameter ∈ method.parameters, Text.hasEscape parameter.name.toList = false
  freeParameters : ∀ parameter ∈ method.parameters,
    parameter.name ∉ inheritedMembers ++ bodyVariables

instance (baseName : String) (method : Method) : Decidable (method.IsOrdinary baseName) :=
  decidable_of_iff (Text.hasEscape method.name.toList = false ∧
      (¬ ['_', '_'] <:+: method.name.toList) ∧ method.name ∉ inheritedMembers ∧
      SymbolRole.member.mangle method.name ≠ baseName ∧
      (∀ type ∈ method.parameters.map Parameter.type, type.IsOrdinary) ∧
      (∀ parameter ∈ method.parameters, Text.hasEscape parameter.name.toList = false) ∧
      ∀ parameter ∈ method.parameters, parameter.name ∉ inheritedMembers ++ bodyVariables)
    ⟨fun ⟨plain, unpaired, uninherited, unlikeBase, types, plainParameters, freeParameters⟩ =>
        ⟨plain, unpaired, uninherited, unlikeBase, types, plainParameters, freeParameters⟩,
      fun ⟨plain, unpaired, uninherited, unlikeBase, types, plainParameters, freeParameters⟩ =>
        ⟨plain, unpaired, uninherited, unlikeBase, types, plainParameters, freeParameters⟩⟩

namespace SymbolRole

/-- Two underscores in a row stand only where an escape begins. -/
def PairsEscape (letters : List Char) : Prop :=
  ∀ after, '_' :: '_' :: after <:+ letters → after.head? = some '0'

theorem PairsEscape.cons {letter : Char} {letters : List Char} (pairs : PairsEscape letters)
    (fits : ∀ after, letter = '_' → letters = '_' :: after → after.head? = some '0') :
    PairsEscape (letter :: letters) := by
  intro after inside
  rcases List.suffix_cons_iff.mp inside with same | shorter
  · rw [List.cons.injEq] at same
    exact fits after same.1.symm same.2.symm
  · exact pairs after shorter

theorem PairsEscape.append {word letters : List Char} (pairs : PairsEscape letters)
    (unmarked : '_' ∉ word) : PairsEscape (word ++ letters) := by
  induction word with
  | nil => exact pairs
  | cons letter word inductionHypothesis =>
    rw [List.mem_cons, not_or] at unmarked
    exact (inductionHypothesis unmarked.2).cons fun _ same => absurd same.symm unmarked.1

theorem PairsEscape.append_escapeUnits {units : List Nat} {letters : List Char}
    (pairs : PairsEscape letters) : PairsEscape (units.flatMap Text.escapeUnit ++ letters) := by
  induction units with
  | nil => exact pairs
  | cons unit units inductionHypothesis =>
    have unmarked := inductionHypothesis.append (Text.underscore_not_mem_zero_hexDigits unit)
    rw [List.flatMap_cons, List.append_assoc, Text.escapeUnit, List.cons_append]
    refine unmarked.cons fun after _ same => ?_
    cases same

/-- The first underscore of a pair is a letter of the name and the second one begins an escape. -/
theorem pairsEscape_mangle {letters : List Char} (unpaired : ¬ ['_', '_'] <:+: letters) :
    PairsEscape (letters.flatMap member.mangleLetter) := by
  induction letters with
  | nil =>
    intro after inside
    cases List.suffix_nil.mp inside
  | cons letter letters inductionHypothesis =>
    have pairs : PairsEscape (letters.flatMap member.mangleLetter) :=
      inductionHypothesis fun inside => unpaired (inside.trans (List.suffix_cons _ _).isInfix)
    rw [List.flatMap_cons]
    cases ordinary : letter.isAlphanum with
    | true =>
      rw [mangleLetter_of_isAlphanum ordinary]
      refine pairs.append fun listed => ?_
      rw [← List.mem_singleton.mp listed] at ordinary
      cases ordinary
    | false =>
      by_cases underscore : letter = '_'
      · have written : member.mangleLetter '_' = ['_'] := rfl
        rw [underscore, written, List.singleton_append]
        refine pairs.cons fun after _ same => ?_
        cases letters with
        | nil => cases same
        | cons next letters =>
          have other : next ≠ '_' := by
            intro same
            rw [underscore, same] at unpaired
            exact unpaired ⟨[], letters, rfl⟩
          rw [List.flatMap_cons] at same
          obtain ⟨unit, rest, begun⟩ := Text.exists_escapeLetter_eq next
          rw [mangleLetter_of_escaped (isAlphanum_eq_false_of_underscore same.symm)
            (member_replacement?_eq_none other), begun] at same
          rw [← (List.cons.inj same).2]
          rfl
      · rw [mangleLetter_of_escaped ordinary (member_replacement?_eq_none underscore)]
        exact pairs.append_escapeUnits

/-- What the mangled descriptors of parameters have in common. They begin with a letter or with the
mark of an array, and no name of a peer type ends like them. -/
structure IsSuffix (letters : List Char) : Prop where
  undigited : ∀ letter, letters.head? = some letter → letter.isDigit = false
  bracketed : ∀ rest, letters = '_' :: rest → rest.head? = some '3'
  unlikeBase : letters.getLast? ≠ some 'r'

/-- A name ends where two underscores stand before a suffix. -/
theorem eq_nil_of_append_eq {name middle firstRest secondRest : List Char}
    (pairs : PairsEscape (name ++ middle)) (firstSuffix : IsSuffix firstRest)
    (secondSuffix : IsSuffix secondRest)
    (same : '_' :: '_' :: firstRest = middle ++ '_' :: '_' :: secondRest) : middle = [] := by
  cases middle with
  | nil => rfl
  | cons first middle =>
    rw [List.cons_append, List.cons.injEq] at same
    cases middle with
    | nil =>
      have begun : firstRest = '_' :: secondRest := (List.cons.inj same.2).2
      exact absurd (secondSuffix.undigited '3' (firstSuffix.bracketed secondRest begun)) (by decide)
    | cons second middle =>
      rw [List.cons_append, List.cons.injEq] at same
      obtain ⟨firstMark, secondMark, rest⟩ := same
      rw [← firstMark, ← secondMark] at pairs
      have escaped := pairs middle (List.suffix_append name _)
      refine absurd (firstSuffix.undigited '0' ?_) (by decide)
      rw [rest, List.head?_append, escaped]
      rfl

/-- The two underscores between a name and a suffix are told from all others. -/
theorem eq_of_join_eq {first second firstRest secondRest : List Char}
    (firstPairs : PairsEscape first) (secondPairs : PairsEscape second)
    (firstSuffix : IsSuffix firstRest) (secondSuffix : IsSuffix secondRest)
    (same : first ++ '_' :: '_' :: firstRest = second ++ '_' :: '_' :: secondRest) :
    first = second ∧ firstRest = secondRest := by
  rcases List.append_eq_append_iff.mp same with ⟨middle, longer, rest⟩ | ⟨middle, longer, rest⟩
  · have none := eq_nil_of_append_eq (longer ▸ secondPairs) firstSuffix secondSuffix rest
    rw [none] at longer rest
    exact ⟨by rw [longer, List.append_nil], by simpa using rest⟩
  · have none := eq_nil_of_append_eq (longer ▸ firstPairs) secondSuffix firstSuffix rest
    rw [none] at longer rest
    exact ⟨by rw [longer, List.append_nil], by simpa using rest.symm⟩

theorem IsSuffix.getLast?_join_ne {rest : List Char} (suffix : IsSuffix rest)
    (name : List Char) : (name ++ '_' :: '_' :: rest).getLast? ≠ some 'r' := by
  rw [List.getLast?_append, List.getLast?_cons_cons]
  cases rest with
  | nil => simp
  | cons letter rest =>
    rw [List.getLast?_cons_cons]
    have ended := suffix.unlikeBase
    cases shown : (letter :: rest).getLast? with
    | none => simp at shown
    | some final => simpa [shown] using ended

/-- A suffix adds to a name what no name has. -/
theorem ne_join {first second rest : List Char} (pairs : PairsEscape first)
    (suffix : IsSuffix rest) : first ≠ second ++ '_' :: '_' :: rest := by
  intro same
  have escaped := pairs rest ⟨second, same.symm⟩
  exact absurd (suffix.undigited '0' escaped) (by decide)

end SymbolRole

open SymbolRole

namespace ManagedType

/-- The letters that the descriptor of a regular type begins with. -/
def beginnings : List Char := ['V', 'Z', 'B', 'C', 'S', 'I', 'J', 'F', 'D', 'L', '[']

/-- The letters that the descriptor of a type ends with. -/
def endings : List Char := ['V', 'Z', 'B', 'C', 'S', 'I', 'J', 'F', 'D', ';']

theorem code_mem_beginnings (type : ManagedType) : type.code ∈ beginnings := by
  cases type with
  | void => decide
  | primitive kind => cases kind <;> decide
  | string => exact (by decide : 'L' ∈ beginnings)
  | reference className => exact (by decide : 'L' ∈ beginnings)
  | array element dimension => exact (by decide : '[' ∈ beginnings)

theorem exists_descriptor_ending (type : ManagedType) :
    ∃ before, ∃ ending ∈ endings, type.descriptor.toList = before ++ [ending] := by
  have semicolon (className : String) : ∃ before, ∃ ending ∈ endings,
      (classDescriptor className).toList = before ++ [ending] :=
    ⟨'L' :: className.toList.map slashed, ';', by decide, toList_classDescriptor className⟩
  induction type with
  | void => exact ⟨[], 'V', by decide, rfl⟩
  | primitive kind =>
    refine ⟨[], kind.code, ?_, by simp [descriptor]⟩
    cases kind <;> decide
  | string => exact semicolon stringClass
  | reference className => exact semicolon className
  | array element dimension inductionHypothesis =>
    obtain ⟨before, ending, listed, written⟩ := inductionHypothesis
    exact ⟨List.replicate dimension '[' ++ before, ending, listed, by simp [descriptor, written]⟩

/-- A beginning is the letter itself or the mark of an array. -/
theorem mangleLetter_of_mem_beginnings {letter : Char} (listed : letter ∈ beginnings) :
    (SymbolRole.descriptor.mangleLetter letter = [letter] ∧ letter.isDigit = false ∧
      letter ≠ '_') ∨ SymbolRole.descriptor.mangleLetter letter = ['_', '3'] := by
  have checked : beginnings.all (fun letter =>
      decide ((SymbolRole.descriptor.mangleLetter letter = [letter] ∧ letter.isDigit = false ∧
        letter ≠ '_') ∨ SymbolRole.descriptor.mangleLetter letter = ['_', '3'])) = true := by
    decide
  exact of_decide_eq_true (List.all_eq_true.mp checked letter listed)

theorem getLast?_mangleLetter_of_mem_endings {letter : Char} (listed : letter ∈ endings) :
    (SymbolRole.descriptor.mangleLetter letter).getLast?.any (· ≠ 'r') = true := by
  have checked : endings.all (fun letter =>
      (SymbolRole.descriptor.mangleLetter letter).getLast?.any (· ≠ 'r')) = true := by decide
  exact List.all_eq_true.mp checked letter listed

theorem exists_beginning {types : List ManagedType} (filled : types ≠ [])
    (regular : ∀ type ∈ types, type.isRegular = true) :
    ∃ letter ∈ beginnings, ∃ rest,
      (types.flatMap fun type => type.descriptor.toList) = letter :: rest := by
  cases types with
  | nil => exact absurd rfl filled
  | cons type types =>
    obtain ⟨rest, written⟩ := exists_descriptor_eq (regular type List.mem_cons_self)
    exact ⟨type.code, type.code_mem_beginnings, _, by rw [List.flatMap_cons, written]; rfl⟩

theorem exists_ending {types : List ManagedType} (filled : types ≠ []) :
    ∃ before, ∃ ending ∈ endings,
      (types.flatMap fun type => type.descriptor.toList) = before ++ [ending] := by
  rcases List.eq_nil_or_concat types with none | ⟨others, final, shape⟩
  · exact absurd none filled
  · obtain ⟨before, ending, listed, written⟩ := exists_descriptor_ending final
    refine ⟨(others.flatMap fun type => type.descriptor.toList) ++ before, ending, listed, ?_⟩
    rw [shape, List.concat_eq_append, List.flatMap_append, List.flatMap_singleton, written,
      List.append_assoc]

/-- The descriptors of regular types are mangled to a suffix. -/
theorem isSuffix_mangle {types : List ManagedType}
    (regular : ∀ type ∈ types, type.isRegular = true) :
    IsSuffix ((types.flatMap fun type => type.descriptor.toList).flatMap
      SymbolRole.descriptor.mangleLetter) := by
  by_cases none : types = []
  · rw [none]
    exact ⟨by simp, by simp, by simp⟩
  · obtain ⟨letter, first, rest, written⟩ := exists_beginning none regular
    have shown := mangleLetter_of_mem_beginnings first
    refine ⟨?_, ?_, ?_⟩
    · intro head same
      rw [written, List.flatMap_cons] at same
      rcases shown with ⟨kept, undigited, _⟩ | bracket
      · rw [kept] at same
        cases same
        exact undigited
      · rw [bracket] at same
        cases same
        rfl
    · intro after same
      rw [written, List.flatMap_cons] at same
      rcases shown with ⟨kept, _, unmarked⟩ | bracket
      · rw [kept] at same
        exact absurd (List.cons.inj same).1 unmarked
      · rw [bracket] at same
        cases same
        rfl
    · obtain ⟨before, ending, last, written⟩ := exists_ending none
      have shown := getLast?_mangleLetter_of_mem_endings last
      rw [written, List.flatMap_append, List.flatMap_singleton, List.getLast?_append]
      cases present : (SymbolRole.descriptor.mangleLetter ending).getLast? with
      | none => simp [present] at shown
      | some letter => simpa [present] using shown

end ManagedType

/-- What stands behind the name of an overloaded method. -/
theorem Method.isSuffix_mangle_parametersDescriptor {method : Method}
    (regular : ∀ type ∈ method.parameters.map Parameter.type, type.isRegular = true) :
    IsSuffix (SymbolRole.descriptor.mangle method.parametersDescriptor).toList := by
  rw [toList_mangle, toList_parametersDescriptor]
  exact ManagedType.isSuffix_mangle regular

namespace Peer

theorem toList_symbolOf_false (method : Method) :
    (symbolOf false method).toList = method.name.toList.flatMap member.mangleLetter :=
  member.toList_mangle method.name

theorem toList_symbolOf_true (method : Method) :
    (symbolOf true method).toList = method.name.toList.flatMap member.mangleLetter ++
      '_' :: '_' :: (SymbolRole.descriptor.mangle method.parametersDescriptor).toList := by
  simp [symbolOf]

end Peer

namespace Method.IsOrdinary

variable {baseName : String} {first second method : Method}

theorem pairsEscape (ordinary : method.IsOrdinary baseName) :
    PairsEscape (method.name.toList.flatMap member.mangleLetter) :=
  pairsEscape_mangle ordinary.unpaired

theorem isSuffix (ordinary : method.IsOrdinary baseName) :
    IsSuffix (SymbolRole.descriptor.mangle method.parametersDescriptor).toList :=
  isSuffix_mangle_parametersDescriptor fun type member => (ordinary.types type member).regular

theorem name_eq (firstOrdinary : first.IsOrdinary baseName)
    (secondOrdinary : second.IsOrdinary baseName)
    (same : first.name.toList.flatMap member.mangleLetter =
      second.name.toList.flatMap member.mangleLetter) : first.name = second.name := by
  apply member_mangle_injective firstOrdinary.plain secondOrdinary.plain
  rw [← String.toList_inj, toList_mangle, toList_mangle, same]

theorem types_eq (firstOrdinary : first.IsOrdinary baseName)
    (secondOrdinary : second.IsOrdinary baseName)
    (same : (SymbolRole.descriptor.mangle first.parametersDescriptor).toList =
      (SymbolRole.descriptor.mangle second.parametersDescriptor).toList) :
    first.parameters.map Parameter.type = second.parameters.map Parameter.type := by
  apply types_eq_of_parametersDescriptor_eq
    (fun type member => (firstOrdinary.types type member).describable)
    (fun type member => (secondOrdinary.types type member).describable)
  exact descriptor_mangle_injective (slashesApart_parametersDescriptor firstOrdinary.types)
    (slashesApart_parametersDescriptor secondOrdinary.types) (String.toList_inj.mp same)

/-- The symbol of an ordinary method tells its name, and whether and which parameters it shows. -/
theorem read_symbolOf (firstOrdinary : first.IsOrdinary baseName)
    (secondOrdinary : second.IsOrdinary baseName) {firstDisambiguated secondDisambiguated : Bool}
    (same : Peer.symbolOf firstDisambiguated first = Peer.symbolOf secondDisambiguated second) :
    first.name = second.name ∧ firstDisambiguated = secondDisambiguated ∧
      (firstDisambiguated →
        first.parameters.map Parameter.type = second.parameters.map Parameter.type) := by
  have letters := congrArg String.toList same
  cases firstDisambiguated <;> cases secondDisambiguated <;>
    simp only [Peer.toList_symbolOf_false, Peer.toList_symbolOf_true] at letters
  · exact ⟨firstOrdinary.name_eq secondOrdinary letters, rfl, by simp⟩
  · exact absurd letters (ne_join firstOrdinary.pairsEscape secondOrdinary.isSuffix)
  · exact absurd letters.symm (ne_join secondOrdinary.pairsEscape firstOrdinary.isSuffix)
  · obtain ⟨sameName, sameSuffix⟩ := eq_of_join_eq firstOrdinary.pairsEscape
      secondOrdinary.pairsEscape firstOrdinary.isSuffix secondOrdinary.isSuffix letters
    exact ⟨firstOrdinary.name_eq secondOrdinary sameName, rfl,
      fun _ => firstOrdinary.types_eq secondOrdinary sameSuffix⟩

end Method.IsOrdinary

/-- A mangled name is one of several names that mangling keeps only if it is the name itself. -/
theorem SymbolRole.mem_of_mangle_mem {names : List String}
    (kept : ∀ name ∈ names, Text.hasEscape name.toList = false ∧ member.mangle name = name)
    {name : String} (plain : Text.hasEscape name.toList = false)
    (listed : member.mangle name ∈ names) : name ∈ names := by
  obtain ⟨keptPlain, same⟩ := kept _ listed
  have unchanged := member_mangle_injective plain keptPlain same.symm
  rwa [← unchanged] at listed

/-- The symbol of an ordinary method is neither inherited nor the name of the peer. -/
theorem Method.IsOrdinary.symbolOf_not_reserved {declared : ManagedClass} {method : Method}
    (ordinary : method.IsOrdinary (Peer.baseNameOf declared)) (disambiguated : Bool) :
    Peer.symbolOf disambiguated method ∉ Peer.baseNameOf declared :: inheritedMembers := by
  intro listed
  have kept : ∀ name ∈ inheritedMembers,
      Text.hasEscape name.toList = false ∧ member.mangle name = name := by decide
  cases disambiguated with
  | false =>
    rcases List.mem_cons.mp listed with base | inherited
    · exact ordinary.unlikeBase base
    · exact ordinary.uninherited (mem_of_mangle_mem kept ordinary.plain inherited)
  | true =>
    have letters := Peer.toList_symbolOf_true method
    rcases List.mem_cons.mp listed with base | inherited
    · have ended : (Peer.baseNameOf declared).toList.getLast? = some 'r' := by
        have suffix : peerSuffix.toList.getLast? = some 'r' := rfl
        rw [Peer.baseNameOf, String.toList_append, List.getLast?_append, suffix]
        rfl
      rw [← base, letters] at ended
      exact ordinary.isSuffix.getLast?_join_ne _ ended
    · have unmarked : ∀ name ∈ inheritedMembers, '_' ∉ name.toList := by decide
      refine unmarked _ inherited ?_
      rw [letters]
      simp

end NativePeer
