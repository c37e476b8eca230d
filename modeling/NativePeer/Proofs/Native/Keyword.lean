import Mathlib.Data.List.Basic
import NativePeer.Proofs.Native.Identifier
import NativePeer.Proofs.Native.Injectivity

/-
This file shows which managed names are mangled to keywords of the native language.
-/

namespace NativePeer

/-- The keywords and the alternative operators of the native language. -/
def nativeKeywords : List String :=
  ["alignas", "alignof", "and", "and_eq", "asm", "auto", "bitand", "bitor", "bool", "break",
   "case", "catch", "char", "char8_t", "char16_t", "char32_t", "class", "compl", "concept",
   "const", "consteval", "constexpr", "constinit", "const_cast", "continue", "co_await",
   "co_return", "co_yield", "decltype", "default", "delete", "do", "double", "dynamic_cast",
   "else", "enum", "explicit", "export", "extern", "false", "float", "for", "friend", "goto",
   "if", "inline", "int", "long", "mutable", "namespace", "new", "noexcept", "not", "not_eq",
   "nullptr", "operator", "or", "or_eq", "private", "protected", "public", "register",
   "reinterpret_cast", "requires", "return", "short", "signed", "sizeof", "static",
   "static_assert", "static_cast", "struct", "switch", "template", "this", "thread_local",
   "throw", "true", "try", "typedef", "typeid", "typename", "union", "unsigned", "using",
   "virtual", "void", "volatile", "wchar_t", "while", "xor", "xor_eq"]

/-- The words that are no names in the managed language. A lone underscore counts as a name, as it
did at first. -/
def managedKeywords : List String :=
  ["abstract", "assert", "boolean", "break", "byte", "case", "catch", "char", "class", "const",
   "continue", "default", "do", "double", "else", "enum", "extends", "false", "final", "finally",
   "float", "for", "goto", "if", "implements", "import", "instanceof", "int", "interface", "long",
   "native", "new", "null", "package", "private", "protected", "public", "return", "short",
   "static", "strictfp", "super", "switch", "synchronized", "this", "throw", "throws", "transient",
   "true", "try", "void", "volatile", "while"]

/-- The keywords of the native language that are names in the managed language. -/
def nativeOnlyKeywords : List String :=
  nativeKeywords.filter (· ∉ managedKeywords)

/-- A word without escapes, with at most one underscore and without the capital of a peer. -/
structure IsPlainWord (word : String) : Prop where
  letters : Text.Within
    (fun letter => isSymbolLetter letter = true ∧ letter ≠ '0' ∧ letter ≠ 'M') word
  underscores : word.toList.count '_' ≤ 1

instance (word : String) : Decidable (IsPlainWord word) :=
  decidable_of_iff (Text.Within
      (fun letter => isSymbolLetter letter = true ∧ letter ≠ '0' ∧ letter ≠ 'M') word ∧
      word.toList.count '_' ≤ 1)
    ⟨fun both => ⟨both.1, both.2⟩, fun plain => ⟨plain.letters, plain.underscores⟩⟩

theorem plain_of_mem_nativeKeywords :
    ∀ {word : String}, word ∈ nativeKeywords → IsPlainWord word := by
  decide +kernel

def IsManagedStart (letter : Char) : Prop :=
  IsIdentifierStart letter ∨ letter = '$' ∨ 0x80 ≤ letter.toNat

/-- Behind the first letter stand digits too, and control characters that do not count. -/
def IsManagedPart (letter : Char) : Prop :=
  IsManagedStart letter ∨ letter.isDigit = true ∨ letter.toNat ≤ 0x08 ∨
    (0x0E ≤ letter.toNat ∧ letter.toNat ≤ 0x1B) ∨ letter.toNat = 0x7F

instance (letter : Char) : Decidable (IsManagedStart letter) :=
  inferInstanceAs (Decidable (_ ∨ _))

instance (letter : Char) : Decidable (IsManagedPart letter) :=
  inferInstanceAs (Decidable (_ ∨ _))

/-- A name of the managed language. All letters beyond ASCII are taken for letters of names. -/
structure IsManagedName (name : String) : Prop where
  starts : ∃ first ∈ name.toList.head?, IsManagedStart first
  letters : Text.Within IsManagedPart name
  free : name ∉ managedKeywords

theorem isManagedName_iff {name : String} :
    IsManagedName name ↔ (name.toList.head?.any fun first => decide (IsManagedStart first)) = true ∧
      Text.Within IsManagedPart name ∧ name ∉ managedKeywords := by
  rw [Option.any_eq_true]
  simp only [decide_eq_true_eq]
  exact ⟨fun managed => ⟨managed.starts, managed.letters, managed.free⟩,
    fun ⟨starts, letters, free⟩ => ⟨starts, letters, free⟩⟩

instance (name : String) : Decidable (IsManagedName name) :=
  decidable_of_iff _ isManagedName_iff.symm

theorem IsIdentifier.append {first second : String} (identifier : IsIdentifier first)
    (letters : Text.Within (isSymbolLetter · = true) second) : IsIdentifier (first ++ second) where
  starts := by
    obtain ⟨letter, begun, starts⟩ := identifier.starts
    rw [String.toList_append]
    exact ⟨letter, List.mem_head?_append_of_mem_head? begun, starts⟩
  letters := Text.within_append.mpr
    ⟨identifier.letters, letters.mono fun _ => isSymbolLetter_iff.mp⟩

/-- An ASCII letter or digit that begins a managed name is a letter. -/
theorem IsManagedStart.isIdentifierStart {letter : Char} (starts : IsManagedStart letter)
    (plain : letter.isAlphanum = true) : IsIdentifierStart letter := by
  rcases starts with start | rfl | beyond
  · exact start
  · cases plain
  · have symbolic : isSymbolLetter letter = true := by
      rw [isSymbolLetter, plain, Bool.true_or]
    have small := (Text.lt_of_isTemplateLetter
      (Text.isTemplateLetter_of_isSymbolLetter symbolic)).1
    omega

namespace SymbolRole

/-- A mangled name is an identifier. -/
theorem isIdentifier_mangle (role : SymbolRole) {name : String} (managed : IsManagedName name) :
    IsIdentifier (role.mangle name) := by
  constructor
  · obtain ⟨first, begun, starts⟩ := managed.starts
    obtain ⟨rest, letters⟩ := List.head?_eq_some_iff.mp (Option.mem_def.mp begun)
    rw [toList_mangle, letters, List.flatMap_cons, head?_mangleLetter_append]
    refine ⟨_, rfl, ?_⟩
    split
    · next plain => exact starts.isIdentifierStart plain
    · exact .inr (.inr rfl)
  · exact (role.within_mangle name).mono fun _ => isSymbolLetter_iff.mp

theorem member_mangle_eq_self {name : String}
    (single : ∀ letter ∈ name.toList, member.mangleLetter letter = [letter]) :
    member.mangle name = name := by
  rw [← String.toList_inj, toList_mangle, List.flatMap_congr single, List.flatMap_singleton']

/-- A letter that is not written as it is has an escape. -/
theorem member_mangleLetter_eq_singleton_or (letter : Char) :
    member.mangleLetter letter = [letter] ∨ '0' ∈ member.mangleLetter letter := by
  cases ordinary : letter.isAlphanum with
  | true => exact .inl (mangleLetter_of_isAlphanum ordinary)
  | false =>
    by_cases underscore : letter = '_'
    · rw [underscore]
      exact .inl rfl
    · obtain ⟨unit, tail, begun⟩ := Text.exists_escapeLetter_eq letter
      rw [mangleLetter_of_escaped ordinary (member_replacement?_eq_none underscore), begun]
      exact .inr (List.mem_cons_of_mem _ List.mem_cons_self)

/-- A member is a keyword exactly when its name is. -/
theorem member_mangle_mem_nativeKeywords {name : String} :
    member.mangle name ∈ nativeKeywords ↔ name ∈ nativeKeywords := by
  constructor
  · intro listed
    have same : member.mangle name = name := by
      apply member_mangle_eq_self
      intro letter inside
      rcases member_mangleLetter_eq_singleton_or letter with single | escaped
      · exact single
      · have shown := List.mem_flatMap_of_mem inside escaped
        rw [← toList_mangle] at shown
        exact absurd rfl ((plain_of_mem_nativeKeywords listed).letters _ shown).2.1
    rwa [same] at listed
  · intro listed
    have same : member.mangle name = name := by
      apply member_mangle_eq_self
      intro letter inside
      have symbolic := ((plain_of_mem_nativeKeywords listed).letters letter inside).1
      rw [isSymbolLetter, Bool.or_eq_true, decide_eq_true_eq] at symbolic
      rcases symbolic with ordinary | rfl
      · exact mangleLetter_of_isAlphanum ordinary
      · rfl
    rwa [same]

end SymbolRole

end NativePeer
