import Mathlib.Logic.Function.Basic
import NativePeer.Proofs.Peer.Lines

/-
This file runs the directives that define the macros of a file.
-/

namespace NativePeer

open Text

inductive Directive where
  | undefine (symbol : String)
  | define (symbol body : String)
  deriving DecidableEq

/-- What a symbol is replaced by, if it is a macro. -/
abbrev MacroTable := String → Option String

namespace Directive

/-- The symbol of a definition ends at the first blank. -/
def ofLine? (line : List Char) : Option Directive :=
  match "#undef ".toList.isPrefixOf? line with
  | some symbol => some (.undefine (String.ofList symbol))
  | none => ("#define ".toList.isPrefixOf? line).map fun rest =>
      .define (String.ofList (rest.takeWhile (· ≠ ' ')))
        (String.ofList ((rest.dropWhile (· ≠ ' ')).drop 1))

/-- A macro is not defined again with another body. -/
def run (table : MacroTable) : Directive → Option MacroTable
  | .undefine symbol => some (Function.update table symbol none)
  | .define symbol body =>
    if table symbol = none ∨ table symbol = some body then
      some (Function.update table symbol (some body))
    else none

end Directive

/-- The macros after the directives of a file have been run in their order. -/
def MacroTable.ofFile? (host : Host) (file : Bytes) : Option MacroTable :=
  ((fileLines host file).filterMap Directive.ofLine?).foldlM Directive.run fun _ => none

namespace Directive

theorem ofLine?_eq_none {line : List Char} (other : line.head? ≠ some '#') :
    ofLine? line = none := by
  cases line with
  | nil => rfl
  | cons letter letters =>
    have different : letter ≠ '#' := fun same => other (congrArg some same)
    simp [ofLine?, List.isPrefixOf?, different.symm]

/-- A file shows no other letter as a number sign. -/
theorem ofLine?_shown {line : String} (other : line.toList.head? ≠ some '#') :
    ofLine? (line.toList.map shownLetter) = none := by
  refine ofLine?_eq_none ?_
  cases letters : line.toList with
  | nil => simp
  | cons letter rest =>
    rw [List.map_cons, List.head?_cons, Option.some_inj.ne]
    intro shown
    by_cases small : letter.toNat < 0x100
    · rw [shownLetter_of_lt small] at shown
      exact other (by rw [letters, List.head?_cons, shown])
    · rw [shownLetter, latin1Byte, if_neg small] at shown
      exact absurd shown (by decide)

end Directive

namespace MacroDefinition

def directives (definition : MacroDefinition) : List Directive :=
  [.undefine definition.symbol, .define definition.symbol definition.literal]

theorem ofLine?_lines {definition : MacroDefinition}
    (symbolic : Within (isSymbolLetter · = true) definition.symbol) :
    (definition.lines.filterMap fun line => Directive.ofLine? line.toList) =
      definition.directives := by
  have undefined : Directive.ofLine? ("#undef " ++ definition.symbol).toList =
      some (.undefine definition.symbol) := by
    have begun : "#undef ".toList.isPrefixOf? ("#undef " ++ definition.symbol).toList =
        some definition.symbol.toList := by
      rw [List.isPrefixOf?_eq_some_iff_append_eq, String.toList_append]
    simp only [Directive.ofLine?, begun, String.ofList_toList]
  have defined : Directive.ofLine?
      ("#define " ++ definition.symbol ++ " " ++ definition.literal).toList =
      some (.define definition.symbol definition.literal) := by
    have blank : " ".toList = [' '] := rfl
    have spelled : ("#define " ++ definition.symbol ++ " " ++ definition.literal).toList =
        "#define ".toList ++ (definition.symbol.toList ++ ' ' :: definition.literal.toList) := by
      simp only [String.toList_append, blank, List.append_assoc, List.singleton_append]
    have other : "#undef ".toList.isPrefixOf?
        ("#define ".toList ++ (definition.symbol.toList ++ ' ' :: definition.literal.toList)) =
        none := rfl
    have begun : "#define ".toList.isPrefixOf?
        ("#define ".toList ++ (definition.symbol.toList ++ ' ' :: definition.literal.toList)) =
        some (definition.symbol.toList ++ ' ' :: definition.literal.toList) :=
      List.isPrefixOf?_eq_some_iff_append_eq.mpr rfl
    have whole : ' ' ∉ definition.symbol.toList := symbolic.not_mem (by decide)
    rw [spelled, Directive.ofLine?, other, begun, Option.map_some, takeWhile_ne_append_cons whole,
      dropWhile_ne_append_cons whole, List.drop_succ_cons, List.drop_zero, String.ofList_toList,
      String.ofList_toList]
  simp only [lines, List.filterMap_cons, undefined, defined, List.filterMap_nil, directives]

/-- The table after a definition. -/
def addTo (table : MacroTable) (definition : MacroDefinition) : MacroTable :=
  Function.update table definition.symbol (some definition.literal)

theorem foldlM_run_directives (definitions : List MacroDefinition) (table : MacroTable) :
    (definitions.flatMap directives).foldlM Directive.run table =
      some (definitions.foldl addTo table) := by
  induction definitions generalizing table with
  | nil => rfl
  | cons definition definitions inductionHypothesis =>
    have defined : definition.directives.foldlM Directive.run table =
        some (addTo table definition) := by
      simp [directives, Directive.run, addTo]
    rw [List.flatMap_cons, List.foldlM_append, defined, Option.bind_eq_bind, Option.bind_some,
      inductionHypothesis, List.foldl_cons]

/-- The text for a symbol. -/
def literalOf? (symbol : String) (definition : MacroDefinition) : Option String :=
  if definition.symbol = symbol then some definition.literal else none

/-- The last definition of a symbol counts. -/
theorem foldl_addTo (definitions : List MacroDefinition) (table : MacroTable) (symbol : String) :
    definitions.foldl addTo table symbol =
      ((definitions.filterMap (literalOf? symbol)).getLast?).or (table symbol) := by
  induction definitions generalizing table with
  | nil => rfl
  | cons definition definitions inductionHypothesis =>
    rw [List.foldl_cons, inductionHypothesis, ← List.singleton_append, List.filterMap_append,
      List.getLast?_append, Option.or_assoc]
    congr 1
    by_cases same : definition.symbol = symbol
    · rw [addTo, ← same, Function.update_self]
      simp [literalOf?]
    · rw [addTo, Function.update_of_ne (Ne.symm same)]
      simp [literalOf?, same]

end MacroDefinition

namespace Namespace

theorem head?_beginning (home : Namespace) : home.beginning.toList.head? = some 'n' := by
  obtain ⟨segments, nonempty, _⟩ := home
  obtain ⟨segment, rest, rfl⟩ := List.exists_cons_of_ne_nil nonempty
  rw [beginning, List.map_cons, String.join_cons, String.append_assoc, String.append_assoc,
    String.toList_append]
  rfl

theorem head?_ending (home : Namespace) : home.ending.toList.head? = some '\x7d' := by
  obtain ⟨segments, nonempty, _⟩ := home
  obtain ⟨segment, rest, rfl⟩ := List.exists_cons_of_ne_nil nonempty
  rw [ending, List.map_cons, String.join_cons, String.append_assoc, String.append_assoc,
    String.toList_append]
  rfl

end Namespace

namespace Peer

variable {peer : Peer}

/-- The macros of a peer have the only directives of its declaration. -/
theorem filterMap_declaration
    (constants : ∀ definition ∈ peer.constants,
      Within (isSymbolLetter · = true) definition.symbol ∧
        Within (isTemplateLetter · = true) definition.literal) :
    (peer.declaration.filterMap fun line => Directive.ofLine? (line.toList.map shownLetter)) =
      peer.constants.flatMap MacroDefinition.directives := by
  have template : ∀ letter, isTemplateLetter letter = true → isPlainLetter letter = true :=
    fun _ => isPlainLetter_of_isTemplateLetter
  have macros : (peer.constantLines.filterMap fun line =>
      Directive.ofLine? (line.toList.map shownLetter)) =
      peer.constants.flatMap MacroDefinition.directives := by
    unfold constantLines
    split
    · next none => rw [none]; rfl
    · have blank : ([""].filterMap fun line =>
          Directive.ofLine? (line.toList.map shownLetter)) = [] := rfl
      rw [List.filterMap_append, blank, List.append_nil, List.filterMap_flatMap]
      refine List.flatMap_congr fun definition listed => ?_
      obtain ⟨symbolic, written⟩ := constants definition listed
      rw [← MacroDefinition.ofLine?_lines symbolic]
      refine List.filterMap_congr fun line member => ?_
      rw [map_shownLetter (definition.within_lines (flat_of_template template)
        (within_of_symbol template symbolic) (written.mono template) line member)]
  have preamble : ([notice, "#pragma once", "", "#include <JNIManagedPeer.h>", "#include <jni.h>",
      ""].filterMap fun line => Directive.ofLine? (line.toList.map shownLetter)) = [] := by
    decide +kernel
  have silent {lines : List String} (every : ∀ line ∈ lines, line.toList.head? ≠ some '#') :
      (lines.filterMap fun line => Directive.ofLine? (line.toList.map shownLetter)) = [] :=
    List.filterMap_eq_nil_iff.mpr fun line member => Directive.ofLine?_shown (every line member)
  rw [declaration, List.filterMap_append, List.filterMap_append, List.filterMap_append,
    List.filterMap_append, preamble, macros, List.nil_append, silent, silent, silent,
    List.append_nil, List.append_nil, List.append_nil]
  · simp [Namespace.head?_ending]
  · rw [List.forall_mem_map]
    intro shown _
    rw [BoundMethod.prototype, String.append_assoc, String.append_assoc, String.toList_append]
    exact fun same => absurd (Option.some_inj.mp same) (by decide)
  · simp [Namespace.head?_beginning]

section File

variable (symbolic : peer.IsSymbolic)
  (constants : ∀ definition ∈ peer.constants,
    Within (isSymbolLetter · = true) definition.symbol ∧
      Within (isTemplateLetter · = true) definition.literal)
  (unbroken : ∀ segment ∈ peer.home.segments, '\n' ∉ segment.toList)

include symbolic constants unbroken

theorem filterMap_fileLines_declaration (host : Host) :
    (fileLines host (PeerSource.encode host peer.declaration)).filterMap Directive.ofLine? =
      peer.constants.flatMap MacroDefinition.directives := by
  have template : ∀ letter, isTemplateLetter letter = true → letter ≠ '\n' :=
    fun _ plain => (lt_of_isTemplateLetter plain).2.1
  have lines := within_declaration template symbolic
    (fun segment listed letter member same => unbroken segment listed (same ▸ member))
    fun definition listed => ⟨within_of_symbol template (constants definition listed).1,
      (constants definition listed).2.mono template⟩
  have whole : ∀ line ∈ peer.declaration, '\n' ∉ line.toList :=
    fun line member feed => lines line member '\n' feed rfl
  have last : [[]].filterMap Directive.ofLine? = [] := rfl
  rw [PeerSource.fileLines_encode_of_unbroken host whole, List.filterMap_append,
    List.filterMap_map, last, List.append_nil]
  exact filterMap_declaration constants

theorem ofFile?_declaration (host : Host) :
    MacroTable.ofFile? host (PeerSource.encode host peer.declaration) =
      some (peer.constants.foldl MacroDefinition.addTo fun _ => none) := by
  rw [MacroTable.ofFile?, filterMap_fileLines_declaration symbolic constants unbroken]
  exact MacroDefinition.foldlM_run_directives peer.constants _

end File

end Peer

end NativePeer
