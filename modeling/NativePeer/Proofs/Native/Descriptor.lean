import NativePeer.Native.Descriptor
import NativePeer.Proofs.Text.Cut
import NativePeer.Proofs.Type

/-
This file shows that a descriptor reads back to the types that it describes.
-/

namespace NativePeer

/-- The name of a class that a descriptor tells from all others. -/
structure IsDescribableName (className : String) : Prop where
  proper : className ≠ stringClass
  unslashed : '/' ∉ className.toList
  unended : ';' ∉ className.toList

instance (className : String) : Decidable (IsDescribableName className) :=
  decidable_of_iff (className ≠ stringClass ∧ '/' ∉ className.toList ∧ ';' ∉ className.toList)
    ⟨fun parts => ⟨parts.1, parts.2.1, parts.2.2⟩,
      fun named => ⟨named.proper, named.unslashed, named.unended⟩⟩

structure ManagedType.IsDescribable (type : ManagedType) : Prop where
  regular : type.isRegular = true
  named : ∀ className, type.referencedClass? = some className → IsDescribableName className

instance (type : ManagedType) : Decidable type.IsDescribable :=
  decidable_of_iff (type.isRegular = true ∧
      ∀ className ∈ type.referencedClass?, IsDescribableName className)
    ⟨fun parts => ⟨parts.1, parts.2⟩, fun describable => ⟨describable.regular, describable.named⟩⟩

/-- The letter of a class name in a descriptor. -/
def slashed (letter : Char) : Char :=
  if letter = '.' then '/' else letter

/-- The letter of a descriptor in the name of a class. -/
def dotted (letter : Char) : Char :=
  if letter = '/' then '.' else letter

theorem toList_classDescriptor (className : String) :
    (classDescriptor className).toList = 'L' :: (className.toList.map slashed ++ [';']) := by
  simp [classDescriptor, slashed]

theorem slashed_ne_semicolon {letter : Char} (other : letter ≠ ';') : slashed letter ≠ ';' := by
  unfold slashed
  split
  · decide
  · exact other

theorem dotted_slashed {letter : Char} (unslashed : letter ≠ '/') :
    dotted (slashed letter) = letter := by
  unfold slashed
  split
  · next dot => exact dot.symm
  · exact if_neg unslashed

theorem map_dotted_slashed {letters : List Char} (unslashed : '/' ∉ letters) :
    (letters.map slashed).map dotted = letters := by
  rw [List.map_map]
  refine (List.map_congr_left ?_).trans (List.map_id letters)
  exact fun letter inside => dotted_slashed fun same => unslashed (same ▸ inside)

theorem map_slashed_injective {firsts seconds : List Char} (firstUnslashed : '/' ∉ firsts)
    (secondUnslashed : '/' ∉ seconds) (same : firsts.map slashed = seconds.map slashed) :
    firsts = seconds := by
  rw [← map_dotted_slashed firstUnslashed, same, map_dotted_slashed secondUnslashed]

/-- The kind that a letter stands for. -/
def Primitive.ofCode? (letter : Char) : Option Primitive :=
  all.find? fun kind => kind.code = letter

namespace ManagedType

/-- The letter that the descriptor of a regular type begins with. -/
def code : ManagedType → Char
  | .void => 'V'
  | .primitive kind => kind.code
  | .string | .reference _ => 'L'
  | .array _ _ => '['

theorem exists_descriptor_eq {type : ManagedType} (regular : type.isRegular = true) :
    ∃ rest, type.descriptor.toList = type.code :: rest := by
  cases type with
  | void => exact ⟨[], rfl⟩
  | primitive kind => exact ⟨[], by simp [descriptor, code]⟩
  | string => exact ⟨_, toList_classDescriptor stringClass⟩
  | reference className => exact ⟨_, toList_classDescriptor className⟩
  | array element dimension =>
    cases dimension with
    | zero => cases regular
    | succ dimension =>
      simp [descriptor, code, List.replicate_succ]

theorem IsDescribable.of_array {element : ManagedType} {dimension : Nat}
    (describable : (array element dimension).IsDescribable) :
    dimension ≠ 0 ∧ element.isElement = true ∧ element.IsDescribable := by
  have regular := describable.regular
  simp only [isRegular, Bool.and_eq_true, decide_eq_true_eq] at regular
  refine ⟨regular.1, regular.2, ⟨?_, describable.named⟩⟩
  cases element with
  | array inner more => cases regular.2
  | void | primitive | string | reference => rfl

/-- The type that the descriptor of a class stands for. -/
def ofClassName (className : String) : ManagedType :=
  if className = stringClass then .string else .reference className

/-- The type that a text begins with, and what follows it. A semicolon ends the name of a class. -/
def read? : List Char → Option (ManagedType × List Char)
  | [] => none
  | '[' :: letters => (read? letters).map fun inner => (inner.1.arrayOf 1, inner.2)
  | 'L' :: letters =>
    match letters.dropWhile (· ≠ ';') with
    | [] => none
    | _ :: rest =>
      some (ofClassName (String.ofList ((letters.takeWhile (· ≠ ';')).map dotted)), rest)
  | 'V' :: letters => some (.void, letters)
  | letter :: letters => (Primitive.ofCode? letter).map (.primitive ·, letters)

theorem read?_primitive (kind : Primitive) (rest : List Char) :
    read? (kind.code :: rest) = some (.primitive kind, rest) := by
  cases kind <;> rfl

theorem read?_classDescriptor {className : String} (unslashed : '/' ∉ className.toList)
    (unended : ';' ∉ className.toList) (rest : List Char) :
    read? ((classDescriptor className).toList ++ rest) = some (ofClassName className, rest) := by
  have whole : ';' ∉ className.toList.map slashed := by
    intro member
    obtain ⟨letter, inside, ended⟩ := List.mem_map.mp member
    exact slashed_ne_semicolon (fun same => unended (same ▸ inside)) ended
  rw [toList_classDescriptor, List.cons_append, List.append_assoc, List.singleton_append]
  simp only [read?, Text.dropWhile_ne_append_cons whole, Text.takeWhile_ne_append_cons whole,
    map_dotted_slashed unslashed, String.ofList_toList]

/-- A bracket adds a dimension to the type behind it. -/
theorem read?_brackets {element : ManagedType} (proper : element.isElement = true)
    {letters rest : List Char} (inner : read? letters = some (element, rest)) (dimension : Nat) :
    read? (List.replicate (dimension + 1) '[' ++ letters) =
      some (.array element (dimension + 1), rest) := by
  induction dimension with
  | zero =>
    have single : element.arrayOf 1 = .array element 1 := by
      cases element with
      | void | array => cases proper
      | primitive | string | reference => rfl
    rw [List.replicate_one, List.singleton_append, read?, inner, Option.map_some, single]
  | succ dimension inductionHypothesis =>
    rw [List.replicate_succ, List.cons_append, read?, inductionHypothesis]
    rfl

/-- A type reads back from its descriptor, whatever comes after it. -/
theorem read?_descriptor {type : ManagedType} (describable : type.IsDescribable)
    (rest : List Char) : read? (type.descriptor.toList ++ rest) = some (type, rest) := by
  induction type with
  | void => rfl
  | primitive kind =>
    rw [descriptor, String.toList_singleton, List.singleton_append, read?_primitive]
  | string => exact read?_classDescriptor (by decide) (by decide) rest
  | reference className =>
    have named := describable.named className rfl
    rw [descriptor, read?_classDescriptor named.unslashed named.unended, ofClassName,
      if_neg named.proper]
  | array element dimension inductionHypothesis =>
    obtain ⟨positive, proper, inner⟩ := describable.of_array
    obtain ⟨fewer, rfl⟩ := Nat.exists_eq_succ_of_ne_zero positive
    rw [descriptor, String.toList_append, String.toList_ofList, List.append_assoc]
    exact read?_brackets proper (inductionHypothesis inner) fewer

theorem length_lt_of_read? {letters rest : List Char} {type : ManagedType}
    (found : read? letters = some (type, rest)) : rest.length < letters.length := by
  induction letters using read?.induct generalizing type rest with
  | case1 => cases found
  | case2 letters inductionHypothesis =>
    rw [read?, Option.map_eq_some_iff] at found
    obtain ⟨inner, insideFound, same⟩ := found
    cases same
    exact Nat.lt_succ_of_lt (inductionHypothesis insideFound)
  | case3 letters whole =>
    rw [read?, whole] at found
    cases found
  | case4 letters ending after shape =>
    rw [read?, shape] at found
    cases found
    have shorter := (List.dropWhile_suffix (l := letters) (· ≠ ';')).length_le
    rw [shape, List.length_cons] at shorter
    exact Nat.lt_succ_of_lt shorter
  | case5 letters =>
    cases found
    exact Nat.lt_succ_self _
  | case6 letter letters bracket classes empty =>
    rw [read?, Option.map_eq_some_iff] at found
    · obtain ⟨kind, _, same⟩ := found
      cases same
      exact Nat.lt_succ_self _
    · exact bracket
    · exact classes
    · exact empty

/-- All types that a text begins with, and what follows the last of them. -/
def readAll (letters : List Char) : List ManagedType × List Char :=
  match _ : read? letters with
  | none => ([], letters)
  | some (type, rest) =>
    let others := readAll rest
    (type :: others.1, others.2)
termination_by letters.length
decreasing_by exact length_lt_of_read? ‹_›

/-- Descriptors side by side read back up to where no type begins. -/
theorem readAll_descriptors {types : List ManagedType}
    (describable : ∀ type ∈ types, type.IsDescribable) {rest : List Char}
    (ended : read? rest = none) :
    readAll ((types.flatMap fun type => type.descriptor.toList) ++ rest) = (types, rest) := by
  induction types with
  | nil =>
    rw [List.flatMap_nil, List.nil_append, readAll]
    split
    · rfl
    · next found => cases ended.symm.trans found
  | cons type types inductionHypothesis =>
    rw [List.forall_mem_cons] at describable
    rw [List.flatMap_cons, List.append_assoc, readAll]
    have first := read?_descriptor describable.1
      ((types.flatMap fun type => type.descriptor.toList) ++ rest)
    split
    · next failed => cases first.symm.trans failed
    · next found =>
      cases first.symm.trans found
      rw [inductionHypothesis describable.2]

end ManagedType

namespace Method

open ManagedType

/-- The parameter types between the brackets and the return type after them. -/
def readDescriptor? : List Char → Option (List ManagedType × ManagedType)
  | '(' :: letters =>
    match readAll letters with
    | (types, ')' :: rest) =>
      match read? rest with
      | some (returns, []) => some (types, returns)
      | _ => none
    | _ => none
  | _ => none

theorem toList_parametersDescriptor (method : Method) :
    method.parametersDescriptor.toList =
      (method.parameters.map Parameter.type).flatMap fun type => type.descriptor.toList := by
  rw [parametersDescriptor, String.toList_join, List.flatMap_map, List.flatMap_map]

variable {first second method : Method}

/-- The types of the parameters read back from their descriptors. -/
theorem readAll_parametersDescriptor
    (describable : ∀ type ∈ method.parameters.map Parameter.type, type.IsDescribable) :
    readAll method.parametersDescriptor.toList = (method.parameters.map Parameter.type, []) := by
  have ended : read? [] = none := rfl
  have read := readAll_descriptors describable ended
  rwa [List.append_nil, ← toList_parametersDescriptor] at read

/-- All types of a method read back from its descriptor. -/
theorem readDescriptor?_descriptor
    (describable : ∀ type ∈ method.returns :: method.parameters.map Parameter.type,
      type.IsDescribable) :
    readDescriptor? method.descriptor.toList =
      some (method.parameters.map Parameter.type, method.returns) := by
  rw [List.forall_mem_cons] at describable
  have returns := read?_descriptor describable.1 []
  have ended : read? (')' :: (method.returns.descriptor.toList ++ [])) = none := rfl
  have types := readAll_descriptors describable.2 ended
  have parts : method.descriptor.toList = '(' ::
      (((method.parameters.map Parameter.type).flatMap fun type => type.descriptor.toList) ++
        ')' :: (method.returns.descriptor.toList ++ [])) := by
    simp [descriptor, toList_parametersDescriptor]
  rw [parts, readDescriptor?, types]
  simp only [returns]

theorem types_eq_of_parametersDescriptor_eq
    (firstDescribable : ∀ type ∈ first.parameters.map Parameter.type, type.IsDescribable)
    (secondDescribable : ∀ type ∈ second.parameters.map Parameter.type, type.IsDescribable)
    (same : first.parametersDescriptor = second.parametersDescriptor) :
    first.parameters.map Parameter.type = second.parameters.map Parameter.type := by
  have read := readAll_parametersDescriptor firstDescribable
  rw [same, readAll_parametersDescriptor secondDescribable] at read
  exact (Prod.mk.inj read).1.symm

theorem types_eq_of_descriptor_eq
    (firstDescribable : ∀ type ∈ first.returns :: first.parameters.map Parameter.type,
      type.IsDescribable)
    (secondDescribable : ∀ type ∈ second.returns :: second.parameters.map Parameter.type,
      type.IsDescribable)
    (same : first.descriptor = second.descriptor) :
    first.returns = second.returns ∧
      first.parameters.map Parameter.type = second.parameters.map Parameter.type := by
  have read := readDescriptor?_descriptor firstDescribable
  rw [same, readDescriptor?_descriptor secondDescribable, Option.some.injEq, Prod.mk.injEq] at read
  exact ⟨read.2.symm, read.1.symm⟩

/-- A descriptor is read from the left without a look at the method. So it tells all types of the
method, and the part between its brackets tells those of the parameters. -/
theorem descriptor_decodable (first second : Method)
    (firstDescribable : ∀ type ∈ first.returns :: first.parameters.map Parameter.type,
      type.IsDescribable)
    (secondDescribable : ∀ type ∈ second.returns :: second.parameters.map Parameter.type,
      type.IsDescribable) :
    (readDescriptor? first.descriptor.toList =
        some (first.parameters.map Parameter.type, first.returns) ∧
      readAll first.parametersDescriptor.toList = (first.parameters.map Parameter.type, [])) ∧
      (first.descriptor = second.descriptor →
        first.parameters.map Parameter.type = second.parameters.map Parameter.type ∧
          first.returns = second.returns) ∧
      (first.parametersDescriptor = second.parametersDescriptor →
        first.parameters.map Parameter.type = second.parameters.map Parameter.type) := by
  have firstParameters := (List.forall_mem_cons.mp firstDescribable).2
  have secondParameters := (List.forall_mem_cons.mp secondDescribable).2
  refine ⟨⟨readDescriptor?_descriptor firstDescribable,
    readAll_parametersDescriptor firstParameters⟩, ?_, ?_⟩
  · intro same
    exact (types_eq_of_descriptor_eq firstDescribable secondDescribable same).symm
  · exact types_eq_of_parametersDescriptor_eq firstParameters secondParameters

/-- The name of a class may hold the bracket that ends the parameters. -/
def joining : Method :=
  ⟨"join", .string, [⟨"parts", .array (.reference "a.Part)") 2⟩, ⟨"count", .primitive .int⟩], false,
    true⟩

def merging : Method :=
  { joining with
    name := "merge"
    parameters := joining.parameters.map fun parameter => { parameter with name := "other" } }

theorem descriptor_decodable_joining :
    (∀ type ∈ joining.returns :: joining.parameters.map Parameter.type, type.IsDescribable) ∧
      (∀ type ∈ merging.returns :: merging.parameters.map Parameter.type, type.IsDescribable) ∧
      joining.descriptor = merging.descriptor ∧
      joining.parameters.map Parameter.type = merging.parameters.map Parameter.type ∧
      readDescriptor? "([[La/Part);I)Ljava/lang/String;".toList =
        some ([.array (.reference "a.Part)") 2, .primitive .int], .string) := by
  have describable : ∀ type ∈ joining.returns :: joining.parameters.map Parameter.type,
      type.IsDescribable := by decide
  have otherDescribable : ∀ type ∈ merging.returns :: merging.parameters.map Parameter.type,
      type.IsDescribable := by decide
  have written : joining.descriptor = "([[La/Part);I)Ljava/lang/String;" := by decide +kernel
  have same : joining.descriptor = merging.descriptor := by decide +kernel
  obtain ⟨⟨read, _⟩, types, _⟩ := descriptor_decodable joining merging describable otherDescribable
  rw [written] at read
  exact ⟨describable, otherDescribable, same, (types same).1, read⟩

end Method

end NativePeer
