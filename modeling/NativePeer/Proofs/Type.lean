import NativePeer.Constant

/-
This file says which types are canonical and that every spelling gives one of them.
-/

namespace NativePeer

namespace ManagedType

/-- A name that names a class and nothing else. -/
structure IsClassName (name : String) : Prop where
  nonempty : name ≠ ""
  unseparated : ∀ letter ∈ name.toList, isSeparator letter = false
  proper : ofName name = .reference name

/-- Whether there are arrays of a type that are not arrays of something else. -/
def isElement : ManagedType → Bool
  | .void | .array _ _ => false
  | .primitive _ | .string | .reference _ => true

/-- Whether a type is anything but an array without dimensions or without elements of its own. -/
def isRegular : ManagedType → Bool
  | .array element dimension => dimension ≠ 0 && element.isElement
  | .void | .primitive _ | .string | .reference _ => true

structure IsCanonical (type : ManagedType) : Prop where
  regular : type.isRegular = true
  named : ∀ className, type.referencedClass? = some className → IsClassName className

/-- The names that name no class. -/
def reservedNames : List String :=
  "void" :: "String" :: stringClass :: Primitive.all.map Primitive.name

theorem IsClassName.not_reserved {name : String} (named : IsClassName name) :
    name ∉ reservedNames := by
  have proper := named.proper
  unfold ofName at proper
  split at proper
  · cases proper
  · next noVoid =>
    split at proper
    · cases proper
    · next noString =>
      split at proper
      · cases proper
      · next noPrimitive =>
        have otherKinds : ∀ kind ∈ Primitive.all, kind.name ≠ name := by
          simpa [Primitive.ofName?] using noPrimitive
        rw [not_or] at noString
        simpa [reservedNames, noVoid, noString] using otherKinds

/-- A canonical array has a dimension and an element of its own. -/
theorem IsCanonical.of_array {element : ManagedType} {dimension : Nat}
    (canonical : (array element dimension).IsCanonical) :
    1 ≤ dimension ∧ element ≠ .void ∧ ∀ inner more, element ≠ .array inner more := by
  have regular := canonical.regular
  simp only [isRegular, Bool.and_eq_true, decide_eq_true_eq] at regular
  refine ⟨Nat.one_le_iff_ne_zero.mpr regular.1, ?_, ?_⟩
  · rintro rfl
    cases regular.2
  · rintro inner more rfl
    cases regular.2

/-- A name is canonical, and only `void` is not an element. -/
theorem isCanonical_ofName {name : String} (nonempty : name ≠ "")
    (unseparated : ∀ letter ∈ name.toList, isSeparator letter = false) :
    (ofName name).IsCanonical ∧ (ofName name = .void ∨ (ofName name).isElement = true) := by
  have self : ofName name = .void ∨ ofName name = .string ∨
      (∃ kind, ofName name = .primitive kind) ∨ ofName name = .reference name := by
    unfold ofName
    split
    · exact .inl rfl
    · split
      · exact .inr (.inl rfl)
      · split
        · exact .inr (.inr (.inl ⟨_, rfl⟩))
        · exact .inr (.inr (.inr rfl))
  rcases self with same | same | ⟨kind, same⟩ | same
  · rw [same]
    exact ⟨⟨rfl, by simp [referencedClass?]⟩, .inl rfl⟩
  · rw [same]
    exact ⟨⟨rfl, by simp [referencedClass?]⟩, .inr rfl⟩
  · rw [same]
    exact ⟨⟨rfl, by simp [referencedClass?]⟩, .inr rfl⟩
  · have proper : IsClassName name := ⟨nonempty, unseparated, same⟩
    rw [same]
    refine ⟨⟨rfl, fun className named => ?_⟩, .inr rfl⟩
    cases named
    exact proper

/-- Every spelling of a type is that of a canonical one. -/
theorem isCanonical_of_parse? {text : String} {type : ManagedType}
    (parsed : parse? text = some type) : type.IsCanonical := by
  unfold parse? at parsed
  generalize splitDimensions (Text.trim text.toList).reverse = cut at parsed
  obtain ⟨reversed, dimension⟩ := cut
  dsimp only at parsed
  split at parsed
  · cases parsed
  · next plain =>
    simp only [not_or, Bool.not_eq_true, List.any_eq_false] at plain
    have nonempty : String.ofList reversed.reverse ≠ "" := by simpa using plain.1
    have unseparated : ∀ letter ∈ (String.ofList reversed.reverse).toList,
        isSeparator letter = false := by simpa using plain.2
    obtain ⟨canonical, element⟩ := isCanonical_ofName nonempty unseparated
    split at parsed
    · cases parsed
      exact canonical
    · next positive =>
      split at parsed
      · cases parsed
      · next filled =>
        cases parsed
        refine ⟨?_, canonical.named⟩
        simp [isRegular, positive, element.resolve_left filled]

end ManagedType

/-- A constant has the kind that its text is read with. -/
theorem Constant.kind_of_parse? {kind : Primitive} {text : String} {value : Constant}
    (parsed : parse? kind text = some value) : value.kind = kind := by
  unfold parse? at parsed
  cases kind <;>
    obtain ⟨_, _, same⟩ := Option.map_eq_some_iff.mp parsed <;>
    rw [← same] <;>
    rfl

end NativePeer
