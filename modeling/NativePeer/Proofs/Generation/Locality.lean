import NativePeer.Proofs.Generation.Inclusion
import NativePeer.Proofs.Peer.Constants

/-
This file shows that a peer depends on nothing but its names, its tagged methods, the ancestors of
the classes in their signatures and its constants.
-/

namespace NativePeer

namespace ClassModel

/-- The names of a class and of its ancestors, if the class is there. -/
def standing (model : ClassModel) (name : String) : Option (Except ModelError (List String)) :=
  (model.get? name).map fun declared =>
    (model.ancestry declared).map (List.map ManagedClass.qualifiedName)

/-- The fields of a class and of its ancestors that have macros. -/
def constantFields (model : ClassModel) (declared : ManagedClass) :
    Except ModelError (List Field) :=
  (model.flattenFields declared).map (List.filter Field.isConstant)

variable {model other : ClassModel} {name : String}

theorem isSome_standing (model : ClassModel) (name : String) :
    (model.standing name).isSome = (model.get? name).isSome := by
  simp [standing]

/-- The names of the ancestors decide what a class is a subclass of. -/
theorem isSubclassOf_eq_standing (model : ClassModel) (name ancestor : String) :
    model.isSubclassOf name ancestor =
      if name = ancestor then .ok true
      else match model.standing name with
        | none => .ok false
        | some line => line.map fun names => names.any (· = ancestor) := by
  unfold isSubclassOf standing
  cases model.get? name with
  | none => rfl
  | some declared =>
    dsimp only [Option.map_some]
    cases model.ancestry declared with
    | error error => rfl
    | ok chain => simp [Except.map, List.any_map, Function.comp_def]

theorem isSubclassOf_of_standing (same : model.standing name = other.standing name)
    (ancestor : String) : model.isSubclassOf name ancestor = other.isSubclassOf name ancestor := by
  rw [isSubclassOf_eq_standing, isSubclassOf_eq_standing, same]

end ClassModel

variable {model other : ClassModel} {configuration : Configuration}

namespace NativeType

theorem ofClass_of_standing {className : String}
    (same : model.standing className = other.standing className) :
    ofClass model className = ofClass other className := by
  have present := model.isSome_standing className
  rw [same, other.isSome_standing] at present
  unfold ofClass
  rw [ClassModel.isSubclassOf_of_standing same, ClassModel.isSubclassOf_of_standing same]
  cases here : model.get? className <;> cases there : other.get? className <;>
    simp [here, there] at present ⊢

/-- A native type depends on how the class that is mentioned stands in the model. -/
theorem ofType_of_standing {type : ManagedType}
    (same : ∀ name, type.referencedClass? = some name → model.standing name = other.standing name) :
    ofType model type = ofType other type := by
  cases type with
  | reference className => exact ofClass_of_standing (same className rfl)
  | array element dimension =>
    cases element with
    | reference className =>
      have present := model.isSome_standing className
      rw [same className rfl, other.isSome_standing] at present
      simp only [ofType, ofArray, present]
    | void => rfl
    | primitive kind => rfl
    | string => rfl
    | array inner more => rfl
  | void => rfl
  | primitive kind => rfl
  | string => rfl

end NativeType

/-- Two classes show the same of themselves to a peer. -/
structure ManagedClass.SameFace (first second : ManagedClass) : Prop where
  isTagged : first.isTagged = second.isTagged
  qualifiedName : first.qualifiedName = second.qualifiedName
  simpleName : first.simpleName = second.simpleName
  home : first.home = second.home
  taggedMethods : first.taggedMethods = second.taggedMethods

namespace Peer

/-- Fields without constants are passed over. -/
theorem bindConstants_filter (host : Host) (className : String) (table : SymbolTable)
    (fields : List Field) :
    bindConstants host className table (fields.filter Field.isConstant) =
      bindConstants host className table fields := by
  induction fields generalizing table with
  | nil => rfl
  | cons field fields inductionHypothesis =>
    have unfolded := @bindConstants_cons host className table field fields
    rw [unfolded]
    cases shown : MacroDefinition.ofConstant? host className field with
    | none =>
      have plain : ¬ field.isConstant = true := fun constant =>
        MacroDefinition.ofConstant?_ne_none constant shown
      rw [List.filter_cons_of_neg plain]
      exact inductionHypothesis table
    | some definition =>
      have constant := (MacroDefinition.isConstant_of_ofConstant? shown).1
      rw [List.filter_cons_of_pos constant, bindConstants_cons, shown]
      simp only [inductionHypothesis]

theorem constantsOf_eq_constantFields (emits : configuration.emitsConstants = true)
    (declared : ManagedClass) :
    constantsOf model configuration declared =
      ((model.constantFields declared).mapError .model >>=
        bindConstants configuration.host declared.qualifiedName
          (.reserved declared.qualifiedName [])) := by
  rw [constantsOf, if_pos emits, ClassModel.constantFields]
  cases model.flattenFields declared with
  | error error => rfl
  | ok fields => exact (bindConstants_filter _ _ _ fields).symm

variable {first second : ManagedClass} (face : first.SameFace second)

include face

theorem homeOf_of_face : homeOf configuration first = homeOf configuration second := by
  rw [homeOf, homeOf, face.home, face.qualifiedName]

theorem constantsOf_of_face
    (constants : configuration.emitsConstants = true →
      model.constantFields first = other.constantFields second) :
    constantsOf model configuration first = constantsOf other configuration second := by
  by_cases emits : configuration.emitsConstants = true
  · rw [constantsOf_eq_constantFields emits, constantsOf_eq_constantFields emits, constants emits,
      face.qualifiedName]
  · rw [constantsOf, constantsOf, if_neg emits, if_neg emits]

end Peer

/-- Two classes with the same face have the same peer, or fail in the same way, even in different
models, if the classes in their signatures have ancestors of the same names and if the constants
that are asked for are the same. -/
theorem PeerSource.render_local {first second : ManagedClass} (face : first.SameFace second)
    (standing : ∀ method ∈ first.taggedMethods, ∀ type ∈ method.usedTypes,
      ∀ name, type.referencedClass? = some name → model.standing name = other.standing name)
    (constants : configuration.emitsConstants = true →
      model.constantFields first = other.constantFields second) :
    render model configuration first = render other configuration second := by
  rw [face.taggedMethods] at standing
  have sameMethods (className baseName : String) (table : SymbolTable) :
      Peer.bindMethods model configuration className baseName second.taggedMethods table
          second.taggedMethods =
        Peer.bindMethods other configuration className baseName second.taggedMethods table
          second.taggedMethods :=
    Peer.bindMethods_eq_of_types (fun method member type used =>
      NativeType.ofType_of_standing (standing method member type used)) _ _ _ _
  have sameName : Peer.baseNameOf first = Peer.baseNameOf second := by
    rw [Peer.baseNameOf, Peer.baseNameOf, face.simpleName]
  have sameBinding :
      Peer.bind model configuration first = Peer.bind other configuration second := by
    unfold Peer.bind
    simp only [face.isTagged, face.qualifiedName, face.taggedMethods, sameName, sameMethods,
      Peer.homeOf_of_face face, Peer.constantsOf_of_face face constants]
  rw [render, render, sameBinding]

/-- The constant that the car of the fleet inherits is its own here, and it shares its model with
other classes. -/
def rebuiltCar : ManagedClass :=
  { fleetCar with
    parent := none
    fields := [⟨"colour", .string, false, false, none⟩,
      ⟨"WHEELS", .primitive .byte, true, true, some (.byte 4)⟩]
    methods := ⟨"follow", .void, [], false, false⟩ :: fleetCar.methods }

def rebuiltModel : ClassModel where
  classes := rebuiltCar ::
    { ManagedClass.named "a.Bus" with parent := some "a.Vehicle" } ::
    { ManagedClass.named "a.Vehicle" with
      methods := [⟨"stop", .void, [], true, true⟩] } ::
    { ManagedClass.named "b.Tram" with isTagged := true } :: ClassModel.runtime.classes
  distinct := by decide

theorem PeerSource.render_local_rebuilt :
    fleetCar.SameFace rebuiltCar ∧ fleetCar ≠ rebuiltCar ∧
      render fleetModel emitting fleetCar = render rebuiltModel emitting rebuiltCar ∧
      (render fleetModel emitting fleetCar).result.toOption.isSome = true := by
  have face : fleetCar.SameFace rebuiltCar := ⟨rfl, rfl, rfl, rfl, by decide⟩
  have signatures : ∀ method ∈ fleetCar.taggedMethods, ∀ type ∈ method.usedTypes,
      ∀ name ∈ type.referencedClass?, name = "a.Bus" := by decide
  have standing : fleetModel.standing "a.Bus" = rebuiltModel.standing "a.Bus" := by
    decide +kernel
  have constants : fleetModel.constantFields fleetCar = rebuiltModel.constantFields rebuiltCar := by
    decide +kernel
  refine ⟨face, by decide, render_local face ?_ fun _ => constants, by decide +kernel⟩
  intro method member type used name mentioned
  rw [signatures method member type used name mentioned, standing]

end NativePeer
