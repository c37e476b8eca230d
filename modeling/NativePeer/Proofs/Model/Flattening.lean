import NativePeer.Proofs.Model.Subtyping

/-
This file shows that the fields of a class are those of its parent followed by its own.
-/

namespace NativePeer.ClassModel

open Relation

variable {model : ClassModel} {declared parent ancestor : ManagedClass} {fields : List Field}

theorem flattenFields_eq_ok :
    model.flattenFields declared = .ok fields ↔ ∃ chain, model.ancestry declared = .ok chain ∧
      fields = chain.reverse.flatMap ManagedClass.fields := by
  simp only [flattenFields, except_map_eq_ok, eq_comm (a := fields)]

theorem flattenFields_of_root (root : declared.parent = none) :
    model.flattenFields declared = .ok declared.fields := by
  refine flattenFields_eq_ok.mpr ⟨[declared], ancestry_of_root root, ?_⟩
  rw [List.reverse_singleton, List.flatMap_singleton]

/-- The fields of a class come after those of its parent. -/
theorem flattenFields_of_parent (found : model.parentOf declared = .ok (some parent)) :
    model.flattenFields declared = .ok fields ↔
      ∃ inherited above, model.flattenFields parent = .ok inherited ∧
        model.ancestry parent = .ok above ∧
        declared.qualifiedName ∉ above.map ManagedClass.qualifiedName ∧
        fields = inherited ++ declared.fields := by
  have joined (above : List ManagedClass) :
      (declared :: above).reverse.flatMap ManagedClass.fields =
      above.reverse.flatMap ManagedClass.fields ++ declared.fields := by
    rw [List.reverse_cons, List.flatMap_append, List.flatMap_singleton]
  simp only [flattenFields_eq_ok, ancestry_of_parent found]
  constructor
  · rintro ⟨_, ⟨above, walked, fresh, rfl⟩, rfl⟩
    exact ⟨_, above, ⟨above, walked, rfl⟩, walked, fresh, joined above⟩
  · rintro ⟨_, above, ⟨_, walked, rfl⟩, walkedAgain, fresh, rfl⟩
    cases walked.symm.trans walkedAgain
    exact ⟨_, ⟨above, walked, fresh, rfl⟩, (joined above).symm⟩

/-- The fields of every ancestor come first, in the order that they have there. -/
theorem flattenFields_prefix (flattened : model.flattenFields declared = .ok fields)
    (reached : ReflTransGen (fun child parent => model.parentOf child = .ok (some parent)) declared
      ancestor) :
    ∃ inherited, model.flattenFields ancestor = .ok inherited ∧ inherited <+: fields := by
  induction reached with
  | refl => exact ⟨fields, flattened, List.prefix_rfl⟩
  | tail _ found inductionHypothesis =>
    obtain ⟨lower, lowerFlattened, begins⟩ := inductionHypothesis
    obtain ⟨inherited, _, flattenedAbove, _, _, rfl⟩ :=
      (flattenFields_of_parent found).mp lowerFlattened
    exact ⟨inherited, flattenedAbove, (List.prefix_append _ _).trans begins⟩

/-- A class with an ancestry inherits from the classes that its parents lead to. -/
theorem reaches_of_inherits (member : declared ∈ model.classes)
    (ancestorMember : ancestor ∈ model.classes)
    (inherits : model.Inherits declared.qualifiedName ancestor.qualifiedName)
    {chain : List ManagedClass} (walked : model.ancestry declared = .ok chain) :
    ReflTransGen (fun child parent => model.parentOf child = .ok (some parent)) declared
      ancestor := by
  obtain ⟨_, line, _⟩ := ancestry_eq_ok.mp walked
  have listed : ancestor.qualifiedName ∈ chain.map ManagedClass.qualifiedName := by
    rcases inherits_iff.mp inherits with same | ⟨reached, _⟩
    · exact mem_ancestry_of_reaches member walked (same ▸ .refl)
    · exact mem_ancestry_of_reaches member walked reached
  obtain ⟨other, inside, same⟩ := List.mem_map.mp listed
  obtain rfl := eq_of_name_eq (line.mem_classes member other inside) ancestorMember same
  exact line.induction .refl (fun _ _ found reached => reached.tail found) other inside

/-- The fields of a class without parent are its own. Below a parent a class has fields exactly if
the parent has and if the name of the class does not come again above it, and they are those of the
parent followed by its own. So the fields of a class begin with those of every class that parents
lead to, which in the model are the classes that it inherits from. -/
theorem flattenFields_recursion (model : ClassModel) (declared : ManagedClass) :
    (declared.parent = none → model.flattenFields declared = .ok declared.fields) ∧
      (∀ name parent, declared.parent = some name → model.get? name = some parent →
        ∀ fields, model.flattenFields declared = .ok fields ↔
          ∃ inherited above, model.flattenFields parent = .ok inherited ∧
            model.ancestry parent = .ok above ∧
            declared.qualifiedName ∉ above.map ManagedClass.qualifiedName ∧
            fields = inherited ++ declared.fields) ∧
      ∀ fields, model.flattenFields declared = .ok fields → ∀ ancestor,
        ReflTransGen (fun child parent => model.parentOf child = .ok (some parent)) declared
            ancestor ∨
          declared ∈ model.classes ∧ ancestor ∈ model.classes ∧
            model.isSubclassOf declared.qualifiedName ancestor.qualifiedName = .ok true →
        ∃ inherited, model.flattenFields ancestor = .ok inherited ∧ inherited <+: fields := by
  refine ⟨flattenFields_of_root, ?_, ?_⟩
  · intro name parent above present fields
    obtain ⟨member, rfl⟩ := get?_eq_some.mp present
    exact flattenFields_of_parent (parentOf_eq_some.mpr ⟨member, above⟩)
  · rintro fields flattened ancestor (reached | ⟨member, ancestorMember, inherits⟩)
    · exact flattenFields_prefix flattened reached
    · obtain ⟨chain, walked, _⟩ := flattenFields_eq_ok.mp flattened
      exact flattenFields_prefix flattened
        (reaches_of_inherits member ancestorMember inherits walked)

def layeredVehicle : ManagedClass :=
  { ManagedClass.named "v.Vehicle" with
    fields := [⟨"wheels", .primitive .int, false, false, none⟩,
      ⟨"seats", .primitive .int, false, false, none⟩] }

def layeredCar : ManagedClass :=
  { ManagedClass.named "v.Car" with
    parent := some "v.Vehicle"
    fields := [⟨"doors", .primitive .int, false, false, none⟩] }

def layeredSportsCar : ManagedClass :=
  { ManagedClass.named "v.SportsCar" with
    parent := some "v.Car"
    fields := [⟨"spoiler", .primitive .boolean, false, false, none⟩] }

def layeredModel : ClassModel where
  classes := [layeredSportsCar, layeredCar, layeredVehicle]
  distinct := by decide

/-- A class that is not in the model may have the name of one above its parent. Then it has no
fields, while each class of the model begins with the fields of the next. -/
theorem flattenFields_recursion_layered :
    (∃ inherited, layeredModel.flattenFields layeredVehicle = .ok inherited ∧
      inherited <+: layeredVehicle.fields ++ layeredCar.fields ++ layeredSportsCar.fields) ∧
    ∀ fields,
      layeredModel.flattenFields { ManagedClass.named "v.Vehicle" with parent := some "v.Car" } ≠
        .ok fields := by
  have vehicle := (flattenFields_recursion layeredModel layeredVehicle).1 rfl
  have vehicleWalk : layeredModel.ancestry layeredVehicle = .ok [layeredVehicle] :=
    ancestry_of_root rfl
  have car := ((flattenFields_recursion layeredModel layeredCar).2.1 "v.Vehicle" layeredVehicle rfl
    (by decide) _).mpr ⟨_, _, vehicle, vehicleWalk, by decide, rfl⟩
  have carWalk : layeredModel.ancestry layeredCar = .ok [layeredCar, layeredVehicle] := by
    decide +kernel
  have sportsCar := ((flattenFields_recursion layeredModel layeredSportsCar).2.1 "v.Car" layeredCar
    rfl (by decide) _).mpr ⟨_, _, car, carWalk, by decide, rfl⟩
  refine ⟨?_, ?_⟩
  · exact (flattenFields_recursion layeredModel layeredSportsCar).2.2 _ sportsCar layeredVehicle
      (.inr ⟨by decide, by decide, by decide +kernel⟩)
  · intro fields flattened
    obtain ⟨_, above, _, walked, fresh, _⟩ := ((flattenFields_recursion layeredModel _).2.1 "v.Car"
      layeredCar rfl (by decide) fields).mp flattened
    cases carWalk.symm.trans walked
    exact fresh (by decide)

end NativePeer.ClassModel
