import NativePeer.Model.Basic

/-
This file shows that the classes of a registry and the index of their names stay in step, whatever
classes are added and whatever additions are refused.
-/

namespace NativePeer

namespace Registry

/-- Every call is made, whatever the calls before it answer. -/
def addEach (registry : Registry) : List ManagedClass → Registry × List (Except Duplicate Unit)
  | [] => (registry, [])
  | added :: calls =>
    let first := registry.add added
    let others := first.1.addEach calls
    (others.1, first.2 :: others.2)

/-- The classes whose calls succeeded, in the order of the calls. -/
def accepted : List ManagedClass → List (Except Duplicate Unit) → List ManagedClass
  | added :: calls, .ok _ :: answers => added :: accepted calls answers
  | _ :: calls, .error _ :: answers => accepted calls answers
  | _, _ => []

variable {registry : Registry}

theorem addEach_cons (added : ManagedClass) (calls : List ManagedClass) :
    registry.addEach (added :: calls) =
      (((registry.add added).1.addEach calls).1,
        (registry.add added).2 :: ((registry.add added).1.addEach calls).2) :=
  rfl

theorem length_addEach (calls : List ManagedClass) :
    (registry.addEach calls).2.length = calls.length := by
  induction calls generalizing registry with
  | nil => rfl
  | cons added calls inductionHypothesis =>
    rw [addEach_cons, List.length_cons, List.length_cons, inductionHypothesis]

theorem IsSound.addEach (sound : registry.IsSound) (calls : List ManagedClass) :
    (registry.addEach calls).1.IsSound := by
  induction calls generalizing registry with
  | nil => exact sound
  | cons added calls inductionHypothesis => exact inductionHypothesis (sound.add added)

theorem IsSound.add_eq_ok (sound : registry.IsSound) {added : ManagedClass} :
    (registry.add added).2 = .ok () ↔
      added.qualifiedName ∉ registry.classes.map ManagedClass.qualifiedName := by
  by_cases fresh : added.qualifiedName ∉ registry.classes.map ManagedClass.qualifiedName
  · rw [sound.add_of_fresh fresh]
    exact iff_of_true rfl fresh
  · rw [sound.add_of_taken (Decidable.not_not.mp fresh)]
    exact iff_of_false nofun fresh

/-- A refused call names the class and has no effect. -/
theorem IsSound.add_eq_error (sound : registry.IsSound) {added : ManagedClass} {error : Duplicate}
    (refused : (registry.add added).2 = .error error) :
    error = .managedClass added.qualifiedName ∧ (registry.add added).1 = registry := by
  by_cases fresh : added.qualifiedName ∉ registry.classes.map ManagedClass.qualifiedName
  · rw [sound.add_of_fresh fresh] at refused
    cases refused
  · rw [sound.add_of_taken (Decidable.not_not.mp fresh)] at refused ⊢
    cases refused
    exact ⟨rfl, rfl⟩

/-- One call adds its class or nothing. -/
theorem classes_add (registry : Registry) (added : ManagedClass) :
    (registry.add added).1.classes =
      registry.classes ++ accepted [added] [(registry.add added).2] := by
  unfold add
  split
  · exact (List.append_nil _).symm
  · rfl

theorem accepted_cons (added : ManagedClass) (calls : List ManagedClass)
    (answer : Except Duplicate Unit) (answers : List (Except Duplicate Unit)) :
    accepted (added :: calls) (answer :: answers) =
      accepted [added] [answer] ++ accepted calls answers := by
  cases answer <;> rfl

/-- The accepted classes come after those of the seed, in the order of their calls. -/
theorem classes_addEach (registry : Registry) (calls : List ManagedClass) :
    (registry.addEach calls).1.classes =
      registry.classes ++ accepted calls (registry.addEach calls).2 := by
  induction calls generalizing registry with
  | nil => exact (List.append_nil _).symm
  | cons added calls inductionHypothesis =>
    calc ((registry.add added).1.addEach calls).1.classes
      _ = (registry.add added).1.classes ++
            accepted calls ((registry.add added).1.addEach calls).2 := inductionHypothesis _
      _ = registry.classes ++ (accepted [added] [(registry.add added).2] ++
            accepted calls ((registry.add added).1.addEach calls).2) := by
          rw [classes_add, List.append_assoc]
      _ = _ := by rw [← accepted_cons]; rfl

/-- A further call finds the registry that the calls before it have left. -/
theorem addEach_concat (registry : Registry) (calls : List ManagedClass) (added : ManagedClass) :
    registry.addEach (calls ++ [added]) =
      (((registry.addEach calls).1.add added).1,
        (registry.addEach calls).2 ++ [((registry.addEach calls).1.add added).2]) := by
  induction calls generalizing registry with
  | nil => rfl
  | cons earlier calls inductionHypothesis =>
    rw [List.cons_append, addEach_cons, addEach_cons, inductionHypothesis, List.cons_append]

end Registry

/-- However classes are added to an empty registry or to that of the runtime, the result is a class
model: the accepted classes come after those of the seed, the index leads from each name to the
place of its class, and only a call whose name is taken is refused and changes nothing. -/
theorem addEach_classModel {seed : Registry} (begun : seed = .empty ∨ seed = .runtime)
    (calls : List ManagedClass) :
    ∃ (model : ClassModel) (answers : List (Except Duplicate Unit)),
      seed.addEach calls = (model.toRegistry, answers) ∧
      answers.length = calls.length ∧
      model.classes = seed.classes ++ Registry.accepted calls answers ∧
      model.taggedClasses =
        (seed.classes ++ Registry.accepted calls answers).filter ManagedClass.isTagged ∧
      model.names.Nodup ∧
      (∀ name place, model.place? name = some place ↔ model.names[place]? = some name) ∧
      (∀ name declared, model.get? name = some declared ↔
        declared ∈ seed.classes ++ Registry.accepted calls answers ∧
          declared.qualifiedName = name) ∧
      (∀ name, model.get? name = none ↔ name ∉ model.names) ∧
      ∀ added,
        seed.addEach (calls ++ [added]) =
            ((model.toRegistry.add added).1, answers ++ [(model.toRegistry.add added).2]) ∧
          ((model.toRegistry.add added).2 = .ok () ↔ added.qualifiedName ∉ model.names) ∧
          ∀ error, (model.toRegistry.add added).2 = .error error →
            error = .managedClass added.qualifiedName ∧
              (model.toRegistry.add added).1 = model.toRegistry := by
  have sound : seed.IsSound := by
    rcases begun with rfl | rfl
    · exact Registry.empty_sound
    · exact Registry.runtime_sound
  have reached := sound.addEach calls
  have classes := seed.classes_addEach calls
  refine ⟨.ofSound reached, (seed.addEach calls).2, rfl, Registry.length_addEach calls, classes, ?_,
    reached.distinct, fun _ _ => reached.place?_eq_some, ?_, fun _ => reached.get?_eq_none, ?_⟩
  · rw [← classes]
    rfl
  · intro name declared
    rw [← classes]
    exact reached.get?_eq_some
  · intro added
    exact ⟨seed.addEach_concat calls added, reached.add_eq_ok, fun _ => reached.add_eq_error⟩

/-- A class of the runtime and a class added before are refused, and the others keep their order. -/
theorem addEach_classModel_repeated :
    (Registry.runtime = .empty ∨ Registry.runtime = .runtime) ∧
      ∃ model : ClassModel,
        Registry.runtime.addEach
            [.named "a.Car", .named "java.lang.Object", .named "a.Car", .named "a.Bus"] =
          (model.toRegistry,
            [.ok (), .error (.managedClass "java.lang.Object"), .error (.managedClass "a.Car"),
              .ok ()]) ∧
        model.classes = Registry.runtime.classes ++ [.named "a.Car", .named "a.Bus"] ∧
        model.get? "a.Bus" = some (.named "a.Bus") := by
  refine ⟨.inr rfl, ?_⟩
  obtain ⟨model, answers, reached, -, classes, -, -, -, found, -⟩ :=
    addEach_classModel (.inr rfl)
      [.named "a.Car", .named "java.lang.Object", .named "a.Car", .named "a.Bus"]
  have computed : answers = [.ok (), .error (.managedClass "java.lang.Object"),
      .error (.managedClass "a.Car"), .ok ()] :=
    (congrArg Prod.snd reached).symm.trans rfl
  subst computed
  exact ⟨model, reached, classes, (found _ _).mpr (by decide +kernel)⟩

end NativePeer
