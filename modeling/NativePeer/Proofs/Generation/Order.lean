import Mathlib.Data.List.Perm.Basic
import NativePeer.Proofs.Generation.Rendering
import NativePeer.Proofs.Model.Agreement
import NativePeer.Proofs.Peer.Failure

/-
This file shows that the order of the classes of a model does not change their sources.
-/

namespace NativePeer

variable {model other : ClassModel} {configuration : Configuration}

/-- A native type depends on what the names of the model lead to. -/
theorem ClassModel.Agrees.ofType (agree : model.Agrees other) (type : ManagedType) :
    NativeType.ofType model type = NativeType.ofType other type := by
  cases type with
  | reference className =>
    rw [NativeType.ofType, NativeType.ofType, NativeType.ofClass, NativeType.ofClass]
    simp only [agree _, agree.isSubclassOf]
  | array element dimension =>
    rw [NativeType.ofType, NativeType.ofType]
    unfold NativeType.ofArray
    simp only [agree _]
  | void => rfl
  | primitive kind => rfl
  | string => rfl

namespace Peer

/-- The binding of parameters asks the model only about their types. -/
theorem bindParameters_eq_of_types {parameters : List Parameter}
    (same : ∀ type ∈ parameters.map Parameter.type,
      NativeType.ofType model type = NativeType.ofType other type) (table : SymbolTable) :
    bindParameters model table parameters = bindParameters other table parameters := by
  induction parameters generalizing table with
  | nil => rfl
  | cons parameter parameters inductionHypothesis =>
    rw [List.map_cons, List.forall_mem_cons] at same
    rw [bindParameters, bindParameters, same.1]
    simp only [inductionHypothesis same.2]

theorem bindMethod_eq_of_types {method : Method}
    (same : ∀ type ∈ method.usedTypes,
      NativeType.ofType model type = NativeType.ofType other type)
    (className baseName symbol : String) :
    bindMethod model className baseName symbol method =
      bindMethod other className baseName symbol method := by
  rw [Method.usedTypes, List.forall_mem_cons] at same
  rw [bindMethod, bindMethod, bindParameters_eq_of_types same.2, same.1]

/-- The binding of methods asks the model only about the types that they use. -/
theorem bindMethods_eq_of_types {rest : List Method}
    (same : ∀ method ∈ rest, ∀ type ∈ method.usedTypes,
      NativeType.ofType model type = NativeType.ofType other type)
    (className baseName : String) (methods : List Method) (table : SymbolTable) :
    bindMethods model configuration className baseName methods table rest =
      bindMethods other configuration className baseName methods table rest := by
  induction rest generalizing table with
  | nil => rfl
  | cons method rest inductionHypothesis =>
    rw [List.forall_mem_cons] at same
    have sameMethod := bindMethod_eq_of_types same.1
    rw [bindMethods, bindMethods]
    simp only [sameMethod, inductionHypothesis same.2]

end Peer

/-- A class is rendered alike in models that agree. -/
theorem ClassModel.Agrees.render (agree : model.Agrees other) (declared : ManagedClass) :
    PeerSource.render model configuration declared =
      PeerSource.render other configuration declared := by
  have sameMethods (className baseName : String) (table : SymbolTable) :
      Peer.bindMethods model configuration className baseName declared.taggedMethods table
          declared.taggedMethods =
        Peer.bindMethods other configuration className baseName declared.taggedMethods table
          declared.taggedMethods :=
    Peer.bindMethods_eq_of_types (fun _ _ type _ => agree.ofType type) _ _ _ _
  have sameConstants : Peer.constantsOf model configuration declared =
      Peer.constantsOf other configuration declared := by
    rw [Peer.constantsOf, Peer.constantsOf, agree.flattenFields]
  have sameBinding : Peer.bind model configuration declared =
      Peer.bind other configuration declared := by
    unfold Peer.bind
    simp only [sameMethods, sameConstants]
  rw [PeerSource.render, PeerSource.render, sameBinding]

/-- Classes that have sources with base names of their own are rendered to them. -/
theorem PeerSource.renderFrom_of_rendered {taken : List (String × String)}
    {classes : List ManagedClass} {sources : List PeerSource}
    (pairs : List.Forall₂
      (fun declared source => (render model configuration declared).result = .ok source)
      classes sources)
    (distinct : (sources.map baseName).Nodup)
    (free : ∀ source ∈ sources, taken.lookup source.baseName = none) :
    (renderFrom model configuration taken classes).result = .ok sources := by
  induction pairs generalizing taken with
  | nil => rfl
  | @cons declared source classes sources rendered _ inductionHypothesis =>
    rw [List.map_cons, List.nodup_cons] at distinct
    rw [List.forall_mem_cons] at free
    have later : ∀ other ∈ sources,
        ((source.baseName, declared.qualifiedName) :: taken).lookup other.baseName = none := by
      intro other member
      have apart : (other.baseName == source.baseName) = false :=
        beq_false_of_ne fun same => distinct.1 (same ▸ List.mem_map_of_mem member)
      rw [List.lookup_cons, apart]
      exact free.2 other member
    have others := inductionHypothesis distinct.2 later
    rw [result_renderFrom_cons, rendered, except_ok_bind, free.1]
    dsimp only
    rw [others]
    rfl

/-- A model is rendered exactly if it is consistent and its tagged classes have sources with base
names of their own. -/
theorem ClassModel.render_eq_ok_iff {sources : List PeerSource} :
    (model.render configuration).result = .ok sources ↔
      model.validate = .ok () ∧
        List.Forall₂ (fun declared source =>
          (PeerSource.render model configuration declared).result = .ok source)
          model.taggedClasses sources ∧
        (sources.map PeerSource.baseName).Nodup := by
  rw [ClassModel.render_eq_ok]
  constructor
  · intro parts
    obtain ⟨valid, rendered⟩ := parts
    obtain ⟨pairs, distinct, _⟩ := PeerSource.renderFrom_eq_ok rendered
    exact ⟨valid, pairs, distinct⟩
  · intro parts
    obtain ⟨valid, pairs, distinct⟩ := parts
    exact ⟨valid, PeerSource.renderFrom_of_rendered pairs distinct (by simp)⟩

/-- A model with the same classes in another order is rendered to the same sources in that
order. -/
theorem ClassModel.render_of_perm (permutation : other.classes.Perm model.classes)
    {sources : List PeerSource} (rendered : (model.render configuration).result = .ok sources) :
    ∃ others, (other.render configuration).result = .ok others ∧ others.Perm sources ∧
      List.Forall₂ (fun declared source =>
        (PeerSource.render model configuration declared).result = .ok source)
        other.taggedClasses others := by
  obtain ⟨valid, pairs, distinct⟩ := render_eq_ok_iff.mp rendered
  obtain ⟨others, otherPairs, samePairs⟩ :=
    List.perm_comp_forall₂ (permutation.filter ManagedClass.isTagged) pairs
  refine ⟨others, render_eq_ok_iff.mpr ⟨(validate_perm permutation).mpr valid, ?_, ?_⟩, samePairs,
    otherPairs⟩
  · apply otherPairs.imp
    intro declared source found
    rw [(agrees_of_perm permutation).render, found]
  · exact (samePairs.map PeerSource.baseName).nodup_iff.mpr distinct

/-- The order in which classes are added to a model decides neither whether it is rendered nor
the source of any class. -/
theorem render_order_irrelevant {seed first : ClassModel} {added permuted : List ManagedClass}
    (built : seed.addAll added = .ok first) (permutation : added.Perm permuted)
    (configuration : Configuration) :
    ∃ second, seed.addAll permuted = .ok second ∧
      first.taggedClasses.Perm second.taggedClasses ∧
      ((∃ error, (first.render configuration).result = .error error) ∧
          (∃ error, (second.render configuration).result = .error error) ∨
        ∃ sources others, (first.render configuration).result = .ok sources ∧
          (second.render configuration).result = .ok others ∧ sources.Perm others ∧
          List.Forall₂ (fun declared source =>
            (PeerSource.render first configuration declared).result = .ok source)
            first.taggedClasses sources ∧
          List.Forall₂ (fun declared source =>
            (PeerSource.render first configuration declared).result = .ok source)
            second.taggedClasses others) := by
  have reordered : (seed.classes ++ permuted).Perm first.classes := by
    rw [ClassModel.addAll_eq_ok.mp built]
    exact (permutation.append_left seed.classes).symm
  obtain ⟨second, secondBuilt⟩ : ∃ second : ClassModel, second.classes = seed.classes ++ permuted :=
    ⟨{ classes := seed.classes ++ permuted
       distinct := (reordered.map ManagedClass.qualifiedName).nodup_iff.mpr first.distinct }, rfl⟩
  rw [← secondBuilt] at reordered
  refine ⟨second, ClassModel.addAll_eq_ok.mpr secondBuilt, (reordered.filter _).symm, ?_⟩
  cases rendered : (first.render configuration).result with
  | ok sources =>
    obtain ⟨others, otherRendered, samePairs, otherPairs⟩ :=
      ClassModel.render_of_perm reordered rendered
    obtain ⟨_, pairs, _⟩ := ClassModel.render_eq_ok_iff.mp rendered
    exact .inr ⟨sources, others, rfl, otherRendered, samePairs.symm, pairs, otherPairs⟩
  | error error =>
    refine .inl ⟨⟨error, rfl⟩, ?_⟩
    cases otherRendered : (second.render configuration).result with
    | error other => exact ⟨other, rfl⟩
    | ok others =>
      obtain ⟨sources, rendersAlso, _⟩ := ClassModel.render_of_perm reordered.symm otherRendered
      cases rendered.symm.trans rendersAlso

/-- Two tagged classes with their common parent, whose constant both inherit. -/
def fleet : List ManagedClass :=
  [{ ManagedClass.named "a.Vehicle" with
      fields := [⟨"WHEELS", .primitive .byte, true, true, some (.byte 4)⟩] },
    { ManagedClass.named "a.Car" with
      isTagged := true
      home := Namespace.parse? "N"
      parent := some "a.Vehicle"
      methods := [⟨"follow", .void, [⟨"other", .reference "a.Bus"⟩], false, true⟩] },
    { ManagedClass.named "a.Bus" with
      isTagged := true
      home := Namespace.parse? "N"
      parent := some "a.Vehicle" }]

/-- The classes of this model come before their parent in the other order. -/
def fleetModel : ClassModel where
  classes := ClassModel.runtime.classes ++ fleet
  distinct := by decide

theorem render_order_irrelevant_fleet :
    ClassModel.runtime.addAll fleet = .ok fleetModel ∧ fleet.Perm fleet.reverse ∧
      ∃ second, ClassModel.runtime.addAll fleet.reverse = .ok second ∧
        ∃ sources others,
          (fleetModel.render { outputDirectory := "out", emitsConstants := true }).result =
              .ok sources ∧
            (second.render { outputDirectory := "out", emitsConstants := true }).result =
              .ok others ∧
            sources.Perm others ∧
            sources.map PeerSource.className = ["a.Car", "a.Bus"] ∧
            others.map PeerSource.className = ["a.Bus", "a.Car"] := by
  have built : ClassModel.runtime.addAll fleet = .ok fleetModel :=
    ClassModel.addAll_eq_ok.mpr rfl
  have reversed : fleet.Perm fleet.reverse := fleet.reverse_perm.symm
  have succeeds : (fleetModel.render
      { outputDirectory := "out", emitsConstants := true }).result.toOption.isSome = true := by
    decide +kernel
  refine ⟨built, reversed, ?_⟩
  obtain ⟨second, secondBuilt, _, failed | succeeded⟩ := render_order_irrelevant built reversed
    { outputDirectory := "out", emitsConstants := true }
  · obtain ⟨⟨error, rendered⟩, _⟩ := failed
    rw [rendered] at succeeds
    cases succeeds
  · obtain ⟨sources, others, rendered, otherRendered, same, _⟩ := succeeded
    have names := congrArg (List.map Prod.fst) (ClassModel.names_of_render rendered).1
    have otherNames := congrArg (List.map Prod.fst) (ClassModel.names_of_render otherRendered).1
    rw [ClassModel.taggedClasses, ClassModel.addAll_eq_ok.mp secondBuilt] at otherNames
    simp only [List.map_map, Function.comp_def] at names otherNames
    exact ⟨second, secondBuilt, sources, others, rendered, otherRendered, same, names, otherNames⟩

end NativePeer
