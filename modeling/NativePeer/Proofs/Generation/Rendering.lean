import Mathlib.Data.List.Forall2
import NativePeer.Generation.Rendering
import NativePeer.Proofs.Native.Mangling
import NativePeer.Proofs.Peer.Binding

/-
This file says which sources a model is rendered to.
-/

namespace NativePeer

variable {model : ClassModel} {configuration : Configuration}

namespace PeerSource

theorem render_eq_ok {declared : ManagedClass} {source : PeerSource} :
    (render model configuration declared).result = .ok source ↔
      ∃ peer, (Peer.bind model configuration declared).result = .ok peer ∧
        source = ofPeer configuration peer := by
  simp only [render, Logged.result_bind, except_bind_eq_ok, Logged.result_pure, Except.ok.injEq,
    eq_comm (a := source)]

/-- A source has the names of its class. -/
theorem names_of_render {declared : ManagedClass} {source : PeerSource}
    (succeeded : (render model configuration declared).result = .ok source) :
    source.className = declared.qualifiedName ∧ source.baseName = Peer.baseNameOf declared := by
  obtain ⟨peer, bound, written⟩ := render_eq_ok.mp succeeded
  obtain ⟨_, _, _, _, _, _, _, shape⟩ := Peer.bind_eq_ok.mp bound
  rw [written, shape]
  exact ⟨rfl, rfl⟩

/-- A class is rendered before its base name is looked up. -/
theorem result_renderFrom_cons {taken : List (String × String)} {declared : ManagedClass}
    {rest : List ManagedClass} :
    (renderFrom model configuration taken (declared :: rest)).result = (do
      let source ← (render model configuration declared).result
      match taken.lookup source.baseName with
      | some first => .error (.collision configuration.outputDirectory source.baseName first
          declared.qualifiedName)
      | none => do
        let others ← (renderFrom model configuration
          ((source.baseName, declared.qualifiedName) :: taken) rest).result
        return source :: others) := by
  rw [renderFrom, Logged.result_bind]
  congr 1
  funext source
  cases taken.lookup source.baseName with
  | some first => rfl
  | none =>
    simp only [Logged.result_bind]
    rfl

/-- Each class has its source, no two of them share a base name and none is taken. -/
theorem renderFrom_eq_ok {taken : List (String × String)} {classes : List ManagedClass}
    {sources : List PeerSource}
    (succeeded : (renderFrom model configuration taken classes).result = .ok sources) :
    List.Forall₂ (fun declared source => (render model configuration declared).result = .ok source)
        classes sources ∧
      (sources.map baseName).Nodup ∧
      ∀ source ∈ sources, taken.lookup source.baseName = none := by
  induction classes generalizing taken sources with
  | nil =>
    cases succeeded
    exact ⟨.nil, List.nodup_nil, by simp⟩
  | cons declared rest inductionHypothesis =>
    rw [result_renderFrom_cons, except_bind_eq_ok] at succeeded
    obtain ⟨source, rendered, continued⟩ := succeeded
    cases free : taken.lookup source.baseName with
    | some first => simp [free] at continued
    | none =>
      rw [free, except_bind_eq_ok] at continued
      obtain ⟨others, othersRendered, same⟩ := continued
      cases same
      obtain ⟨pairs, distinct, apart⟩ := inductionHypothesis othersRendered
      have fresh : ∀ other ∈ others,
          other.baseName ≠ source.baseName ∧ taken.lookup other.baseName = none := by
        intro other member
        have absent := apart other member
        rw [List.lookup_cons] at absent
        cases same : other.baseName == source.baseName with
        | true => simp [same] at absent
        | false => exact ⟨ne_of_beq_false same, by simpa only [same] using absent⟩
      refine ⟨.cons rendered pairs, ?_, ?_⟩
      · rw [List.map_cons, List.nodup_cons]
        refine ⟨fun member => ?_, distinct⟩
        obtain ⟨other, inside, same⟩ := List.mem_map.mp member
        exact (fresh other inside).1 same
      · intro other member
        rcases List.mem_cons.mp member with same | inside
        · rw [same, free]
        · exact (fresh other inside).2

end PeerSource

/-- A model is rendered once it is found to be consistent. -/
theorem ClassModel.render_eq_ok {sources : List PeerSource} :
    (model.render configuration).result = .ok sources ↔
      model.validate = .ok () ∧
        (PeerSource.renderFrom model configuration [] model.taggedClasses).result =
          .ok sources := by
  rw [ClassModel.render, Logged.bind_result_eq_ok]
  simp only [Logged.result_ofExcept, mapError_eq_ok]
  constructor
  · rintro ⟨_, valid, rendered⟩
    exact ⟨valid, rendered⟩
  · rintro ⟨valid, rendered⟩
    exact ⟨(), valid, rendered⟩

/-- The sources of a model have the names of its tagged classes in their order and no two of them
share a base name. -/
theorem ClassModel.names_of_render {sources : List PeerSource}
    (rendered : (model.render configuration).result = .ok sources) :
    sources.map (fun source => (source.className, source.baseName)) =
        model.taggedClasses.map
          (fun declared => (declared.qualifiedName, Peer.baseNameOf declared)) ∧
      (sources.map PeerSource.baseName).Nodup := by
  obtain ⟨_, written⟩ := ClassModel.render_eq_ok.mp rendered
  obtain ⟨pairs, distinct, -⟩ := PeerSource.renderFrom_eq_ok written
  refine ⟨?_, distinct⟩
  clear written distinct rendered
  generalize model.taggedClasses = classes at pairs ⊢
  induction pairs with
  | nil => rfl
  | cons succeeded _ inductionHypothesis =>
    obtain ⟨sameClass, sameBase⟩ := PeerSource.names_of_render succeeded
    rw [List.map_cons, List.map_cons, inductionHypothesis, sameClass, sameBase]

/-- Every source of a model is that of a tagged class. -/
theorem ClassModel.baseName_of_render {sources : List PeerSource} {source : PeerSource}
    (rendered : (model.render configuration).result = .ok sources) (member : source ∈ sources) :
    ∃ declared ∈ model.taggedClasses, source.baseName = Peer.baseNameOf declared := by
  have listed := List.mem_map_of_mem (f := fun source => (source.className, source.baseName))
    member
  rw [(ClassModel.names_of_render rendered).1] at listed
  obtain ⟨declared, declaredMember, same⟩ := List.mem_map.mp listed
  exact ⟨declared, declaredMember, (congrArg Prod.snd same).symm⟩

/-- The binding of methods asks the configuration only about overloads. -/
theorem Peer.bindMethods_congr (model : ClassModel) {configuration other : Configuration}
    (same : configuration.disambiguatesOverloads = other.disambiguatesOverloads)
    (className baseName : String) (methods : List Method) (table : SymbolTable)
    (rest : List Method) :
    bindMethods model configuration className baseName methods table rest =
      bindMethods model other className baseName methods table rest := by
  induction rest generalizing table with
  | nil => rfl
  | cons method rest inductionHypothesis =>
    have sameChoice : isDisambiguated configuration methods method =
        isDisambiguated other methods method := by simp [isDisambiguated, same]
    rw [bindMethods, bindMethods, sameChoice]
    simp only [inductionHypothesis]

/-- What is rendered does not depend on whether files are forced. -/
theorem ClassModel.render_force (model : ClassModel) (configuration : Configuration)
    (force : Bool) :
    model.render { configuration with force } = model.render configuration := by
  have sameBinding (declared : ManagedClass) :
      Peer.bind model { configuration with force } declared =
        Peer.bind model configuration declared := by
    have sameMethods := Peer.bindMethods_congr model
      (rfl : { configuration with force }.disambiguatesOverloads =
        configuration.disambiguatesOverloads)
    unfold Peer.bind
    simp only [sameMethods]
    rfl
  have sameSource (declared : ManagedClass) :
      PeerSource.render model { configuration with force } declared =
        PeerSource.render model configuration declared := by
    unfold PeerSource.render
    rw [sameBinding]
    rfl
  have sameSources (taken : List (String × String)) (classes : List ManagedClass) :
      PeerSource.renderFrom model { configuration with force } taken classes =
        PeerSource.renderFrom model configuration taken classes := by
    induction classes generalizing taken with
    | nil => rfl
    | cons declared rest inductionHypothesis =>
      rw [PeerSource.renderFrom, PeerSource.renderFrom, sameSource]
      simp only [inductionHypothesis]
  unfold ClassModel.render
  rw [sameSources]

end NativePeer
