import NativePeer.Proofs.Generation.Rendering
import NativePeer.Proofs.Peer.Host

/-
This file compares what is rendered for the two families of hosts. Their files differ in the line
ends and in the suffixes of the long constants.
-/

namespace NativePeer

open Text

variable {model : ClassModel} {configuration : Configuration}

namespace PeerSource

/-- The sources of one class on the two families of hosts. The first constant is defined in the line
with the number 7 of the header. -/
structure OnHosts (model : ClassModel) (configuration : Configuration) (declared : ManagedClass)
    (unix windows : PeerSource) : Prop where
  classNames : unix.className = declared.qualifiedName ∧ windows.className = declared.qualifiedName
  baseNames : unix.baseName = Peer.baseNameOf declared ∧
    windows.baseName = Peer.baseNameOf declared
  source : windows.source = withReturns unix.source
  header : ∃ constants, ConstantMacro.ofClass model configuration declared = .ok constants ∧
    (∀ place constant, constants[place]? = some constant →
      (byteLines unix.header)[7 + 2 * place]? = some (bytesOf (constant.defining .unix)) ∧
      (constant.value.kind = .long → bytesOf "LL" <:+ bytesOf (constant.defining .unix))) ∧
    windows.header =
      withReturns (changeLines (exchangeAt (ConstantMacro.longLines 7 constants)) unix.header)

theorem render_alike (declared : ManagedClass) :
    Logged.Alike (OnHosts model configuration declared)
      (render model (configuration.on .unix) declared)
      (render model (configuration.on .windows) declared) := by
  apply (Peer.bind_alike declared).bind
  intro unix windows pair
  refine ⟨rfl, .done ⟨⟨pair.className, ?_⟩, ⟨pair.baseName, ?_⟩, ?_, pair.header⟩⟩
  · exact (congrArg Peer.className pair.bare).symm.trans pair.className
  · exact (congrArg Peer.baseName pair.bare).symm.trans pair.baseName
  · change encode .windows (windows.definition configuration.precompiledHeader) =
      withReturns (encode .unix (unix.definition configuration.precompiledHeader))
    rw [encode_windows, pair.definition_eq]

theorem renderFrom_alike (taken : List (String × String)) (classes : List ManagedClass) :
    Logged.Alike (fun unix windows => ∃ sources : List (PeerSource × PeerSource),
        unix = sources.map Prod.fst ∧ windows = sources.map Prod.snd ∧
        List.Forall₂ (fun declared source => OnHosts model configuration declared source.1 source.2)
          classes sources)
      (renderFrom model (configuration.on .unix) taken classes)
      (renderFrom model (configuration.on .windows) taken classes) := by
  induction classes generalizing taken with
  | nil => exact ⟨rfl, .done ⟨[], rfl, rfl, .nil⟩⟩
  | cons declared rest inductionHypothesis =>
    apply (render_alike declared).bind
    intro unix windows source
    obtain ⟨unixName, windowsName⟩ := source.baseNames
    rw [unixName, windowsName]
    cases taken.lookup (Peer.baseNameOf declared) with
    | some first => exact ⟨rfl, .failed _⟩
    | none =>
      apply (inductionHypothesis _).bind
      rintro _ _ ⟨sources, rfl, rfl, pairs⟩
      exact ⟨rfl, .done ⟨(unix, windows) :: sources, rfl, rfl, .cons source pairs⟩⟩

end PeerSource

theorem ClassModel.render_hosts (model : ClassModel) (configuration : Configuration) :
    (model.render (configuration.on .unix)).log = (model.render (configuration.on .windows)).log ∧
    ((∃ error, (model.render (configuration.on .unix)).result = .error error ∧
        (model.render (configuration.on .windows)).result = .error error) ∨
      ∃ sources : List (PeerSource × PeerSource),
        (model.render (configuration.on .unix)).result = .ok (sources.map Prod.fst) ∧
        (model.render (configuration.on .windows)).result = .ok (sources.map Prod.snd) ∧
        List.Forall₂
          (fun declared source =>
            PeerSource.OnHosts model configuration declared source.1 source.2)
          model.taggedClasses sources) := by
  have alike : Logged.Alike _ (model.render (configuration.on .unix))
      (model.render (configuration.on .windows)) :=
    (Logged.Alike.refl _).bind fun _ _ _ => PeerSource.renderFrom_alike [] model.taggedClasses
  refine ⟨alike.log, ?_⟩
  rcases alike.result.results with failed | ⟨_, _, unix, windows, sources, rfl, rfl, pairs⟩
  · exact .inl failed
  · exact .inr ⟨sources, unix, windows, pairs⟩

end NativePeer
