import NativePeer.Model.Validation
import NativePeer.Peer.Source

/-
This file renders the peers of a whole model.
-/

namespace NativePeer

namespace PeerSource

def render (model : ClassModel) (configuration : Configuration) (declared : ManagedClass) :
    Logged PeerSource := do
  let peer ← Peer.bind model configuration declared
  return ofPeer configuration peer

/-- The base names met so far are in `taken` with their classes. -/
def renderFrom (model : ClassModel) (configuration : Configuration)
    (taken : List (String × String)) : List ManagedClass → Logged (List PeerSource)
  | [] => return []
  | declared :: rest => do
    let source ← render model configuration declared
    match taken.lookup source.baseName with
    | some first =>
      .ofExcept (.error (.collision configuration.outputDirectory source.baseName first
        declared.qualifiedName))
    | none =>
      let others ← renderFrom model configuration
        ((source.baseName, declared.qualifiedName) :: taken) rest
      return source :: others

end PeerSource

/-- The sources of all tagged classes in the order of the model. -/
def ClassModel.render (model : ClassModel) (configuration : Configuration) :
    Logged (List PeerSource) := do
  .ofExcept (model.validate.mapError .model)
  PeerSource.renderFrom model configuration [] model.taggedClasses

end NativePeer
