import NativePeer.Text.Blank
import NativePeer.Text.Units
import NativePeer.Text.Control
import NativePeer.Text.Latin1
import NativePeer.Number.Layout
import NativePeer.Number.Decimal
import NativePeer.Markup.Scan
import NativePeer.Model.Validation
import NativePeer.Document.Reader
import NativePeer.Generation.Log
import NativePeer.Native.Descriptor
import NativePeer.Native.Literal
import NativePeer.Native.Type
import NativePeer.Generation.Rendering
import NativePeer.Generation.Run
import NativePeer.CommandLine.Console
import NativePeer.CommandLine.Program
import NativePeer.Main
import NativePeer.Proofs.Peer.Symbols
import NativePeer.Proofs.Generation.Validation
import NativePeer.Proofs.CommandLine.Documents
import NativePeer.Proofs.CommandLine.Failure
import NativePeer.Proofs.Native.Injectivity
import NativePeer.Proofs.Native.Demangling
import NativePeer.Proofs.Native.Descriptor
import NativePeer.Proofs.Peer.Disambiguation
import NativePeer.Proofs.Generation.Overload
import NativePeer.Proofs.Document.Forest
import NativePeer.Proofs.Document.Outline
import NativePeer.Proofs.Document.Nesting
import NativePeer.Proofs.Document.Truncation
import NativePeer.Proofs.Document.Likeness
import NativePeer.Proofs.Document.Members
import NativePeer.Proofs.Document.ClassReading
import NativePeer.Proofs.Document.Attributes
import NativePeer.Proofs.Document.Replacement
import NativePeer.Proofs.Document.BrokenAttributes
import NativePeer.Proofs.Document.Layout
import NativePeer.Proofs.Peer.Signature
import NativePeer.Proofs.Peer.Definition
import NativePeer.Proofs.Peer.Constants
import NativePeer.Proofs.Generation.Force
import NativePeer.Proofs.Generation.Order
import NativePeer.Proofs.CommandLine.Stop
import NativePeer.Proofs.Generation.Inclusion
import NativePeer.Proofs.Model.Registry
import NativePeer.Proofs.Model.Consistency
import NativePeer.Proofs.Model.Flattening
import NativePeer.Proofs.Peer.Naming
import NativePeer.Proofs.Spelling
import NativePeer.Proofs.Generation.Locality
import NativePeer.Proofs.Generation.Host
import NativePeer.Proofs.Generation.Header
import NativePeer.Proofs.Character
import NativePeer.Proofs.Peer.Warning
import NativePeer.Proofs.Native.Reading
import NativePeer.Proofs.Native.ManagedText
import NativePeer.Proofs.Native.Expression
import NativePeer.Proofs.Native.Scientific
