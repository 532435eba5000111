import CallCapture.Channel.Client
import CallCapture.Proofs.Boxing.Blobs
import CallCapture.Proofs.Boxing.Instantiation
import CallCapture.Proofs.Boxing.Packing
import CallCapture.Proofs.Boxing.Shapes
import CallCapture.Proofs.Boxing.Stream
import CallCapture.Proofs.Bytes.Compressed
import CallCapture.Proofs.Bytes.TypeTokens
import CallCapture.Proofs.Bytes.Widths
import CallCapture.Proofs.Capture.Batch
import CallCapture.Proofs.Capture.Sharing
import CallCapture.Proofs.Channel.Conversation
import CallCapture.Proofs.Log.Delivery
import CallCapture.Proofs.Event.EventJson
import CallCapture.Proofs.Event.Fanout
import CallCapture.Proofs.Event.Listening
import CallCapture.Proofs.Log.Flushing
import CallCapture.Proofs.Log.Lines
import CallCapture.Proofs.Log.Warnings
import CallCapture.Proofs.Managed.Arity
import CallCapture.Proofs.Managed.ReflectionNames
import CallCapture.Proofs.Positions.FiniteSet
import CallCapture.Proofs.Probe.Containment
import CallCapture.Proofs.Probe.Installing
import CallCapture.Proofs.Probe.Logging
import CallCapture.Proofs.Message.Filling
import CallCapture.Proofs.Message.Literal
import CallCapture.Proofs.Message.Quoting
import CallCapture.Proofs.Probe.Reentrancy
import CallCapture.Proofs.Resolution.Batch
import CallCapture.Proofs.Session.Agreement
import CallCapture.Proofs.Session.ConfigJson
import CallCapture.Proofs.Session.Deadlines
import CallCapture.Proofs.Session.Trace
import CallCapture.Proofs.Signature.Acceptance
import CallCapture.Proofs.Signature.Delimiting
import CallCapture.Proofs.Signature.Grammar
import CallCapture.Proofs.Signature.Limits
import CallCapture.Proofs.Signature.Locals
import CallCapture.Proofs.Signature.Resuming
import CallCapture.Proofs.Time.Documented
import CallCapture.Proofs.Time.RoundTrip
import CallCapture.Session.Service
