import CallCapture.Message.Argument

/-!
One call of an instrumented method, as the probe receives it.
-/

namespace CallCapture

inductive TraceFormat where
  | w3c
  | hierarchical
deriving DecidableEq, Repr

def TraceFormat.name : TraceFormat → String
  | .w3c => "W3C"
  | .hierarchical => "Hierarchical"

/-- What surrounds a call on its thread. -/
structure ProbeContext where
  traceId : Option String
  traceFormat : Option TraceFormat
  /-- The managed name of the thread. -/
  threadName : Option String
deriving DecidableEq, Repr

structure ProbeCall where
  methodId : UInt64
  arguments : List Argument
  context : ProbeContext
deriving DecidableEq, Repr

end CallCapture
