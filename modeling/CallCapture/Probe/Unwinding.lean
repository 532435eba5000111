import CallCapture.Probe.EntryPoint
import CallCapture.Unwinding

/-!
An invocation in parts, each of which may be left by a failure. A failure skips what comes after it,
apart from letting go of the thread, until it is caught; what was done before it stays done. The
invocation lets go of the payload of what it caught once that is reported.
-/

namespace CallCapture

/-- What a payload says of how the handler failed. -/
def Payload.fault : Payload → ProbeFault
  | .text message => .text message
  | .unnamed => .unnamed
  | .relapsing _ => .unnamed

/-- The same conduct, of whose failure only the report is left. -/
def Conduct.reported {World : Type} (conduct : Conduct World Payload) : Reaction World :=
  ⟨conduct.world, conduct.nested, conduct.fault.map Payload.fault⟩

namespace EntryPoint

variable {Handler World : Type}

/-- Keeps the thread marked for as long as a part runs, and no longer, however that ends. -/
def guarded (part : Part (EntryPoint Handler World)) (point : EntryPoint Handler World) :
    Ending × EntryPoint Handler World :=
  let (ending, next) := part { point with inProbe := true }
  (ending, { next with inProbe := false })

/-- A handler at work on a call: it acts on its world, makes its own calls, and perhaps fails. -/
def handling (react : Handler → ProbeCall → World → Conduct World Payload)
    (invoke : ProbeCall → Part (EntryPoint Handler World)) (handler : Handler) (call : ProbeCall)
    (point : EntryPoint Handler World) : Ending × EntryPoint Handler World :=
  let conduct := react handler call point.world
  conduct.nested.foldr (fun call rest => Part.before (invoke call) rest)
    (Part.ending conduct.fault) { point with world := conduct.world }

/-- Has the handler that is registered, if there is one, work on a call. -/
def dispatching (react : Handler → ProbeCall → World → Conduct World Payload)
    (invoke : ProbeCall → Part (EntryPoint Handler World)) (call : ProbeCall)
    (point : EntryPoint Handler World) : Ending × EntryPoint Handler World :=
  match point.handler with
  | none => (.returned, point)
  | some handler =>
      Part.caught (fun payload point => point.reportFault (some payload.fault))
        (handling react invoke handler call) point

/-- One invocation, in which handlers may run inside each other `levels` deep. -/
def invoking (react : Handler → ProbeCall → World → Conduct World Payload) :
    Nat → ProbeCall → Part (EntryPoint Handler World)
  | 0, _, point => (.returned, point)
  | levels + 1, call, point =>
      if point.inProbe then (.returned, { point with inProbe := false })
      else guarded (dispatching react (invoking react levels) call) point

end EntryPoint

end CallCapture
