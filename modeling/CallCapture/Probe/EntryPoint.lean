import CallCapture.Event.Stream
import CallCapture.Probe.Call

/-!
The one place that instrumented calls enter. It holds at most one handler, marks the thread while a
handler runs, and reports handlers that fail. Handlers act on a world of their own.
-/

namespace CallCapture

/-- How a handler failed: with a message, or with something that is no text. -/
inductive ProbeFault where
  | text (message : String)
  | unnamed
deriving DecidableEq, Repr

def ProbeFault.message : ProbeFault → String
  | .text message => message
  | .unnamed => "probe handler panicked"

/--
What a handler does with a call: changes its world, calls instrumented code, and perhaps fails.
-/
structure Conduct (World Fault : Type) where
  world : World
  nested : List ProbeCall
  fault : Option Fault

abbrev Reaction (World : Type) : Type :=
  Conduct World ProbeFault

/--
The entry point as one thread sees it, together with the world and the events it publishes to.
-/
structure EntryPoint (Handler World : Type) where
  handler : Option Handler
  faults : Nat
  inProbe : Bool
  world : World
  events : EventStream

namespace EntryPoint

variable {Handler World : Type}

def create (world : World) : EntryPoint Handler World :=
  ⟨none, 0, false, world, .empty⟩

/-- Replaces the handler, and tells whether there was one. -/
def register (point : EntryPoint Handler World) (handler : Handler) :
    Bool × EntryPoint Handler World :=
  (point.handler.isSome, { point with handler := some handler })

/-- Empties the slot, and tells whether there was a handler. -/
def unregister (point : EntryPoint Handler World) : Bool × EntryPoint Handler World :=
  (point.handler.isSome, { point with handler := none })

def publish (point : EntryPoint Handler World) (event : ControlEvent) :
    EntryPoint Handler World :=
  { point with events := point.events.publish event }

def reportFault (point : EntryPoint Handler World) : Option ProbeFault → EntryPoint Handler World
  | none => point
  | some fault =>
      { point with faults := point.faults + 1 }.publish
        (.failedToCapture ControlEvent.internalFault fault.message)

/--
One invocation; handlers may run inside each other `levels` deep. An invocation on a marked thread
runs nothing, but takes the mark away.
-/
def invokeWithin (react : Handler → ProbeCall → World → Reaction World) :
    Nat → EntryPoint Handler World → ProbeCall → EntryPoint Handler World
  | 0, point, _ => point
  | levels + 1, point, call =>
      if point.inProbe then { point with inProbe := false }
      else
        match point.handler with
        | none => point
        | some handler =>
            let reaction := react handler call point.world
            let entered := { point with inProbe := true, world := reaction.world }
            let returned := reaction.nested.foldl (invokeWithin react levels) entered
            { returned.reportFault reaction.fault with inProbe := false }

end EntryPoint

end CallCapture
