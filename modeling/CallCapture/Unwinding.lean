/-!
Parts of a computation that a failure may leave. What was done before the failure stays done, and what
comes after it is skipped, until something catches it. A failure carries a payload, which has to be
let go of by whoever catches it, and this may fail again.
-/

namespace CallCapture

/-- What a failure carries: a text, something else, or something else whose end is a failure too. -/
inductive Payload where
  | text (message : String)
  | unnamed
  | relapsing (next : Payload)
deriving DecidableEq, Repr

/-- The failure in which letting go of a payload ends, if it does. -/
def Payload.relapse? : Payload → Option Payload
  | .text _ => none
  | .unnamed => none
  | .relapsing next => some next

inductive Ending where
  | returned
  | unwinding (payload : Payload)
deriving DecidableEq, Repr

def Ending.of : Option Payload → Ending
  | none => .returned
  | some payload => .unwinding payload

abbrev Part (State : Type) : Type :=
  State → Ending × State

namespace Part

variable {State : Type}

/-- Returns at once, or fails at once. -/
def ending (failure : Option Payload) (state : State) : Ending × State :=
  (.of failure, state)

def before (first second : Part State) (state : State) : Ending × State :=
  match first state with
  | (.returned, next) => second next
  | (.unwinding payload, next) => (.unwinding payload, next)

/-- Stops a failure here and deals with it. Its payload is let go of after that, where nothing
catches what comes of it. -/
def caught (deal : Payload → State → State) (part : Part State) (state : State) : Ending × State :=
  match part state with
  | (.returned, next) => (.returned, next)
  | (.unwinding payload, next) => (.of payload.relapse?, deal payload next)

/-- How a part ends, and what is left, once its failure has been caught. -/
theorem caught_of {part : Part State} {state next : State} {failure : Option Payload}
    (ended : part state = (.of failure, next)) (deal : Payload → State → State) :
    caught deal part state =
      (.of (failure.bind Payload.relapse?), failure.elim next fun payload => deal payload next) := by
  rw [caught, ended]
  cases failure <;> rfl

end Part

end CallCapture
