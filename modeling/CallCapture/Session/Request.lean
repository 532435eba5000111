import CallCapture.Config
import CallCapture.Resolution.DescriptionJson

/-!
Requests to capture: what a command carries, and what it means under a configuration.
-/

namespace CallCapture

/-- A request as sent, its duration still as text. -/
structure RequestPayload where
  methods : List Description
  duration : Option String
deriving DecidableEq, Repr

namespace RequestPayload

def ofParts (methods : List Description) (duration : Option Duration) : RequestPayload :=
  ⟨methods, duration.map Duration.text⟩

def toJson (payload : RequestPayload) : JsonTree :=
  .record ([("methods", .array (payload.methods.map Description.toJson))]
    ++ (payload.duration.map fun text => ("duration", JsonTree.text text)).toList)

def ofJson? (tree : JsonTree) : Option RequestPayload := do
  match ← tree.slots ["methods", "duration"] with
  | [methods, duration] =>
      some ⟨← JsonTree.orDefault [] (JsonTree.list? Description.ofJson?) methods,
        ← JsonTree.orDefault none (JsonTree.optional? JsonTree.text?) duration⟩
  | _ => none

end RequestPayload

/-- A request that passed validation. -/
structure CaptureRequest where
  methods : List Description
  duration : Duration
deriving DecidableEq, Repr

namespace CaptureRequest

def requestedDuration (config : Config) (text : Option String) : Except Error Duration :=
  match text with
  | some text => Duration.parse text
  | none => .ok config.defaultDuration

def checkDuration (config : Config) (duration : Duration) : Except Error Duration :=
  if duration = .zero then .error (.invalidRequest .durationNotPositive)
  else
    match config.maxDuration with
    | some maximum =>
        if maximum.nanoseconds < duration.nanoseconds then
          .error (.invalidRequest (.durationAboveMaximum duration maximum))
        else .ok duration
    | none => .ok duration

def ofPayload (config : Config) (payload : RequestPayload) : Except Error CaptureRequest :=
  if payload.methods.isEmpty then .error (.invalidRequest .noMethods)
  else do
    let duration ← requestedDuration config payload.duration
    let duration ← checkDuration config duration
    .ok ⟨payload.methods, duration⟩

def parse (config : Config) (text : String) : Except Error CaptureRequest :=
  match (JsonTree.parse? text).bind RequestPayload.ofJson? with
  | some payload => ofPayload config payload
  | none => .error .json

def toPayload (request : CaptureRequest) : RequestPayload :=
  .ofParts request.methods (some request.duration)

end CaptureRequest

end CallCapture
