import CallCapture.Channel.Frame
import CallCapture.Session.Request

/-!
The commands of the control channel, as frames, and the codes that report their results.
-/

namespace CallCapture

inductive Command where
  | start (payload : RequestPayload)
  | stop
deriving DecidableEq, Repr

namespace MessageType

def ofWire (wire : Int16) : Except Error MessageType :=
  match all.find? (·.wire == wire) with
  | some messageType => .ok messageType
  | none => .error (.protocol (.messageType wire))

end MessageType

namespace PayloadType

def ofWire (wire : Int16) : Except Error PayloadType :=
  match all.find? (·.wire == wire) with
  | some payloadType => .ok payloadType
  | none => .error (.protocol (.payloadType wire))

end PayloadType

namespace Command

def toFrame : Command → Except Error CommandFrame
  | .start payload =>
      CommandFrame.ofPayload .startCapturing .utf8Json (Utf8.encode payload.toJson.print)
  | .stop => CommandFrame.ofPayload .stopCapturing .empty []

def ofPayload (messageType : MessageType) (payloadType : PayloadType) (payload : List UInt8) :
    Except Error Command :=
  match messageType, payloadType with
  | .startCapturing, .utf8Json =>
      match (JsonTree.parseBytes? payload).bind RequestPayload.ofJson? with
      | some request => .ok (.start request)
      | none => .error .json
  | .stopCapturing, .empty =>
      if payload.isEmpty then .ok .stop else .error (.protocol (.stopPayload payload.length))
  | messageType, payloadType => .error (.protocol (.notACommand messageType payloadType))

def ofFrame (frame : CommandFrame) : Except Error Command := do
  let messageType ← MessageType.ofWire frame.header.messageType
  let payloadType ← PayloadType.ofWire frame.header.payloadType
  ofPayload messageType payloadType frame.payload

end Command

namespace ResultCode

def success : Int32 := 0

def invalidArgument : Int32 := (0x80070057 : UInt32).toInt32

def failure : Int32 := (0x80004005 : UInt32).toInt32

def unexpected : Int32 := (0x8000FFFF : UInt32).toInt32

def ofError : Error → Int32
  | .invalidRequest _ | .unresolvedMethods _ | .json | .protocol _ | .malformed _ | .outOfBounds
  | .recursionLimit _ => invalidArgument
  | .channelClosed => unexpected
  | .configuration _ | .native _ | .commandFailed _ _ | .stream _ => failure

end ResultCode

end CallCapture
