import CallCapture.Channel.Kind
import CallCapture.Text.Numeral
import CallCapture.Time.Duration

/-!
Everything that can fail, as causes. `Error.message` is the only place that words them, and
`Error.describe` adds where damaged data was found.
-/

namespace CallCapture

/-- What a signature announces a number of. -/
inductive Counted where
  | genericArgument
  | parameter
  | localVariable
deriving DecidableEq, Repr

inductive Malformation where
  | compressedInteger (lead : UInt8)
  | compressedToken (encoded : Nat)
  | elementType (code : UInt8)
  | genericOver (code : UInt8)
  | count (items : Counted) (announced remaining : Nat)
  | localHeader (code : UInt8)
  | boxingCode (code : UInt32)
  | described (text : String)
deriving DecidableEq, Repr

inductive RequestFault where
  | noMethods
  | unrecognizedDuration (text : String)
  | durationOutOfRange (text : String)
  | durationNotPositive
  | durationAboveMaximum (requested maximum : Duration)
  | described (text : String)
deriving DecidableEq, Repr

inductive ConfigFault where
  | noQueueCapacity
  | noDefaultDuration
  | defaultAboveMaximum
  | noRecursionDepth
  | noConsumerThreadName
  | described (text : String)
deriving DecidableEq, Repr

inductive ProtocolFault where
  | payloadLength (length : Int32)
  | headerTruncated (received : Nat)
  | payloadTruncated
  | closedAwaitingStatus
  | statusExpected (found : Int16)
  | statusPayload (length : Int32)
  | payloadTooLong (length : Nat)
  | messageType (wire : Int16)
  | payloadType (wire : Int16)
  | stopPayload (length : Nat)
  | notACommand (message : MessageType) (payload : PayloadType)
  | eventName (name : String)
  | described (text : String)
deriving DecidableEq, Repr

inductive Error where
  | malformed (cause : Malformation)
  | outOfBounds
  | recursionLimit (limit : Nat)
  /-- Positions of the descriptions that no loaded method answers to. -/
  | unresolvedMethods (indices : List Nat)
  | invalidRequest (cause : RequestFault)
  | configuration (cause : ConfigFault)
  | native (reason : String)
  | protocol (cause : ProtocolFault)
  | commandFailed (messageType : Int16) (resultCode : Int32)
  | channelClosed
  | stream (reason : String)
  | json
deriving DecidableEq, Repr

def Counted.noun : Counted → String
  | .genericArgument => "generic argument"
  | .parameter => "parameter"
  | .localVariable => "local"

def Malformation.message : Malformation → String
  | .compressedInteger lead => "Invalid compressed uint - " ++ toString lead.toNat
  | .compressedToken encoded => "Invalid compressed token - " ++ toString encoded
  | .elementType code => "Unknown element type " ++ Text.upperHexByte code
  | .genericOver code => "Generic instantiation over element type " ++ Text.upperHexByte code
  | .count items announced remaining =>
      items.noun ++ " count " ++ toString announced ++ " larger than the remaining "
        ++ toString remaining ++ " bytes"
  | .localHeader code => "Local variable signature starts with " ++ Text.upperHexByte code
  | .boxingCode code => "Unknown boxing code - " ++ Text.shortHex code.toNat
  | .described text => text

def RequestFault.message : RequestFault → String
  | .noMethods => "no methods requested"
  | .unrecognizedDuration text => "unrecognized duration '" ++ text ++ "'"
  | .durationOutOfRange text => "duration '" ++ text ++ "' is out of range"
  | .durationNotPositive => "duration must be positive"
  | .durationAboveMaximum requested maximum =>
      "duration " ++ requested.text ++ " exceeds the maximum of " ++ maximum.text
  | .described text => text

def ConfigFault.message : ConfigFault → String
  | .noQueueCapacity => "queueCapacity must be > 0"
  | .noDefaultDuration => "defaultDuration must be > 0"
  | .defaultAboveMaximum => "defaultDuration exceeds maxDuration"
  | .noRecursionDepth => "maxRecursionDepth must be > 0"
  | .noConsumerThreadName => "consumerThreadName must not be empty"
  | .described text => text

def ProtocolFault.message : ProtocolFault → String
  | .payloadLength length => "invalid payload length " ++ toString length.toInt
  | .headerTruncated received =>
      "truncated frame header (" ++ toString received ++ " of 8 bytes)"
  | .payloadTruncated => "truncated frame payload"
  | .closedAwaitingStatus => "connection closed while awaiting status"
  | .statusExpected found =>
      "expected a status frame, got message type " ++ toString found.toInt
  | .statusPayload length => "status frame declares " ++ toString length.toInt ++ " payload bytes"
  | .payloadTooLong length => "payload of " ++ toString length ++ " bytes exceeds the frame limit"
  | .messageType wire => "unknown message type " ++ toString wire.toInt
  | .payloadType wire => "unknown payload type " ++ toString wire.toInt
  | .stopPayload length =>
      "StopCapturing carries " ++ toString length ++ " unexpected payload bytes"
  | .notACommand message payload =>
      message.name ++ " is not a command with a " ++ payload.name ++ " payload"
  | .eventName name => "unknown event name " ++ name
  | .described text => text

namespace Error

/-- The text of an error; damaged data and reads past the end are worded without their place. -/
def message : Error → String
  | .malformed cause => cause.message
  | .outOfBounds => "Out of Bound read would have occurred"
  | .recursionLimit limit => "Reach the maximum recursion level allowed - " ++ toString limit
  | .unresolvedMethods indices =>
      "Unable to resolve requested methods at indices ["
        ++ ", ".intercalate (indices.map toString) ++ "]"
  | .invalidRequest cause => "Invalid capture request - " ++ cause.message
  | .configuration cause => "Invalid configuration - " ++ cause.message
  | .native reason => "Native instrumentation failure - " ++ reason
  | .protocol cause => "Protocol error - " ++ cause.message
  | .commandFailed messageType resultCode =>
      "Command " ++ toString messageType.toInt ++ " failed with result code "
        ++ Text.shortHex resultCode.toUInt32.toNat
  | .channelClosed => "Channel closed"
  | .stream reason => reason
  | .json => "Invalid JSON"

/-- The text of an error that was found at a line of a file. -/
def describe (file : String) (line : Nat) : Error → String
  | .malformed cause => "Malformed - " ++ file ++ ":" ++ toString line ++ ": " ++ cause.message
  | .outOfBounds =>
      "Out of Bound read would have occurred - " ++ file ++ ":" ++ toString line
  | other => other.message

end Error

end CallCapture
