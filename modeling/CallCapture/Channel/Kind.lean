/-!
What a frame of the control channel is for, and how its payload is written.
-/

namespace CallCapture

inductive MessageType where
  | unknown
  | status
  | startCapturing
  | stopCapturing
deriving DecidableEq, Repr

inductive PayloadType where
  | empty
  | int32
  | utf8Json
deriving DecidableEq, Repr

namespace MessageType

def wire : MessageType → Int16
  | .unknown => 0
  | .status => 1
  | .startCapturing => 2
  | .stopCapturing => 3

def all : List MessageType := [.unknown, .status, .startCapturing, .stopCapturing]

def name : MessageType → String
  | .unknown => "Unknown"
  | .status => "Status"
  | .startCapturing => "StartCapturing"
  | .stopCapturing => "StopCapturing"

end MessageType

namespace PayloadType

def wire : PayloadType → Int16
  | .empty => 0
  | .int32 => 1
  | .utf8Json => 2

def all : List PayloadType := [.empty, .int32, .utf8Json]

def name : PayloadType → String
  | .empty => "None"
  | .int32 => "Int32"
  | .utf8Json => "Utf8Json"

end PayloadType

end CallCapture
