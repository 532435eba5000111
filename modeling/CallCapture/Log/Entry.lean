import CallCapture.Capture.Instrumented
import CallCapture.Json.Printing
import CallCapture.Message.Rendering
import CallCapture.Probe.Call
import CallCapture.Text.Utf8
import CallCapture.Time.Timestamp

/-!
Entries of the capture log, and the two forms in which they are written: a JSON object on a line of
its own, and a record of named texts.
-/

namespace CallCapture

structure LogEntry where
  template : String
  arguments : List String
  timestamp : Timestamp
  moduleName : String
  typeName : String
  methodName : String
  traceId : Option String
  traceFormat : Option String
deriving DecidableEq, Repr

namespace LogEntry

def ofCall (method : Instrumented) (arguments : List String) (context : ProbeContext)
    (timestamp : Timestamp) : LogEntry :=
  { template := method.template
    arguments := arguments
    timestamp := timestamp
    moduleName := method.moduleName
    typeName := method.typeName
    methodName := method.methodName
    traceId := context.traceId
    traceFormat := context.traceFormat.map TraceFormat.name }

def diagnostic (message : String) (timestamp : Timestamp) : LogEntry :=
  ⟨"\x7b0\x7d", [message], timestamp, "", "", "", none, none⟩

def message (entry : LogEntry) : String :=
  Template.render entry.template entry.arguments

def optionalField (name : String) (value : Option String) : List (String × String) :=
  (value.map fun text => (name, text)).toList

def toJson (entry : LogEntry) : JsonTree :=
  .record (([("message", entry.message), ("timestamp", entry.timestamp.exactText),
      ("moduleName", entry.moduleName), ("typeName", entry.typeName),
      ("methodName", entry.methodName)]
    ++ optionalField "traceId" entry.traceId ++ optionalField "traceFormat" entry.traceFormat).map
      fun field => (field.1, JsonTree.text field.2))

/-- One JSON object and the end of its line. -/
def jsonLine (entry : LogEntry) : String :=
  entry.toJson.print ++ "\n"

def record (entry : LogEntry) : List (String × String) :=
  [("message", entry.message), ("timestamp", entry.timestamp.millisecondText),
    ("module", entry.moduleName), ("declaring_type", entry.typeName),
    ("method", entry.methodName)]
  ++ optionalField "trace_id" entry.traceId ++ optionalField "trace_format" entry.traceFormat

def recordLevel : String := "INFO"

/-- The bytes of a log of JSON lines, as far as a writer of limited room takes them. -/
def jsonLines (room : Option Nat) (entries : List LogEntry) : List UInt8 :=
  let bytes := Utf8.encode (String.join (entries.map jsonLine))
  match room with
  | some count => bytes.take count
  | none => bytes

end LogEntry

end CallCapture
