import CallCapture.Error
import CallCapture.Json.Fields
import CallCapture.Json.Printing

/-!
Events of a capture session, and their JSON form: an object with the event's name, or an array that
begins with it.
-/

namespace CallCapture

inductive EventKind where
  | capturingStarted
  | capturingStopped
  | failedToCapture
  | flush
deriving DecidableEq, Repr

namespace EventKind

def all : List EventKind := [.capturingStarted, .capturingStopped, .failedToCapture, .flush]

def name : EventKind → String
  | .capturingStarted => "Capturing/Start"
  | .capturingStopped => "Capturing/Stop"
  | .failedToCapture => "FailedToCapture"
  | .flush => "Flush"

def ofName? (name : String) : Option EventKind :=
  all.find? (·.name == name)

end EventKind

inductive ControlEvent where
  | capturingStarted
  | capturingStopped
  | failedToCapture (failureType failureMessage : String)
  | flush
deriving DecidableEq, Repr

namespace JsonTree

mutual

/-- How deeply arrays and objects are nested. -/
def depth : JsonTree → Nat
  | .array items => itemsDepth items + 1
  | .object fields => fieldsDepth fields + 1
  | _ => 0

def itemsDepth : List JsonTree → Nat
  | [] => 0
  | item :: items => max (depth item) (itemsDepth items)

def fieldsDepth : List (Option String × JsonTree) → Nat
  | [] => 0
  | (_, value) :: fields => max (depth value) (fieldsDepth fields)

end

mutual

/-- Whether every string has a value and every number is in the range of a double. -/
def isSound : JsonTree → Bool
  | .string value => value.isSome
  | .number value => value.fitsDouble
  | .array items => itemsSound items
  | .object fields => fieldsSound fields
  | _ => true

def itemsSound : List JsonTree → Bool
  | [] => true
  | item :: items => isSound item && itemsSound items

def fieldsSound : List (Option String × JsonTree) → Bool
  | [] => true
  | (key, value) :: fields => key.isSome && isSound value && fieldsSound fields

end

end JsonTree

namespace ControlEvent

def kind : ControlEvent → EventKind
  | .capturingStarted => .capturingStarted
  | .capturingStopped => .capturingStopped
  | .failedToCapture _ _ => .failedToCapture
  | .flush => .flush

/-- Type of a failure that comes from inside the library. -/
def internalFault : String := "UnrecoverableInternalFault"

/-- The type under which an error is reported. -/
def failureType : Error → String
  | .unresolvedMethods _ => "UnresolvedMethod"
  | .native _ | .protocol _ | .commandFailed _ _ | .stream _ => "ProtocolError"
  | _ => internalFault

/-- The event that reports an error. -/
def ofError (error : Error) : ControlEvent :=
  .failedToCapture (failureType error) error.message

def toJson (event : ControlEvent) : JsonTree :=
  .record (("name", .text event.kind.name) ::
    match event with
    | .failedToCapture failureType failureMessage =>
        [("failureType", .text failureType), ("failureMessage", .text failureMessage)]
    | _ => [])

def json (event : ControlEvent) : String :=
  event.toJson.print

/-- The kind of an event and what it carries besides its name. -/
def split? : JsonTree → Option (JsonTree × JsonTree)
  | .object fields => do
      let name ← (← JsonTree.lookup fields "name")
      some (name, .object (fields.filter (·.1 != some "name")))
  | .array (name :: items) => some (name, .array items)
  | _ => none

/-- An event without fields; an array must end after its name. -/
def bare? (event : ControlEvent) : JsonTree → Option ControlEvent
  | .array (_ :: _) => none
  | _ => some event

def failure? (content : JsonTree) : Option ControlEvent := do
  match ← content.slots ["failureType", "failureMessage"] with
  | [failureType, failureMessage] =>
      some (.failedToCapture (← JsonTree.required JsonTree.text? failureType)
        (← JsonTree.required JsonTree.text? failureMessage))
  | _ => none

/-- Nesting that the reader of events accepts. -/
def depthLimit : Nat := 127

/-- All parts of the document are read, also those that do not matter. -/
def ofJson? (tree : JsonTree) : Option ControlEvent := do
  if depthLimit < tree.depth || !tree.isSound then none
  else
    let (name, content) ← split? tree
    match ← EventKind.ofName? (← name.text?) with
    | .capturingStarted => bare? .capturingStarted content
    | .capturingStopped => bare? .capturingStopped content
    | .failedToCapture => failure? content
    | .flush => bare? .flush content

def parse (text : String) : Except Error ControlEvent :=
  match (JsonTree.parse? text).bind ofJson? with
  | some event => .ok event
  | none => .error .json

end ControlEvent

end CallCapture
