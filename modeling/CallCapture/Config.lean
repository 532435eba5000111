import CallCapture.Json.Fields
import CallCapture.Json.Printing
import CallCapture.Signature.Decoding
import CallCapture.Time.DurationText

/-!
The configuration of a capture: its limits, and what is never captured or logged.
-/

namespace CallCapture

structure Config where
  queueCapacity : Nat
  defaultDuration : Duration
  maxDuration : Option Duration
  excludedNamespaces : List String
  excludedThreadNames : List String
  consumerThreadName : String
  dropWarningInterval : Duration
  maxRecursionDepth : Nat
deriving DecidableEq, Repr

namespace Config

def defaultConsumerThreadName : String := "callscope-capture-logger"

def consoleLoggerThreadName : String := ".NET Console Logger"

def initial : Config where
  queueCapacity := 1024
  defaultDuration := .ofSeconds 30
  maxDuration := none
  excludedNamespaces :=
    ["System.Diagnostics", "System.Threading", "System.Runtime.CompilerServices",
      "Microsoft.Extensions.Logging", "callscope"]
  excludedThreadNames := [consoleLoggerThreadName, defaultConsumerThreadName]
  consumerThreadName := defaultConsumerThreadName
  dropWarningInterval := .ofSeconds 10
  maxRecursionDepth := defaultNestingLimit

/-- The consumer is excluded from capture as soon as it is named. -/
def withConsumerThreadName (config : Config) (name : String) : Config :=
  let excluded := config.excludedThreadNames
  { config with
    excludedThreadNames := if excluded.contains name then excluded else excluded ++ [name]
    consumerThreadName := name }

def fault? (config : Config) : Option ConfigFault :=
  if config.queueCapacity = 0 then some .noQueueCapacity
  else if config.defaultDuration = .zero then some .noDefaultDuration
  else if config.maxDuration.any (·.nanoseconds < config.defaultDuration.nanoseconds) then
    some .defaultAboveMaximum
  else if config.maxRecursionDepth = 0 then some .noRecursionDepth
  else if config.consumerThreadName.isEmpty then some .noConsumerThreadName
  else none

def validate (config : Config) : Except Error Unit :=
  match config.fault? with
  | some fault => .error (.configuration fault)
  | none => .ok ()

/-- A namespace is excluded together with all that are nested in it. -/
def isWithin (scope excluded : List Char) : Bool :=
  match Text.dropPrefix? excluded scope with
  | some [] => true
  | some (c :: _) => c == '.'
  | none => false

def excludesNamespace (config : Config) (scope : String) : Bool :=
  config.excludedNamespaces.any fun excluded => isWithin scope.toList excluded.toList

def excludesThread (config : Config) (name : String) : Bool :=
  config.excludedThreadNames.contains name

def fieldNames : List String :=
  ["queueCapacity", "defaultDuration", "maxDuration", "excludedNamespaces", "excludedThreadNames",
    "consumerThreadName", "dropWarningInterval", "maxRecursionDepth"]

def toJson (config : Config) : JsonTree :=
  .record ([("queueCapacity", .natural config.queueCapacity),
      ("defaultDuration", .text config.defaultDuration.text)]
    ++ (config.maxDuration.map fun maximum => ("maxDuration", JsonTree.text maximum.text)).toList
    ++ [("excludedNamespaces", .texts config.excludedNamespaces),
      ("excludedThreadNames", .texts config.excludedThreadNames),
      ("consumerThreadName", .text config.consumerThreadName),
      ("dropWarningInterval", .text config.dropWarningInterval.text),
      ("maxRecursionDepth", .natural config.maxRecursionDepth)])

def durationOf? (tree : JsonTree) : Option Duration := do
  (Duration.parse (← tree.text?)).toOption

/-- Any field may be absent. -/
def ofJson? (tree : JsonTree) : Option Config := do
  match ← tree.slots fieldNames with
  | [capacity, duration, maximum, namespaces, threads, consumer, interval, depth] =>
      some ⟨← JsonTree.orDefault initial.queueCapacity JsonTree.natural? capacity,
        ← JsonTree.orDefault initial.defaultDuration durationOf? duration,
        ← JsonTree.orDefault initial.maxDuration (JsonTree.optional? durationOf?) maximum,
        ← JsonTree.orDefault initial.excludedNamespaces (JsonTree.list? JsonTree.text?) namespaces,
        ← JsonTree.orDefault initial.excludedThreadNames (JsonTree.list? JsonTree.text?) threads,
        ← JsonTree.orDefault initial.consumerThreadName JsonTree.text? consumer,
        ← JsonTree.orDefault initial.dropWarningInterval durationOf? interval,
        ← JsonTree.orDefault initial.maxRecursionDepth JsonTree.natural? depth⟩
  | _ => none

def parse (text : String) : Except Error Config :=
  match (JsonTree.parse? text).bind ofJson? with
  | none => .error .json
  | some config => config.validate.map fun _ => config

end Config

end CallCapture
