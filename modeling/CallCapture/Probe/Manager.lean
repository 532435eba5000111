import CallCapture.Log.Logger

/-!
Installing and removing probes. The manager is idle or capturing; while it captures, its cache holds
the methods that the native side was told to instrument, and each call of one of them becomes a log
entry.
-/

namespace CallCapture

inductive NativeCall where
  | register
  | install (batch : InstallBatch)
  | uninstall
deriving DecidableEq, Repr

def NativeCall.name : NativeCall → String
  | .register => "register"
  | .install _ => "install"
  | .uninstall => "uninstall"

/-- The error with which the native side refuses a call, if it does. -/
abbrev NativeAnswer := NativeCall → Option Error

/--
A native call that was made, what was cached at that moment, and how it was refused if it was.
-/
structure NativeExchange where
  call : NativeCall
  cache : MethodCache
  refusal : Option Error
deriving DecidableEq, Repr

inductive StartOutcome where
  | started (methods : Nat)
  | alreadyCapturing
  | nothingToCapture
deriving DecidableEq, Repr

inductive StopOutcome where
  | stopped
  | notCapturing
deriving DecidableEq, Repr

/-- When something happens: the time of day, and milliseconds since the logger was started. -/
structure Moment where
  timestamp : Timestamp
  elapsed : Nat
deriving DecidableEq, Repr

structure ProbeManager where
  config : Config
  capturing : Bool
  cache : MethodCache
  logger : Logger
  exchanges : List NativeExchange

namespace ProbeManager

def create (config : Config) (logger : Logger) : ProbeManager :=
  ⟨config, false, .empty, logger, []⟩

def ask (answer : NativeAnswer) (call : NativeCall) (manager : ProbeManager) :
    Option Error × ProbeManager :=
  let refusal := answer call
  (refusal, { manager with exchanges := manager.exchanges ++ [⟨call, manager.cache, refusal⟩] })

def clearCache (manager : ProbeManager) : ProbeManager :=
  { manager with cache := .empty }

def select (config : Config) (methods : List ResolvedMethod) : List ResolvedMethod :=
  methods.filter fun resolved => !config.excludesNamespace resolved.method.namespace

/-- Publishes the entries of methods and has them installed, all or none. -/
def install (answer : NativeAnswer) (methods : List ResolvedMethod) (manager : ProbeManager) :
    Except Error StartOutcome × ProbeManager :=
  let (entries, cache) := manager.cache.populate manager.config.maxRecursionDepth methods
  let batch := InstallBatch.ofMethods entries
  match ask answer (.install batch) { manager with cache := cache } with
  | (some error, asked) => (.error error, asked.clearCache)
  | (none, asked) => (.ok (.started batch.methodIds.length), { asked with capturing := true })

def start (answer : NativeAnswer) (methods : List ResolvedMethod) (manager : ProbeManager) :
    Except Error StartOutcome × ProbeManager :=
  if methods.isEmpty then (.ok .nothingToCapture, manager)
  else if manager.capturing then (.ok .alreadyCapturing, manager)
  else
    let selected := select manager.config methods
    if selected.isEmpty then (.ok .nothingToCapture, manager.clearCache)
    else install answer selected manager.clearCache

/-- Leaves the manager idle with an empty cache, whatever the native side answers. -/
def stop (answer : NativeAnswer) (manager : ProbeManager) :
    Except Error StopOutcome × ProbeManager :=
  if !manager.capturing then (.ok .notCapturing, manager)
  else
    match ask answer .uninstall { manager with capturing := false }.clearCache with
    | (some error, asked) => (.error error, asked.clearCache)
    | (none, asked) => (.ok .stopped, asked.clearCache)

def capturedArguments (method : Instrumented) (arguments : List Argument) : List String :=
  (arguments.zipIdx.filter fun entry => method.supported.contains entry.2).map (·.1.text)

/-- Logs a call of a captured method; the managed name of the thread goes before its own. -/
def onEnter (thread : Option String) (moment : Moment) (call : ProbeCall)
    (manager : ProbeManager) : ProbeManager :=
  if !manager.capturing then manager
  else
    match manager.cache.get? call.methodId with
    | none => manager
    | some method =>
        let name := call.context.threadName.or thread
        if name.any manager.logger.excludesThread then manager
        else
          let entry := LogEntry.ofCall method (capturedArguments method call.arguments) call.context
            moment.timestamp
          { manager with logger := (manager.logger.enqueue name moment.elapsed entry).2 }

end ProbeManager

end CallCapture
