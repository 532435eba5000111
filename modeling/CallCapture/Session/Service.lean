import CallCapture.Channel.Dispatcher
import CallCapture.Probe.EntryPoint
import CallCapture.Probe.Manager

/-!
Capture sessions: a request is resolved and installed, captures for its duration, and is stopped by
a caller or by its deadline. Subscribers see each start, failure, stop and flush.
-/

namespace CallCapture

inductive SessionState where
  | idle
  | resolving
  | installing
  | capturing
  | stopping
deriving DecidableEq, Repr

def SessionState.name : SessionState → String
  | .idle => "Idle"
  | .resolving => "Resolving"
  | .installing => "Installing"
  | .capturing => "Capturing"
  | .stopping => "Stopping"

/-- The thread that obeys start requests and deadlines. -/
def sessionThreadName : String := "callscope-session"

/-- The session that a deadline belongs to, and how long that may last. -/
structure Deadline where
  session : Nat
  duration : Duration
deriving DecidableEq, Repr

/--
What lies outside the service: answers of the native side, whether the sink is stalled, and the modules
that are loaded.
-/
structure Surroundings where
  native : NativeAnswer
  stalled : Bool
  catalog : Catalog

structure CaptureService where
  config : Config
  /-- Where calls enter; its world is the manager of the probes. -/
  point : EntryPoint Unit ProbeManager
  state : SessionState
  /-- How many sessions were started. -/
  sessions : Nat
  deadline : Option Deadline
  running : Bool

namespace CaptureService

/-- Registers the entry point with the native side, which may refuse. -/
def create (answer : NativeAnswer) (config : Config) (sink : Sink) :
    Except Error CaptureService := do
  let logger ← Logger.start config sink
  let (refusal, manager) := (ProbeManager.create config logger).ask answer .register
  match refusal with
  | some error => .error error
  | none =>
      .ok ⟨config, ((EntryPoint.create manager).register ()).2, .idle, 0, none, true⟩

def manager (service : CaptureService) : ProbeManager :=
  service.point.world

def withManager (service : CaptureService) (manager : ProbeManager) : CaptureService :=
  { service with point := { service.point with world := manager } }

def withLogger (service : CaptureService) (logger : Logger) : CaptureService :=
  service.withManager { service.manager with logger := logger }

def publish (service : CaptureService) (event : ControlEvent) : CaptureService :=
  { service with point := service.point.publish event }

def fail (service : CaptureService) (error : Error) : CaptureService :=
  { service with state := .idle }.publish (.ofError error)

/-- Installs resolved methods. A start arms the deadline of its session, and nothing else does. -/
def installSession (native : NativeAnswer) (methods : List ResolvedMethod) (duration : Duration)
    (service : CaptureService) : Except Error StartOutcome × CaptureService :=
  let (result, manager) := service.manager.start native methods
  let installed := { service with state := .installing }.withManager manager
  match result with
  | .ok (.started count) =>
      let session := service.sessions + 1
      (.ok (.started count),
        { installed with
          state := .capturing
          sessions := session
          deadline := some ⟨session, duration⟩ }.publish .capturingStarted)
  | .ok outcome => (.ok outcome, { installed with state := .idle })
  | .error error => (.error error, installed.fail error)

def start (around : Surroundings) (request : CaptureRequest) (service : CaptureService) :
    Except Error StartOutcome × CaptureService :=
  if !service.running then (.error .channelClosed, service)
  else if service.state ≠ .idle then (.ok .alreadyCapturing, service)
  else
    let resolving := { service with state := .resolving }
    match Description.resolveAll around.catalog request.methods with
    | .error error => (.error error, resolving.fail error)
    | .ok methods => resolving.installSession around.native methods request.duration

def startJson (around : Surroundings) (json : String) (service : CaptureService) :
    Except Error StartOutcome × CaptureService :=
  match CaptureRequest.parse service.config json with
  | .error error => (.error error, service)
  | .ok request => service.start around request

/-- Waits for the log to drain, and tells subscribers if it did. -/
def flushLog (stalled : Bool) (service : CaptureService) : CaptureService :=
  let (result, logger) := service.manager.logger.flush stalled
  let flushed := service.withLogger logger
  match result with
  | .ok () => flushed.publish .flush
  | .error _ => flushed

def stop (around : Surroundings) (service : CaptureService) :
    Except Error StopOutcome × CaptureService :=
  if service.state ≠ .capturing then (.ok .notCapturing, service)
  else
    let (result, manager) := service.manager.stop around.native
    let stopped := { service with state := .idle }.withManager manager
    match result with
    | .error error =>
        (.error error,
          ((stopped.fail error).publish .capturingStopped).flushLog around.stalled)
    | .ok _ => (.ok .stopped, (stopped.publish .capturingStopped).flushLog around.stalled)

/-- The armed deadline is reached; it stops the session that is active then. -/
def expire (around : Surroundings) (service : CaptureService) : CaptureService :=
  match service.deadline with
  | none => service
  | some _ => ({ service with deadline := none }.stop around).2

def shutdown (around : Surroundings) (service : CaptureService) : CaptureService :=
  if !service.running then service
  else
    let stopped := ({ service with running := false, deadline := none }.stop around).2
    let emptied := { stopped with point := stopped.point.unregister.2 }
    emptied.withLogger emptied.manager.logger.shutdown

def handle (around : Surroundings) (command : Command) (service : CaptureService) :
    Int32 × CaptureService :=
  let (failed, next) : Option Error × CaptureService :=
    match command with
    | .start payload =>
        match CaptureRequest.ofPayload service.config payload with
        | .error error => (some error, service)
        | .ok request =>
            match service.start around request with
            | (.ok _, next) => (none, next)
            | (.error error, next) => (some error, next)
    | .stop =>
        match service.stop around with
        | (.ok _, next) => (none, next)
        | (.error error, next) => (some error, next)
  ((failed.map ResultCode.ofError).getD ResultCode.success, next)

/-- A call of instrumented code on a thread. The manager itself calls none. -/
def invoke (thread : Option String) (moment : Moment) (call : ProbeCall)
    (service : CaptureService) : CaptureService :=
  let react (_ : Unit) (call : ProbeCall) (manager : ProbeManager) : Reaction ProbeManager :=
    ⟨manager.onEnter thread moment call, [], none⟩
  { service with point := EntryPoint.invokeWithin react 1 service.point call }

end CaptureService

end CallCapture
