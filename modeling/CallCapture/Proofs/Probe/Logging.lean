import CallCapture.Proofs.Capture.Cache
import CallCapture.Proofs.Log.Delivery
import CallCapture.Proofs.Message.Literal
import CallCapture.Proofs.Probe.Transitions
import CallCapture.Session.Service

/-!
Probes are started and stopped, and calls reach the entry point, in any order. A call is logged just
while its method is captured: no entry of an earlier start, or of one that was refused, comes back.
-/

namespace CallCapture

def NativeExchange.installed? : NativeExchange → Option InstallBatch
  | ⟨.install batch, _, none⟩ => some batch
  | _ => none

inductive ProbeOperation where
  | start (native : NativeAnswer) (methods : List ResolvedMethod)
  | stop (native : NativeAnswer)
  | call (thread : Option String) (moment : Moment) (call : ProbeCall)
  /-- The consumer of the log takes a step. -/
  | consume

namespace ProbeManager

variable {config : Config} {sink : Sink} {logger : Logger} {manager : ProbeManager}
  {methods : List ResolvedMethod} {point : EntryPoint Unit ProbeManager}

/-- The ids of the batch that was installed last. -/
def installedIds (manager : ProbeManager) : List UInt64 :=
  ((manager.exchanges.filterMap NativeExchange.installed?).getLast?.map
    InstallBatch.methodIds).getD []

/-- A manager that is the handler of an entry point. -/
def registered (config : Config) (logger : Logger) : EntryPoint Unit ProbeManager :=
  ((EntryPoint.create (create config logger)).register ()).2

/-- A call on a thread, through the entry point. The manager itself calls no instrumented code. -/
def enter (thread : Option String) (moment : Moment) (call : ProbeCall)
    (point : EntryPoint Unit ProbeManager) : EntryPoint Unit ProbeManager :=
  EntryPoint.invokeWithin
    (fun _ call manager => ⟨manager.onEnter thread moment call, [], none⟩) 1 point call

/-- This is how calls enter a service. -/
theorem enter_eq_invoke (service : CaptureService) (thread : Option String) (moment : Moment)
    (call : ProbeCall) :
    service.invoke thread moment call =
      { service with point := enter thread moment call service.point } := rfl

def withWorld (point : EntryPoint Unit ProbeManager) (manager : ProbeManager) :
    EntryPoint Unit ProbeManager :=
  { point with world := manager }

def perform (point : EntryPoint Unit ProbeManager) :
    ProbeOperation → EntryPoint Unit ProbeManager
  | .start native methods => withWorld point (point.world.start native methods).2
  | .stop native => withWorld point (point.world.stop native).2
  | .call thread moment call => enter thread moment call point
  | .consume => withWorld point { point.world with logger := point.world.logger.consume }

def run (point : EntryPoint Unit ProbeManager) (operations : List ProbeOperation) :
    EntryPoint Unit ProbeManager :=
  operations.foldl perform point

/-- The methods to capture from now on, if the operation is a start that is answered started. -/
def startedBy (point : EntryPoint Unit ProbeManager) :
    ProbeOperation → Option (List ResolvedMethod)
  | .start native methods =>
      match (point.world.start native methods).1 with
      | .ok (.started _) => some (select point.world.config methods)
      | _ => none
  | _ => none

/-- The methods of the last start in a run that was answered started, or else those given. -/
def lastStarted (point : EntryPoint Unit ProbeManager) (methods : List ResolvedMethod) :
    List ProbeOperation → List ResolvedMethod
  | [] => methods
  | operation :: rest =>
      lastStarted (perform point operation) ((startedBy point operation).getD methods) rest

def entryOf (limit : Nat) (resolved : ResolvedMethod) (call : ProbeCall) (moment : Moment) :
    LogEntry :=
  let instructions := Boxing.classify limit resolved.module resolved.method
  { template := Template.ofMethod resolved.method instructions
    arguments := capturedTexts instructions call.arguments
    timestamp := moment.timestamp
    moduleName := resolved.module.name
    typeName := RuntimeType.label resolved.method.declaringType
    methodName := Name.stripArity resolved.method.name
    traceId := call.context.traceId
    traceFormat := call.context.traceFormat.map TraceFormat.name }

theorem ofCall_build (limit : Nat) (resolved : ResolvedMethod) (call : ProbeCall)
    (moment : Moment) :
    LogEntry.ofCall (Instrumented.build limit resolved)
        (capturedArguments (Instrumented.build limit resolved) call.arguments) call.context
        moment.timestamp =
      entryOf limit resolved call moment := by
  rw [capturedArguments_build]
  rfl

/-- A point with a handler and without a mark, whose manager captures the given methods if any. -/
structure Tracks (config : Config) (methods : List ResolvedMethod)
    (point : EntryPoint Unit ProbeManager) : Prop where
  registered : point.handler = some ()
  unmarked : point.inProbe = false
  configured : point.world.config = config
  log : ∃ sink exchanges, Logger.Accounts config sink exchanges point.world.logger
  running : point.world.logger.completed = false
  installed : point.world.installedIds = methods.map ResolvedMethod.id
  cached : point.world.capturing = true → ∀ id, point.world.cache.get? id =
    (methods.find? (·.id == id)).map (Instrumented.build config.maxRecursionDepth)

theorem registered_tracks (started : Logger.start config sink = .ok logger) :
    Tracks config [] (registered config logger) := by
  obtain ⟨accounts, _⟩ := Logger.start_accounts started
  have running : logger.completed = false := by simpa using accounts.completed
  exact ⟨rfl, rfl, rfl, ⟨sink, [], accounts⟩, running, rfl, nofun⟩

theorem Tracks.withLogger (tracks : Tracks config methods point)
    (log : ∃ sink exchanges, Logger.Accounts config sink exchanges logger)
    (running : logger.completed = false) :
    Tracks config methods (withWorld point { point.world with logger := logger }) :=
  ⟨tracks.registered, tracks.unmarked, tracks.configured, log, running, tracks.installed,
    tracks.cached⟩

/-- The manager became or stays idle, and nothing new was installed. -/
theorem Tracks.idle (tracks : Tracks config methods point) (idle : manager.capturing = false)
    (configured : manager.config = point.world.config)
    (logger : manager.logger = point.world.logger)
    (installed : manager.installedIds = point.world.installedIds) :
    Tracks config methods (withWorld point manager) where
  registered := tracks.registered
  unmarked := tracks.unmarked
  configured := configured.trans tracks.configured
  log := logger.symm ▸ tracks.log
  running := logger.symm ▸ tracks.running
  installed := installed.trans tracks.installed
  cached active := absurd (idle.symm.trans active) (by decide)

theorem installedIds_of_other {after : ProbeManager} {exchange : NativeExchange}
    (made : after.exchanges = manager.exchanges ++ [exchange])
    (other : exchange.installed? = none) : after.installedIds = manager.installedIds := by
  simp [installedIds, made, List.filterMap_append, other]

theorem installedIds_of_install {after : ProbeManager} {batch : InstallBatch} {cache : MethodCache}
    (made : after.exchanges = manager.exchanges ++ [⟨.install batch, cache, none⟩]) :
    after.installedIds = batch.methodIds := by
  simp [installedIds, made, List.filterMap_append, NativeExchange.installed?]

theorem startBatch_ids (config : Config) (methods : List ResolvedMethod) :
    (startBatch config methods).methodIds = (select config methods).map ResolvedMethod.id :=
  MethodCache.populate_ids _ _ _

theorem Tracks.start (tracks : Tracks config methods point) (native : NativeAnswer)
    (asked : List ResolvedMethod) :
    Tracks config ((startedBy point (.start native asked)).getD methods)
      (perform point (.start native asked)) := by
  obtain ⟨_, answer⟩ | ⟨_, answer⟩ | ⟨idle, answer⟩ | ⟨error, idle, _, answer⟩ |
    ⟨_, _, answer⟩ := start_cases native asked point.world
  · simp only [startedBy, perform, answer]
    exact tracks
  · simp only [startedBy, perform, answer]
    exact tracks
  · simp only [startedBy, perform, answer]
    exact tracks.idle idle rfl rfl rfl
  · simp only [startedBy, perform, answer]
    exact tracks.idle idle rfl rfl (installedIds_of_other rfl rfl)
  · simp only [startedBy, perform, answer, Option.getD_some]
    refine ⟨tracks.registered, tracks.unmarked, tracks.configured, tracks.log, tracks.running,
      ?_, ?_⟩
    · exact (installedIds_of_install rfl).trans (startBatch_ids _ _)
    · intro _ id
      rw [← tracks.configured]
      exact MethodCache.get?_populate_empty _ _ id

theorem Tracks.stop (tracks : Tracks config methods point) (native : NativeAnswer) :
    Tracks config methods (perform point (.stop native)) := by
  obtain ⟨_, answer⟩ | ⟨error, _, _, answer⟩ | ⟨_, _, answer⟩ := stop_cases native point.world
  · simp only [perform, answer]
    exact tracks
  · simp only [perform, answer]
    exact tracks.idle rfl rfl rfl (installedIds_of_other rfl rfl)
  · simp only [perform, answer]
    exact tracks.idle rfl rfl rfl (installedIds_of_other rfl rfl)

/-! ### What a call does -/

/-- A call of this method on a thread of this name is to be logged. -/
structure Captures (config : Config) (manager : ProbeManager) (id : UInt64)
    (thread : Option String) : Prop where
  capturing : manager.capturing = true
  installed : id ∈ manager.installedIds
  allowed : ∀ name, thread = some name →
    name ∉ config.excludedThreadNames ∧ name ≠ config.consumerThreadName

theorem Tracks.enter_eq (tracks : Tracks config methods point) (thread : Option String)
    (moment : Moment) (call : ProbeCall) :
    enter thread moment call point = withWorld point (point.world.onEnter thread moment call) := by
  obtain ⟨handler, faults, inProbe, world, events⟩ := point
  have registered : handler = some () := tracks.registered
  have unmarked : inProbe = false := tracks.unmarked
  subst registered unmarked
  rfl

theorem Tracks.captures_iff (tracks : Tracks config methods point) (id : UInt64)
    (thread : Option String) :
    Captures config point.world id thread ↔
      point.world.capturing = true ∧ (methods.find? (·.id == id)).isSome = true ∧
        thread.any point.world.logger.excludesThread = false := by
  obtain ⟨sink, exchanges, accounts⟩ := tracks.log
  have installed : id ∈ point.world.installedIds ↔
      (methods.find? (·.id == id)).isSome = true := by
    rw [tracks.installed, List.find?_isSome, List.mem_map]
    simp only [beq_iff_eq]
  rw [accounts.allowed_iff, ← installed]
  exact ⟨fun ⟨active, member, allowed⟩ => ⟨active, member, allowed⟩,
    fun ⟨active, member, allowed⟩ => ⟨active, member, allowed⟩⟩

theorem Tracks.enter_of_captures (tracks : Tracks config methods point) (thread : Option String)
    (moment : Moment) (call : ProbeCall)
    (captures : Captures config point.world call.methodId (call.context.threadName.or thread)) :
    ∃ resolved, methods.find? (·.id == call.methodId) = some resolved ∧
      enter thread moment call point =
        withWorld point
          { point.world with
            logger := (point.world.logger.enqueue (call.context.threadName.or thread)
              moment.elapsed (entryOf config.maxRecursionDepth resolved call moment)).2 } := by
  obtain ⟨active, member, allowed⟩ := (tracks.captures_iff _ _).mp captures
  obtain ⟨resolved, found⟩ := Option.isSome_iff_exists.mp member
  refine ⟨resolved, found, ?_⟩
  have cached : point.world.cache.get? call.methodId =
      some (Instrumented.build config.maxRecursionDepth resolved) := by
    rw [tracks.cached active, found]
    rfl
  rw [tracks.enter_eq, ← ofCall_build]
  simp only [onEnter, active, cached, allowed, Bool.not_true, Bool.false_eq_true, if_false]

theorem Tracks.enter_of_not_captures (tracks : Tracks config methods point)
    (thread : Option String) (moment : Moment) (call : ProbeCall)
    (captures : ¬ Captures config point.world call.methodId (call.context.threadName.or thread)) :
    enter thread moment call point = point := by
  rw [tracks.captures_iff] at captures
  rw [tracks.enter_eq]
  have same : point.world.onEnter thread moment call = point.world := by
    unfold onEnter
    cases active : point.world.capturing with
    | false => rfl
    | true =>
        cases found : methods.find? (·.id == call.methodId) with
        | none => simp [tracks.cached active, found]
        | some resolved =>
            have excluded : (call.context.threadName.or thread).any
                point.world.logger.excludesThread = true := by
              simpa [active, found] using captures
            simp [tracks.cached active, found, excluded]
  rw [same]
  rfl

/-- A log whose consumer has ended has no use for the entry. -/
theorem Tracks.enter_of_stopped (tracks : Tracks config methods point) (thread : Option String)
    (moment : Moment) (call : ProbeCall) (stopped : point.world.logger.stopped = true) :
    enter thread moment call point = point := by
  by_cases captures : Captures config point.world call.methodId
    (call.context.threadName.or thread)
  · obtain ⟨resolved, _, entered⟩ := tracks.enter_of_captures thread moment call captures
    rw [entered, (Logger.enqueue_of_stopped stopped _ _ _).1]
    rfl
  · exact tracks.enter_of_not_captures thread moment call captures

theorem Tracks.enter (tracks : Tracks config methods point) (thread : Option String)
    (moment : Moment) (call : ProbeCall) :
    Tracks config methods (enter thread moment call point) := by
  by_cases captures : Captures config point.world call.methodId
    (call.context.threadName.or thread)
  · obtain ⟨resolved, _, entered⟩ := tracks.enter_of_captures thread moment call captures
    obtain ⟨sink, exchanges, accounts⟩ := tracks.log
    rw [entered]
    refine tracks.withLogger ⟨sink, _, accounts.enqueue _ _ _⟩ ?_
    exact (Logger.enqueue_bounds _ _ _ _).1.trans tracks.running
  · rw [tracks.enter_of_not_captures thread moment call captures]
    exact tracks

theorem Tracks.consume (tracks : Tracks config methods point) :
    Tracks config methods (perform point .consume) := by
  obtain ⟨sink, exchanges, accounts⟩ := tracks.log
  refine tracks.withLogger ⟨sink, _, accounts.consume⟩ ?_
  exact (Logger.consume_sameProducers _).completed.trans tracks.running

theorem Tracks.perform (tracks : Tracks config methods point) (operation : ProbeOperation) :
    Tracks config ((startedBy point operation).getD methods) (perform point operation) := by
  cases operation with
  | start native asked => exact tracks.start native asked
  | stop native => exact tracks.stop native
  | call thread moment call => exact tracks.enter thread moment call
  | consume => exact tracks.consume

theorem Tracks.run (tracks : Tracks config methods point) (operations : List ProbeOperation) :
    Tracks config (lastStarted point methods operations) (run point operations) := by
  induction operations generalizing methods point with
  | nil => exact tracks
  | cons operation rest ih => exact ih (tracks.perform operation)

/--
After any run of starts, stops and calls, a call changes anything just if its method is captured, its
thread is not excluded and the consumer of the log lives. It offers one entry if it is captured, about
the first method of its id in the start that was answered last, and a log whose consumer lives takes
that or drops it.
-/
theorem run_logs_captured (started : Logger.start config sink = .ok logger)
    (operations : List ProbeOperation) (thread : Option String) (moment : Moment)
    (call : ProbeCall) :
    let point := run (registered config logger) operations
    let methods := lastStarted (registered config logger) [] operations
    let name := call.context.threadName.or thread
    (enter thread moment call point ≠ point ↔
      Captures config point.world call.methodId name ∧ point.world.logger.stopped = false) ∧
    (Captures config point.world call.methodId name →
      ∃ resolved, methods.find? (·.id == call.methodId) = some resolved ∧
        let offer := point.world.logger.enqueue name moment.elapsed
          (entryOf config.maxRecursionDepth resolved call moment)
        (point.world.logger.stopped = false → offer.1 = .queued ∨ offer.1 = .dropped) ∧
        enter thread moment call point =
          withWorld point { point.world with logger := offer.2 }) := by
  intro point methods name
  have tracks : Tracks config methods point := (registered_tracks started).run operations
  have logged (captures : Captures config point.world call.methodId name)
      (going : point.world.logger.stopped = false) :=
    Logger.enqueue_of_allowed tracks.running going ((tracks.captures_iff _ _).mp captures).2.2
      moment.elapsed
  refine ⟨⟨fun changed => ⟨?_, ?_⟩, fun ⟨captures, going⟩ same => ?_⟩, fun captures => ?_⟩
  · refine Classical.byContradiction fun captures => changed ?_
    exact tracks.enter_of_not_captures thread moment call captures
  · refine Bool.eq_false_iff.mpr fun stopped => changed ?_
    exact tracks.enter_of_stopped thread moment call stopped
  · obtain ⟨resolved, _, entered⟩ := tracks.enter_of_captures thread moment call captures
    refine (logged captures going (entryOf config.maxRecursionDepth resolved call moment)).2 ?_
    exact congrArg (·.world.logger) (entered.symm.trans same)
  · obtain ⟨resolved, found, entered⟩ := tracks.enter_of_captures thread moment call captures
    exact ⟨resolved, found, fun going => (logged captures going _).1, entered⟩

def plainMethod (number : UInt32) : ResolvedMethod :=
  let method : Method := ⟨⟨0x06000000 + number⟩, "Bar", some (.ofKind "App" "Foo" .classType), true,
    [], [], []⟩
  ⟨⟨1, "App.dll", false, false, [], [], [method]⟩, method⟩

/-- An install that is refused, one that is obeyed, and a call of either method after both. -/
theorem run_logs_captured_refused :
    let call (resolved : ResolvedMethod) : ProbeCall := ⟨resolved.id, [], ⟨none, none, none⟩⟩
    let refused : NativeAnswer := fun call => some (.native call.name)
    let operations : List ProbeOperation :=
      [.start refused [plainMethod 1], .start (fun _ => none) [plainMethod 1], .stop refused,
        .start (fun _ => none) [plainMethod 2], .start (fun _ => none) [plainMethod 1]]
    ∃ logger, Logger.start .initial .steady = .ok logger ∧
      let point := run (registered .initial logger) operations
      enter none ⟨⟨0, 0⟩, 0⟩ (call (plainMethod 1)) point = point ∧
      enter none ⟨⟨0, 0⟩, 0⟩ (call (plainMethod 2)) point ≠ point := by
  intro call refused operations
  have started : ∃ logger, Logger.start .initial .steady = .ok logger := ⟨_, rfl⟩
  obtain ⟨logger, started⟩ := started
  have logged := run_logs_captured started operations none ⟨⟨0, 0⟩, 0⟩
  refine ⟨logger, started, ?_, (logged (call (plainMethod 2))).1.mpr ?_⟩
  · refine Classical.byContradiction fun changed => ?_
    have installed := ((logged (call (plainMethod 1))).1.mp changed).1.installed
    cases started
    revert installed
    decide +kernel
  · cases started
    exact ⟨⟨by decide +kernel, by decide +kernel, nofun⟩, by decide +kernel⟩

end ProbeManager

end CallCapture
