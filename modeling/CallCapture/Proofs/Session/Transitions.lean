import CallCapture.Proofs.Log.Flushing
import CallCapture.Proofs.Probe.Transitions
import CallCapture.Proofs.Session.Agreement

/-!
All that a start or a stop of a session may do, with its answer and with what subscribers are told.
-/

namespace CallCapture

/-- What is told about a start of a running service. -/
def ControlEvent.ofStart : Except Error StartOutcome → List ControlEvent
  | .ok (.started _) => [.capturingStarted]
  | .ok .alreadyCapturing => []
  | .ok .nothingToCapture => []
  | .error error => [.ofError error]

/-- What is told about a stop; the log drains before the last of it. -/
def ControlEvent.ofStop : Except Error StopOutcome → List ControlEvent
  | .ok .stopped => [.capturingStopped, .flush]
  | .ok .notCapturing => []
  | .error error => [.ofError error, .capturingStopped, .flush]

namespace CaptureService

open ControlEvent (ofStart ofStop)

variable {service : CaptureService} {around : Surroundings}

def withEvents (service : CaptureService) (events : EventStream) : CaptureService :=
  { service with point := { service.point with events := events } }

def tell (service : CaptureService) (events : List ControlEvent) : CaptureService :=
  service.withEvents (service.point.events.publishAll events)

theorem start_cases (service : CaptureService) (around : Surroundings)
    (request : CaptureRequest) :
    (service.running = false ∧
      service.start around request = (.error .channelClosed, service)) ∨
    (service.running = true ∧ service.state ≠ .idle ∧
      service.start around request = (.ok .alreadyCapturing, service)) ∨
    (∃ error, service.running = true ∧ service.state = .idle ∧
      Description.resolveAll around.catalog request.methods = .error error ∧
      service.start around request =
        (.error error, { service with state := .idle }.tell [.ofError error])) ∨
    (∃ methods, service.running = true ∧ service.state = .idle ∧
      Description.resolveAll around.catalog request.methods = .ok methods ∧
      service.start around request =
        { service with state := .resolving }.installSession around.native methods
          request.duration) := by
  cases running : service.running with
  | false => exact .inl ⟨rfl, by simp [start, running]⟩
  | true =>
      by_cases idle : service.state = .idle
      · cases resolved : Description.resolveAll around.catalog request.methods with
        | error error =>
            refine .inr (.inr (.inl ⟨error, rfl, idle, rfl, ?_⟩))
            simp only [start, running, idle, resolved]
            rfl
        | ok methods =>
            refine .inr (.inr (.inr ⟨methods, rfl, idle, rfl, ?_⟩))
            simp only [start, running, idle, resolved]
            rfl
      · exact .inr (.inl ⟨rfl, idle, by simp [start, running, idle]⟩)

theorem installSession_cases (native : NativeAnswer) (methods : List ResolvedMethod)
    (duration : Duration) (service : CaptureService) :
    (∃ count, (service.manager.start native methods).1 = .ok (.started count) ∧
      service.installSession native methods duration =
        (.ok (.started count),
          ({ service with
            state := .capturing
            sessions := service.sessions + 1
            deadline := some ⟨service.sessions + 1, duration⟩ }.withManager
              (service.manager.start native methods).2).tell [.capturingStarted])) ∨
    (∃ outcome, ofStart (.ok outcome) = [] ∧
      service.installSession native methods duration =
        (.ok outcome, { service with state := .idle }.withManager
          (service.manager.start native methods).2)) ∨
    (∃ error, (service.manager.start native methods).1 = .error error ∧
      service.installSession native methods duration =
        (.error error, ({ service with state := .idle }.withManager
          (service.manager.start native methods).2).tell [.ofError error])) := by
  cases started : service.manager.start native methods with
  | mk result manager =>
      unfold installSession
      rw [started]
      match result with
      | .ok (.started count) => exact .inl ⟨count, rfl, rfl⟩
      | .ok .alreadyCapturing => exact .inr (.inl ⟨_, rfl, rfl⟩)
      | .ok .nothingToCapture => exact .inr (.inl ⟨_, rfl, rfl⟩)
      | .error error => exact .inr (.inr ⟨error, rfl, rfl⟩)

theorem flushLog_of_flushed {stalled : Bool}
    (flushed : (service.manager.logger.flush stalled).1 = .ok ()) :
    service.flushLog stalled =
      (service.withLogger (service.manager.logger.flush stalled).2).tell [.flush] := by
  cases drained : service.manager.logger.flush stalled with
  | mk result logger =>
      rw [drained] at flushed
      cases flushed
      simp only [flushLog, drained]
      rfl

/-- The service after a stop that takes effect and answers so. -/
def afterStop (service : CaptureService) (native : NativeAnswer)
    (answer : Except Error StopOutcome) : CaptureService :=
  (({ service with state := .idle }.withManager (service.manager.stop native).2).withLogger
    (service.manager.logger.flush false).2).tell (ofStop answer)

/-- A stop, when the log drains in time. -/
theorem stop_cases (isOpen : service.state = .capturing → service.manager.logger.IsOpen)
    (drains : around.stalled = false) :
    (service.state ≠ .capturing ∧ service.stop around = (.ok .notCapturing, service)) ∨
    (∃ error, service.state = .capturing ∧
      (service.manager.stop around.native).1 = .error error ∧
      service.stop around = (.error error, service.afterStop around.native (.error error))) ∨
    (∃ outcome, service.state = .capturing ∧
      (service.manager.stop around.native).1 = .ok outcome ∧
      service.stop around = (.ok .stopped, service.afterStop around.native (.ok .stopped))) := by
  by_cases capturing : service.state = .capturing
  · have flushed := Logger.flush_of_isOpen (isOpen capturing)
    have same := ProbeManager.stop_logger around.native service.manager
    unfold afterStop
    rw [← same] at flushed ⊢
    cases stopped : service.manager.stop around.native with
    | mk result manager =>
        rw [stopped] at flushed
        cases result with
        | error error =>
            refine .inr (.inl ⟨error, capturing, rfl, ?_⟩)
            simp only [stop, capturing, stopped, drains]
            refine congrArg (Prod.mk _) ((flushLog_of_flushed ?_).trans rfl)
            exact flushed
        | ok outcome =>
            refine .inr (.inr ⟨outcome, capturing, rfl, ?_⟩)
            simp only [stop, capturing, stopped, drains]
            refine congrArg (Prod.mk _) ((flushLog_of_flushed ?_).trans rfl)
            exact flushed
  · exact .inl ⟨capturing, by simp [stop, capturing]⟩

theorem stop_answer (service : CaptureService) (around : Surroundings) :
    (service.stop around).1 =
      if service.state ≠ .capturing then .ok .notCapturing
      else (service.manager.stop around.native).1.map fun _ => .stopped := by
  unfold stop
  split
  · rfl
  · cases service.manager.stop around.native with
    | mk result manager => cases result <;> rfl

theorem installSession_error_iff (native : NativeAnswer) (methods : List ResolvedMethod)
    (duration : Duration) (service : CaptureService) (error : Error) :
    (service.installSession native methods duration).1 = .error error ↔
      (service.manager.start native methods).1 = .error error := by
  unfold installSession
  cases service.manager.start native methods with
  | mk result manager =>
      match result with
      | .ok (.started _) => exact Iff.rfl
      | .ok .alreadyCapturing => exact Iff.rfl
      | .ok .nothingToCapture => exact Iff.rfl
      | .error _ => exact Iff.rfl

/-- An idle service fails to start in two cases only: a description means no method, or the native side
refuses to install what there is to capture. -/
theorem start_error_iff (inStep : service.InStep) (running : service.running = true)
    (around : Surroundings) (request : CaptureRequest) (error : Error) :
    (service.start around request).1 = .error error ↔
      service.state = .idle ∧
      (Description.resolveAll around.catalog request.methods = .error error ∨
      ∃ methods, Description.resolveAll around.catalog request.methods = .ok methods ∧
        ProbeManager.select service.manager.config methods ≠ [] ∧
        around.native (.install (ProbeManager.startBatch service.manager.config methods)) =
          some error) := by
  obtain ⟨ended, _⟩ | ⟨_, busy, answer⟩ | ⟨reason, _, idle, unresolved, answer⟩ |
    ⟨methods, _, idle, resolved, answer⟩ := start_cases service around request
  · rw [running] at ended
    contradiction
  · simp [answer, busy]
  · simp [answer, idle, unresolved]
  · have atRest : service.manager.capturing = false := by
      obtain ⟨_, rest⟩ | ⟨capturing, _⟩ := inStep
      · exact rest.idle
      · rw [idle] at capturing
        contradiction
    have same : ({ service with state := .resolving } : CaptureService).manager =
      service.manager := rfl
    rw [answer, installSession_error_iff, same, ProbeManager.start_error_iff]
    simp [idle, resolved, atRest]

/-- A stop fails just if the native side does not obey. -/
theorem stop_error_iff (inStep : service.InStep) (around : Surroundings) (error : Error) :
    (service.stop around).1 = .error error ↔
      service.state = .capturing ∧ around.native .uninstall = some error := by
  rw [stop_answer]
  obtain ⟨idle, _⟩ | ⟨capturing, active⟩ := inStep
  · simp [idle]
  · obtain ⟨rest, _⟩ | ⟨reason, _, refusal, answer⟩ | ⟨_, obeyed, answer⟩ :=
      ProbeManager.stop_cases around.native service.manager
    · rw [active.capturing] at rest
      contradiction
    · simp [capturing, answer, refusal, Except.map]
    · simp [capturing, answer, obeyed, Except.map]

end CaptureService

end CallCapture
