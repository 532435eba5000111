import CallCapture.Proofs.Probe.Capturing
import CallCapture.Session.Service

/-!
A service between operations is idle over a manager at rest, or capturing over an active one. No
sequence of operations gets it out of step, whatever the native side answers.
-/

namespace CallCapture

/-- What may happen to a service. -/
inductive SessionOperation where
  | start (request : CaptureRequest)
  | startJson (json : String)
  | handle (command : Command)
  | stop
  | expire
  | shutdown
  /-- Instrumented code is called on a thread. -/
  | call (thread : Option String) (moment : Moment) (call : ProbeCall)

namespace CaptureService

variable {service : CaptureService} {around : Surroundings}

def perform (service : CaptureService) (around : Surroundings) :
    SessionOperation → CaptureService
  | .start request => (service.start around request).2
  | .startJson json => (service.startJson around json).2
  | .handle command => (service.handle around command).2
  | .stop => (service.stop around).2
  | .expire => service.expire around
  | .shutdown => service.shutdown around
  | .call thread moment call => service.invoke thread moment call

/-- Performs operations one after another; each has surroundings of its own. -/
def run (service : CaptureService) (operations : List (Surroundings × SessionOperation)) :
    CaptureService :=
  operations.foldl (fun service operation => service.perform operation.1 operation.2) service

theorem run_concat (operations : List (Surroundings × SessionOperation))
    (next : Surroundings × SessionOperation) :
    service.run (operations ++ [next]) = (service.run operations).perform next.1 next.2 := by
  simp [run]

/-- The state of the session is that of its manager. -/
def InStep (service : CaptureService) : Prop :=
  service.state = .idle ∧ service.manager.AtRest ∨
    service.state = .capturing ∧ service.manager.Active

theorem create_ok {answer : NativeAnswer} {config : Config} {sink : Sink}
    (created : create answer config sink = .ok service) :
    ∃ logger, Logger.start config sink = .ok logger ∧ service.state = .idle ∧
      service.manager = ((ProbeManager.create config logger).ask answer .register).2 := by
  cases started : Logger.start config sink with
  | error error => simp [create, started, bind, Except.bind] at created
  | ok logger =>
      simp only [create, started, bind, Except.bind, ProbeManager.ask] at created
      cases refusal : answer .register with
      | some error => simp [refusal] at created
      | none =>
          rw [refusal] at created
          cases created
          exact ⟨logger, rfl, rfl, by simp [manager, EntryPoint.register, EntryPoint.create,
            ProbeManager.ask, refusal]⟩

theorem create_inStep {answer : NativeAnswer} {config : Config} {sink : Sink}
    (created : create answer config sink = .ok service) : service.InStep := by
  obtain ⟨logger, _, idle, manager⟩ := create_ok created
  have rest := ProbeManager.register_atRest (ProbeManager.create_atRest config logger) answer
  exact .inl ⟨idle, manager ▸ rest⟩

/-- Nothing but the logger changes in the manager. -/
theorem withLogger_inStep (inStep : service.InStep) (logger : Logger) :
    (service.withLogger logger).InStep := by
  obtain ⟨idle, rest⟩ | ⟨capturing, active⟩ := inStep
  · exact .inl ⟨idle, rest.idle, rest.cached, rest.balanced⟩
  · exact .inr ⟨capturing, active.capturing, active.cached, active.balanced⟩

theorem publish_inStep (inStep : service.InStep) (event : ControlEvent) :
    (service.publish event).InStep := inStep

theorem flushLog_inStep (inStep : service.InStep) (stalled : Bool) :
    (service.flushLog stalled).InStep := by
  cases drained : service.manager.logger.flush stalled with
  | mk result logger =>
      have flushed := withLogger_inStep inStep logger
      cases result with
      | ok done => simpa only [flushLog, drained] using publish_inStep flushed .flush
      | error error => simpa only [flushLog, drained] using flushed

theorem installSession_inStep (rest : service.manager.AtRest) (native : NativeAnswer)
    (methods : List ResolvedMethod) (duration : Duration) :
    (service.installSession native methods duration).2.InStep := by
  have outcome := ProbeManager.start_of_atRest rest native methods
  cases started : service.manager.start native methods with
  | mk result manager =>
      simp only [started] at outcome
      simp only [installSession, started]
      obtain ⟨count, same, active⟩ | ⟨refused, rest⟩ := outcome
      · subst same
        exact .inr ⟨rfl, active⟩
      · match result with
        | .error error => exact .inl ⟨rfl, rest⟩
        | .ok .alreadyCapturing => exact .inl ⟨rfl, rest⟩
        | .ok .nothingToCapture => exact .inl ⟨rfl, rest⟩
        | .ok (.started count) => exact absurd rfl (refused count)

theorem start_inStep (inStep : service.InStep) (around : Surroundings)
    (request : CaptureRequest) :
    (service.start around request).2.InStep := by
  unfold start
  split
  · exact inStep
  · split
    · exact inStep
    · rename_i startable
      have idle : service.state = .idle := by simpa using startable
      have rest : service.manager.AtRest := by
        obtain ⟨_, rest⟩ | ⟨capturing, _⟩ := inStep
        · exact rest
        · rw [idle] at capturing
          contradiction
      split
      · exact .inl ⟨rfl, rest⟩
      · exact installSession_inStep rest _ _ _

theorem stop_inStep (inStep : service.InStep) (around : Surroundings) :
    (service.stop around).2.InStep := by
  unfold stop
  split
  · exact inStep
  · rename_i stoppable
    have capturing : service.state = .capturing := by simpa using stoppable
    have active : service.manager.Active := by
      obtain ⟨idle, _⟩ | ⟨_, active⟩ := inStep
      · rw [capturing] at idle
        contradiction
      · exact active
    have rest := ProbeManager.stop_of_active active around.native
    cases stopped : service.manager.stop around.native with
    | mk result manager =>
        simp only [stopped] at rest
        have idle : ({ service with state := .idle }.withManager manager).InStep :=
          .inl ⟨rfl, rest⟩
        cases result with
        | error error =>
            have failed := publish_inStep idle (.ofError error)
            exact flushLog_inStep (publish_inStep failed .capturingStopped) _
        | ok outcome => exact flushLog_inStep (publish_inStep idle .capturingStopped) _

theorem startJson_inStep (inStep : service.InStep) (json : String) :
    (service.startJson around json).2.InStep := by
  unfold startJson
  split
  · exact inStep
  · exact start_inStep inStep _ _

theorem handle_inStep (inStep : service.InStep) (command : Command) :
    (service.handle around command).2.InStep := by
  cases command with
  | start payload =>
      cases checked : CaptureRequest.ofPayload service.config payload with
      | error error => simpa only [handle, checked] using inStep
      | ok request =>
          have after := start_inStep inStep around request
          cases result : service.start around request with
          | mk answer next =>
              rw [result] at after
              cases answer <;> simpa only [handle, checked, result] using after
  | stop =>
      have after := stop_inStep inStep around
      cases result : service.stop around with
      | mk answer next =>
          rw [result] at after
          cases answer <;> simpa only [handle, result] using after

theorem expire_inStep (inStep : service.InStep) : (service.expire around).InStep := by
  unfold expire
  split
  · exact inStep
  · have unarmed : ({ service with deadline := none } : CaptureService).InStep := inStep
    exact stop_inStep unarmed around

theorem unregister_inStep (inStep : service.InStep) :
    ({ service with point := service.point.unregister.2 } : CaptureService).InStep := inStep

theorem shutdown_inStep (inStep : service.InStep) : (service.shutdown around).InStep := by
  unfold shutdown
  split
  · exact inStep
  · have closing : ({ service with running := false, deadline := none } : CaptureService).InStep :=
      inStep
    have stopped := stop_inStep closing around
    exact withLogger_inStep (unregister_inStep stopped) _

theorem onEnter_changes_logger (manager : ProbeManager) (thread : Option String) (moment : Moment)
    (call : ProbeCall) :
    ∃ logger, manager.onEnter thread moment call = { manager with logger := logger } := by
  unfold ProbeManager.onEnter
  split
  · exact ⟨manager.logger, rfl⟩
  · split
    · exact ⟨manager.logger, rfl⟩
    · dsimp only
      split
      · exact ⟨manager.logger, rfl⟩
      · exact ⟨_, rfl⟩

/-- A call is logged at most; neither the session nor the probes change. -/
theorem invoke_inStep (inStep : service.InStep) (thread : Option String) (moment : Moment)
    (call : ProbeCall) : (service.invoke thread moment call).InStep := by
  have same : (service.invoke thread moment call).state = service.state := rfl
  have manager : ∃ logger,
      (service.invoke thread moment call).manager = (service.withLogger logger).manager := by
    simp only [invoke, EntryPoint.invokeWithin]
    split
    · exact ⟨service.manager.logger, rfl⟩
    · split
      · exact ⟨service.manager.logger, rfl⟩
      · exact onEnter_changes_logger service.manager thread moment call
  obtain ⟨logger, manager⟩ := manager
  have after := withLogger_inStep inStep logger
  unfold InStep at after ⊢
  rw [same, manager]
  exact after

theorem perform_inStep (inStep : service.InStep) (operation : SessionOperation) :
    (service.perform around operation).InStep := by
  cases operation with
  | start request => exact start_inStep inStep around request
  | startJson json => exact startJson_inStep inStep json
  | handle command => exact handle_inStep inStep command
  | stop => exact stop_inStep inStep around
  | expire => exact expire_inStep inStep
  | shutdown => exact shutdown_inStep inStep
  | call thread moment call => exact invoke_inStep inStep thread moment call

theorem run_inStep (inStep : service.InStep)
    (operations : List (Surroundings × SessionOperation)) : (service.run operations).InStep := by
  induction operations generalizing service with
  | nil => exact inStep
  | cons operation rest ih => exact ih (perform_inStep inStep operation.2)

/-- Between operations a session is idle or capturing. It captures exactly while its manager does,
exactly while methods are cached, and exactly while one more install was obeyed than uninstalls
were asked for. -/
theorem run_settles {answer : NativeAnswer} {config : Config} {sink : Sink}
    (created : create answer config sink = .ok service)
    (operations : List (Surroundings × SessionOperation)) :
    let after := service.run operations
    (after.state = .idle ∨ after.state = .capturing) ∧
      (after.state = .capturing ↔ after.manager.capturing = true) ∧
      (after.manager.capturing = true ↔ after.manager.cache.size ≠ 0) ∧
      after.manager.balance = if after.state = .capturing then 1 else 0 := by
  intro after
  obtain ⟨state, rest⟩ | ⟨state, active⟩ := run_inStep (create_inStep created) operations
  · have idle : after.state = .idle := state
    refine ⟨.inl idle, ?_, ?_, ?_⟩
    · simp [idle, after, rest.idle]
    · simp [after, rest.idle, rest.cached]
    · simp [idle, after, rest.balanced]
  · have capturing : after.state = .capturing := state
    refine ⟨.inr capturing, ?_, ?_, ?_⟩
    · simp [capturing, after, active.capturing]
    · simp [after, active.capturing, Nat.ne_of_gt active.cached]
    · simp [capturing, after, active.balanced]

/-- A module that is not loaded yet, a refused install, a session whose removal is refused, and one
that shutdown ends. -/
theorem run_settles_over_refusals :
    let catalog : Catalog := [⟨1, "App.dll", false, false, [], [],
      [⟨⟨0x06000001⟩, "Bar", some (.ofKind "App" "Foo" .classType), true, [], [], []⟩]⟩]
    let request : CaptureRequest := ⟨[.anyOverload "app.DLL" "App.Foo" "Bar"], .ofSeconds 1⟩
    let unloaded : Surroundings := ⟨fun _ => none, false, []⟩
    let obeyed : Surroundings := ⟨fun _ => none, false, catalog⟩
    let refused : Surroundings := ⟨fun call => some (.native call.name), true, catalog⟩
    let first := [(unloaded, .start request), (refused, .start request), (obeyed, .start request),
      (obeyed, .start request), (refused, .stop), (obeyed, .start request)]
    ∃ service, create (fun _ => none) .initial .steady = .ok service ∧
      let active := service.run first
      let ended := service.run (first ++ [(refused, .shutdown), (obeyed, .start request)])
      (active.state = .capturing ∧ active.manager.capturing = true ∧
        active.manager.cache.size ≠ 0 ∧ active.manager.balance = 1) ∧
      ended.state = .idle ∧ ended.manager.capturing = false ∧
        ended.manager.cache.size = 0 ∧ ended.manager.balance = 0 := by
  intro catalog request unloaded obeyed refused first
  have created : ∃ service, create (fun _ => none) .initial .steady = .ok service := ⟨_, rfl⟩
  obtain ⟨service, created⟩ := created
  refine ⟨service, created, ?_⟩
  intro active ended
  have capturing : active.state = .capturing := by
    cases created
    decide +kernel
  have idle : ended.state = .idle := by
    cases created
    decide +kernel
  obtain ⟨_, probes, cached, balance⟩ := run_settles created first
  obtain ⟨_, noProbes, notCached, noBalance⟩ :=
    run_settles created (first ++ [(refused, .shutdown), (obeyed, .start request)])
  refine ⟨⟨capturing, probes.mp capturing, cached.mp (probes.mp capturing), ?_⟩, idle, ?_, ?_, ?_⟩
  · exact balance.trans (if_pos capturing)
  · exact Bool.eq_false_iff.mpr fun busy =>
      SessionState.noConfusion (idle.symm.trans (noProbes.mpr busy))
  · refine Classical.byContradiction fun some => ?_
    exact SessionState.noConfusion (idle.symm.trans (noProbes.mpr (notCached.mpr some)))
  · refine noBalance.trans (if_neg fun busy => ?_)
    exact SessionState.noConfusion (idle.symm.trans busy)

end CaptureService

end CallCapture
