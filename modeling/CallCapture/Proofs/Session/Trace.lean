import CallCapture.Proofs.Event.Listening
import CallCapture.Proofs.Session.Agreement
import CallCapture.Proofs.Session.Transitions

/-!
What subscribers see of a service: each operation tells what its answer says, in a fixed order. Thus
starts and stops of sessions take turns.
-/

namespace CallCapture

/-- Whether the event begins or ends a session. -/
def ControlEvent.isTurn (event : ControlEvent) : Bool :=
  event = .capturingStarted || event = .capturingStopped

/-- The turns of sessions one after another: first a start, and then the other one each time. -/
def ControlEvent.turn (index : Nat) : ControlEvent :=
  if index % 2 = 0 then .capturingStarted else .capturingStopped

namespace CaptureService

open ControlEvent (ofStart ofStop isTurn turn)

variable {service : CaptureService} {around : Surroundings}

/-- A service that runs no more refuses to start, and tells nobody. -/
def startTells (service : CaptureService) (around : Surroundings) (request : CaptureRequest) :
    List ControlEvent :=
  if service.running then ofStart (service.start around request).1 else []

/-- What an operation tells, by the answer of the start or the stop that it makes. -/
def tells (service : CaptureService) (around : Surroundings) :
    SessionOperation → List ControlEvent
  | .start request => service.startTells around request
  | .startJson json =>
      match CaptureRequest.parse service.config json with
      | .error _ => []
      | .ok request => service.startTells around request
  | .handle (.start payload) =>
      match CaptureRequest.ofPayload service.config payload with
      | .error _ => []
      | .ok request => service.startTells around request
  | .handle .stop => ofStop (service.stop around).1
  | .stop => ofStop (service.stop around).1
  | .expire => if service.deadline.isSome then ofStop (service.stop around).1 else []
  | .shutdown => if service.running then ofStop (service.stop around).1 else []
  | .call _ _ _ => []

def trace (service : CaptureService) :
    List (Surroundings × SessionOperation) → List ControlEvent
  | [] => []
  | operation :: rest =>
      service.tells operation.1 operation.2
        ++ (service.perform operation.1 operation.2).trace rest

/-! ### What one operation tells -/

/-- A service that runs, or that captures, has a log that takes messages. -/
def Attended (service : CaptureService) : Prop :=
  service.running = true ∨ service.state = .capturing → service.manager.logger.IsOpen

/-- From one state of a service to another while this is told: each turn is told, and only that. -/
structure Tells (before after : CaptureService) (told : List ControlEvent) : Prop where
  events : after.point.events = before.point.events.publishAll told
  attended : before.Attended → after.Attended
  turns :
    told.filter isTurn = [] ∧ (after.state = .capturing ↔ before.state = .capturing) ∨
    told.filter isTurn = [.capturingStarted] ∧
      before.state ≠ .capturing ∧ after.state = .capturing ∨
    told.filter isTurn = [.capturingStopped] ∧
      before.state = .capturing ∧ after.state ≠ .capturing

theorem Tells.nothing (service : CaptureService) : Tells service service [] :=
  ⟨rfl, id, .inl ⟨rfl, Iff.rfl⟩⟩

theorem install_tells (idle : service.state = .idle) (running : service.running = true)
    (native : NativeAnswer) (methods : List ResolvedMethod) (duration : Duration) :
    Tells service
      ({ service with state := .resolving }.installSession native methods duration).2
      (ofStart
        ({ service with state := .resolving }.installSession native methods duration).1) := by
  have logger := ProbeManager.start_logger native methods service.manager
  have isOpen : service.Attended →
      (service.manager.start native methods).2.logger.IsOpen := by
    intro attended
    rw [logger]
    exact attended (.inl running)
  obtain ⟨count, _, answer⟩ | ⟨outcome, silent, answer⟩ | ⟨error, _, answer⟩ :=
    installSession_cases native methods duration { service with state := .resolving }
  · rw [answer]
    refine ⟨rfl, fun attended _ => isOpen attended, .inr (.inl ⟨rfl, ?_, rfl⟩)⟩
    simp [idle]
  · rw [answer, silent]
    refine ⟨rfl, fun attended _ => isOpen attended, .inl ⟨rfl, ?_⟩⟩
    rw [idle]
    exact Iff.rfl
  · rw [answer]
    refine ⟨rfl, fun attended _ => isOpen attended, .inl ⟨rfl, ?_⟩⟩
    rw [idle]
    exact Iff.rfl

theorem start_tells (service : CaptureService) (around : Surroundings)
    (request : CaptureRequest) :
    Tells service (service.start around request).2 (service.startTells around request) := by
  unfold startTells
  obtain ⟨running, answer⟩ | ⟨running, _, answer⟩ | ⟨error, running, idle, _, answer⟩ |
    ⟨methods, running, idle, _, answer⟩ := start_cases service around request
  · rw [running, answer]
    exact .nothing service
  · rw [running, answer]
    exact .nothing service
  · rw [running, answer]
    refine ⟨rfl, fun attended _ => attended (.inl running), .inl ⟨rfl, ?_⟩⟩
    rw [idle]
    exact Iff.rfl
  · rw [running, answer]
    exact install_tells idle running around.native methods request.duration

theorem stop_tells (attended : service.Attended) (drains : around.stalled = false) :
    Tells service (service.stop around).2 (ofStop (service.stop around).1) := by
  have isOpen (capturing : service.state = .capturing) : service.manager.logger.IsOpen :=
    attended (.inr capturing)
  obtain ⟨_, answer⟩ | ⟨error, capturing, _, answer⟩ | ⟨outcome, capturing, _, answer⟩ :=
    stop_cases isOpen drains
  · rw [answer]
    exact .nothing service
  · rw [answer]
    exact ⟨rfl, fun _ _ => (isOpen capturing).flush false,
      .inr (.inr ⟨rfl, capturing, SessionState.noConfusion⟩)⟩
  · rw [answer]
    exact ⟨rfl, fun _ _ => (isOpen capturing).flush false,
      .inr (.inr ⟨rfl, capturing, SessionState.noConfusion⟩)⟩

theorem startJson_tells (service : CaptureService) (around : Surroundings) (json : String) :
    Tells service (service.startJson around json).2
      (service.tells around (.startJson json)) := by
  cases parsed : CaptureRequest.parse service.config json with
  | error error =>
      simp only [startJson, tells, parsed]
      exact .nothing service
  | ok request =>
      simp only [startJson, tells, parsed]
      exact start_tells service around request

theorem handle_tells (attended : service.Attended) (drains : around.stalled = false)
    (command : Command) :
    Tells service (service.handle around command).2 (service.tells around (.handle command)) := by
  cases command with
  | start payload =>
      cases checked : CaptureRequest.ofPayload service.config payload with
      | error error =>
          simp only [handle, tells, checked]
          exact .nothing service
      | ok request =>
          have told := start_tells service around request
          simp only [handle, tells, checked]
          cases result : service.start around request with
          | mk answer next =>
              rw [result] at told
              cases answer <;> exact told
  | stop =>
      have told := stop_tells attended drains
      simp only [handle, tells]
      cases result : service.stop around with
      | mk answer next =>
          rw [result] at told
          cases answer <;> exact told

theorem stop_rests (attended : service.Attended) (drains : around.stalled = false) :
    (service.stop around).2.state ≠ .capturing ∧
      (service.stop around).2.running = service.running := by
  obtain ⟨idle, answer⟩ | ⟨error, _, _, answer⟩ | ⟨outcome, _, _, answer⟩ :=
    stop_cases (fun capturing => attended (.inr capturing)) drains
  · rw [answer]
    exact ⟨idle, rfl⟩
  · rw [answer]
    exact ⟨SessionState.noConfusion, rfl⟩
  · rw [answer]
    exact ⟨SessionState.noConfusion, rfl⟩

theorem expire_tells (attended : service.Attended) (drains : around.stalled = false) :
    Tells service (service.expire around) (service.tells around .expire) := by
  unfold expire tells
  cases armed : service.deadline with
  | none => exact .nothing service
  | some deadline =>
      let unarmed : CaptureService := { service with deadline := none }
      have unattended : unarmed.Attended := attended
      have told := stop_tells unattended drains
      have answer : (unarmed.stop around).1 = (service.stop around).1 :=
        (stop_answer unarmed around).trans (stop_answer service around).symm
      rw [answer] at told
      exact ⟨told.events, told.attended, told.turns⟩

theorem shutdown_tells (attended : service.Attended) (drains : around.stalled = false) :
    Tells service (service.shutdown around) (service.tells around .shutdown) := by
  unfold shutdown tells
  cases running : service.running with
  | false => exact .nothing service
  | true =>
      -- the log is shut down behind the forced stop, so that its flush still gets through
      let closing : CaptureService := { service with running := false, deadline := none }
      have closed : closing.Attended := fun _ => attended (.inl running)
      have told := stop_tells closed drains
      have answer : (closing.stop around).1 = (service.stop around).1 :=
        (stop_answer closing around).trans (stop_answer service around).symm
      rw [answer] at told
      obtain ⟨idle, stays⟩ := stop_rests closed drains
      refine ⟨told.events, fun _ busy => ?_, told.turns⟩
      obtain running | capturing := busy
      · exact absurd (stays.symm.trans running) Bool.false_ne_true
      · exact absurd capturing idle

theorem onEnter_logger (manager : ProbeManager) (thread : Option String) (moment : Moment)
    (call : ProbeCall) :
    (manager.onEnter thread moment call).logger = manager.logger ∨
    ∃ name entry, (manager.onEnter thread moment call).logger =
      (manager.logger.enqueue name moment.elapsed entry).2 := by
  unfold ProbeManager.onEnter
  split
  · exact .inl rfl
  · split
    · exact .inl rfl
    · dsimp only
      split
      · exact .inl rfl
      · exact .inr ⟨_, _, rfl⟩

theorem call_tells (service : CaptureService) (thread : Option String) (moment : Moment)
    (call : ProbeCall) : Tells service (service.invoke thread moment call) [] := by
  have same : (service.invoke thread moment call).point.events = service.point.events ∧
      ((service.invoke thread moment call).manager.logger = service.manager.logger ∨
        ∃ name entry, (service.invoke thread moment call).manager.logger =
          (service.manager.logger.enqueue name moment.elapsed entry).2) := by
    simp only [invoke, EntryPoint.invokeWithin]
    split
    · exact ⟨rfl, .inl rfl⟩
    · split
      · exact ⟨rfl, .inl rfl⟩
      · exact ⟨rfl, onEnter_logger service.manager thread moment call⟩
  refine ⟨same.1, fun attended busy => ?_, .inl ⟨rfl, Iff.rfl⟩⟩
  have isOpen : service.manager.logger.IsOpen := attended busy
  obtain unchanged | ⟨name, entry, offered⟩ := same.2
  · rw [unchanged]
    exact isOpen
  · rw [offered]
    exact isOpen.enqueue name moment.elapsed entry

theorem perform_tells (attended : service.Attended) (drains : around.stalled = false)
    (operation : SessionOperation) :
    Tells service (service.perform around operation) (service.tells around operation) := by
  cases operation with
  | start request => exact start_tells service around request
  | startJson json => exact startJson_tells service around json
  | handle command => exact handle_tells attended drains command
  | stop => exact stop_tells attended drains
  | expire => exact expire_tells attended drains
  | shutdown => exact shutdown_tells attended drains
  | call thread moment call => exact call_tells service thread moment call

/-! ### What a run tells -/

theorem run_events {operations : List (Surroundings × SessionOperation)}
    (attended : service.Attended)
    (drains : ∀ operation ∈ operations, operation.1.stalled = false) :
    (service.run operations).point.events =
      service.point.events.publishAll (service.trace operations) := by
  induction operations generalizing service with
  | nil => rfl
  | cons operation rest ih =>
      have told := perform_tells attended (drains operation List.mem_cons_self) operation.2
      have later := ih (told.attended attended)
        (fun next member => drains next (List.mem_cons_of_mem _ member))
      calc ((service.perform operation.1 operation.2).run rest).point.events
        _ = (service.perform operation.1 operation.2).point.events.publishAll
              ((service.perform operation.1 operation.2).trace rest) := later
        _ = (service.point.events.publishAll (service.tells operation.1 operation.2)).publishAll
              ((service.perform operation.1 operation.2).trace rest) := by rw [told.events]
        _ = service.point.events.publishAll (service.trace (operation :: rest)) :=
          List.foldl_append.symm

theorem Tells.turns_from {before after : CaptureService} {told : List ControlEvent}
    (tells : Tells before after told) {next : Nat}
    (state : before.state = .capturing ↔ next % 2 = 1) :
    ∃ count, told.filter isTurn = (List.range' next count).map turn ∧
      (after.state = .capturing ↔ (next + count) % 2 = 1) := by
  obtain ⟨silent, same⟩ | ⟨started, idle, capturing⟩ | ⟨stopped, capturing, idle⟩ := tells.turns
  · exact ⟨0, silent, same.trans state⟩
  · have even : next % 2 = 0 := by
      have := mt state.mpr idle
      omega
    refine ⟨1, by simp [started, turn, even], ?_⟩
    simp only [capturing, true_iff]
    omega
  · have odd : next % 2 = 1 := state.mp capturing
    refine ⟨1, by simp [stopped, turn, odd], ?_⟩
    simp only [idle, false_iff]
    omega

/-- From the turn on that comes next, turns are told in their order. -/
theorem run_turns {operations : List (Surroundings × SessionOperation)} {next : Nat}
    (attended : service.Attended)
    (drains : ∀ operation ∈ operations, operation.1.stalled = false)
    (state : service.state = .capturing ↔ next % 2 = 1) :
    ∃ count, (service.trace operations).filter isTurn = (List.range' next count).map turn ∧
      ((service.run operations).state = .capturing ↔ (next + count) % 2 = 1) := by
  induction operations generalizing service next with
  | nil => exact ⟨0, rfl, state⟩
  | cons operation rest ih =>
      have told := perform_tells attended (drains operation List.mem_cons_self) operation.2
      obtain ⟨first, firstTurns, between⟩ := told.turns_from state
      obtain ⟨later, laterTurns, after⟩ := ih (told.attended attended)
        (fun next member => drains next (List.mem_cons_of_mem _ member)) between
      refine ⟨first + later, ?_, Nat.add_assoc next first later ▸ after⟩
      rw [trace, List.filter_append, firstTurns, laterTurns, ← List.map_append,
        List.range'_append_1]

/--
While the log drains in time and outlives its sink's failures, one who listens to everything hears what
the operations tell, in their order, and nothing else. Starts and stops of sessions take turns, a start
first. What a failure is told for is a request that means no method, or a call that the native side
refuses.
-/
theorem run_told {answer : NativeAnswer} {config : Config} {sink : Sink} (lasting : sink.Lasting)
    (created : create answer config sink = .ok service) {stream : EventStream} {id : Nat}
    (listens : stream.Hears id []) (operations : List (Surroundings × SessionOperation))
    (drains : ∀ operation ∈ operations, operation.1.stalled = false) :
    let first := service.withEvents stream
    let after := first.run operations
    after.point.events.pending id = first.trace operations ∧
    (∃ count, (first.trace operations).filter isTurn = (List.range count).map turn ∧
      (after.state = .capturing ↔ count % 2 = 1)) ∧
    (∀ around request error, after.running = true →
      ((after.start around request).1 = .error error ↔
        after.state = .idle ∧
        (Description.resolveAll around.catalog request.methods = .error error ∨
        ∃ methods, Description.resolveAll around.catalog request.methods = .ok methods ∧
          ProbeManager.select after.manager.config methods ≠ [] ∧
          around.native (.install (ProbeManager.startBatch after.manager.config methods)) =
            some error))) ∧
    (∀ around error, (after.stop around).1 = .error error ↔
      after.state = .capturing ∧ around.native .uninstall = some error) := by
  intro first after
  obtain ⟨logger, started, idle, manager⟩ := create_ok created
  have isOpen : service.manager.logger.IsOpen := manager ▸ Logger.start_isOpen lasting started
  have attended : first.Attended := fun _ => isOpen
  have inStep : first.InStep := (create_inStep created : service.InStep)
  have settled : after.InStep := run_inStep inStep operations
  have noTurn : first.state = .capturing ↔ 0 % 2 = 1 := by simp [first, withEvents, idle]
  refine ⟨?_, ?_, fun around request error running =>
    start_error_iff settled running around request error, stop_error_iff settled⟩
  · have events : after.point.events = stream.publishAll (first.trace operations) :=
      run_events attended drains
    rw [events]
    simpa using (listens.publishAll (first.trace operations)).pending
  · obtain ⟨count, turns, state⟩ := run_turns attended drains noTurn
    refine ⟨count, ?_, ?_⟩
    · rw [turns, List.range_eq_range']
    · rwa [Nat.zero_add] at state

/-- A request that means no method yet, a refused start, one that is obeyed, a refused stop, and a
session that shutdown ends. Every write to the sink fails. -/
theorem run_told_refusals :
    let catalog : Catalog := [⟨1, "App.dll", false, false, [], [],
      [⟨⟨0x06000001⟩, "Bar", some (.ofKind "App" "Foo" .classType), true, [], [], []⟩]⟩]
    let wanted : Description := .anyOverload "app.DLL" "App.Foo" "Bar"
    let request : CaptureRequest := ⟨[wanted], .ofSeconds 1⟩
    let sink : Sink := ⟨fun _ _ => some .unnamed⟩
    let unloaded : Surroundings := ⟨fun _ => none, false, []⟩
    let obeyed : Surroundings := ⟨fun _ => none, false, catalog⟩
    let refused : Surroundings := ⟨fun call => some (.native call.name), false, catalog⟩
    let operations : List (Surroundings × SessionOperation) :=
      [(unloaded, .start request), (refused, .start request), (obeyed, .start request),
        (obeyed, .start request), (refused, .stop), (obeyed, .stop), (obeyed, .start request),
        (obeyed, .expire), (obeyed, .start request), (obeyed, .shutdown), (obeyed, .start request)]
    ∃ service error, create (fun _ => none) .initial sink = .ok service ∧
      Description.resolveAll [] [wanted] = .error error ∧
      let (id, stream) := EventStream.empty.subscribe none
      ((service.withEvents stream).run operations).point.events.pending id =
        [.ofError error, .ofError (.native "install"), .capturingStarted,
          .ofError (.native "uninstall"), .capturingStopped, .flush, .capturingStarted,
          .capturingStopped, .flush, .capturingStarted, .capturingStopped, .flush] := by
  intro catalog wanted request sink unloaded obeyed refused operations
  have created : ∃ service, create (fun _ => none) .initial sink = .ok service := ⟨_, rfl⟩
  obtain ⟨service, created⟩ := created
  have lasting : sink.Lasting := fun _ _ => rfl
  have listens : (EventStream.empty.subscribe none).2.Hears 0 [] := rfl
  have drains : ∀ operation ∈ operations, operation.1.stalled = false := by
    simp [operations, unloaded, obeyed, refused]
  refine ⟨service, _, created, rfl, ?_⟩
  refine (run_told lasting created listens operations drains).1.trans ?_
  cases created
  decide +kernel

end CaptureService

end CallCapture
