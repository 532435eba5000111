import CallCapture.Proofs.Session.Transitions
import Mathlib.Data.List.Induction

/-!
The deadline of a service is that of the session which armed it. While a session captures, its own
deadline stands; no refused start touches it, and once the session is stopped it does nothing.
-/

namespace CallCapture

namespace CaptureService

variable {service : CaptureService} {around : Surroundings} {operation : SessionOperation}
variable {operations : List (Surroundings × SessionOperation)}

/-- The request of an operation that means to start a session, if it can be read. -/
def request? (service : CaptureService) : SessionOperation → Option (Except Error CaptureRequest)
  | .start request => some (.ok request)
  | .startJson json => some (CaptureRequest.parse service.config json)
  | .handle (.start payload) => some (CaptureRequest.ofPayload service.config payload)
  | _ => none

/-- What such an operation comes to. -/
def startAnswer (service : CaptureService) (around : Surroundings)
    (asked : Except Error CaptureRequest) : Except Error StartOutcome :=
  asked.bind fun request => (service.start around request).1

theorem perform_of_request {asked : Except Error CaptureRequest} :
    service.request? operation = some asked →
    service.perform around operation =
      match asked with
      | .error _ => service
      | .ok request => (service.start around request).2 := by
  intro requested
  cases operation with
  | start request =>
      cases requested
      rfl
  | startJson json =>
      cases requested
      cases read : CaptureRequest.parse service.config json <;> simp [perform, startJson, read]
  | handle command =>
      cases command with
      | start payload =>
          cases requested
          cases read : CaptureRequest.ofPayload service.config payload with
          | error error => simp [perform, handle, read]
          | ok request =>
              cases answered : service.start around request with
              | mk answer next => cases answer <;> simp [perform, handle, read, answered]
      | stop => simp [request?] at requested
  | stop | expire | shutdown | call => simp [request?] at requested

/-! ### What one operation does to the deadline -/

/-- Either a session begins and arms its deadline, or neither state nor deadline changes. -/
theorem start_deadline (service : CaptureService) (around : Surroundings)
    (request : CaptureRequest) :
    let result := service.start around request
    (∃ count, result.1 = .ok (.started count) ∧ result.2.state = .capturing ∧
      result.2.deadline = some ⟨service.sessions + 1, request.duration⟩) ∨
    (∀ count, result.1 ≠ .ok (.started count)) ∧ result.2.state = service.state ∧
      result.2.deadline = service.deadline := by
  intro result
  obtain ⟨_, answer⟩ | ⟨_, _, answer⟩ | ⟨error, _, idle, _, answer⟩ |
    ⟨methods, _, idle, _, answer⟩ := start_cases service around request
  · simp [result, answer]
  · simp [result, answer]
  · simp only [result, answer, idle]
    exact .inr ⟨nofun, rfl, rfl⟩
  · obtain ⟨count, _, installed⟩ | ⟨outcome, silent, installed⟩ | ⟨error, _, installed⟩ :=
      installSession_cases around.native methods request.duration
        { service with state := .resolving }
    · simp only [result, answer, installed]
      exact .inl ⟨count, rfl, rfl, rfl⟩
    · simp only [result, answer, installed, idle]
      refine .inr ⟨?_, rfl, rfl⟩
      intro count started
      cases started
      contradiction
    · simp only [result, answer, installed, idle]
      exact .inr ⟨nofun, rfl, rfl⟩

theorem perform_asked {asked : Except Error CaptureRequest}
    (requested : service.request? operation = some asked) (around : Surroundings) :
    let next := service.perform around operation
    (∃ request count, asked = .ok request ∧
      service.startAnswer around asked = .ok (.started count) ∧ next.state = .capturing ∧
      next.deadline = some ⟨service.sessions + 1, request.duration⟩) ∨
    (∀ count, service.startAnswer around asked ≠ .ok (.started count)) ∧
      next.state = service.state ∧ next.deadline = service.deadline := by
  intro next
  have performed : next = _ := perform_of_request requested
  cases asked with
  | error error =>
      rw [performed]
      exact .inr ⟨nofun, rfl, rfl⟩
  | ok request =>
      rw [performed]
      obtain ⟨count, started⟩ | refused := start_deadline service around request
      · exact .inl ⟨request, count, rfl, started⟩
      · exact .inr refused

theorem flushLog_frame (service : CaptureService) (stalled : Bool) :
    (service.flushLog stalled).state = service.state ∧
      (service.flushLog stalled).deadline = service.deadline := by
  cases drained : service.manager.logger.flush stalled with
  | mk result logger => cases result <;> simp [flushLog, drained] <;> exact ⟨rfl, rfl⟩

theorem stop_deadline (service : CaptureService) (around : Surroundings) :
    (service.stop around).2.state ≠ .capturing ∧
      (service.stop around).2.deadline = service.deadline := by
  unfold stop
  split
  · exact ⟨‹_›, rfl⟩
  · cases service.manager.stop around.native with
    | mk result manager =>
        cases result with
        | error | ok =>
            dsimp only
            rw [(flushLog_frame _ _).1, (flushLog_frame _ _).2]
            exact ⟨SessionState.noConfusion, rfl⟩

/-- A service captures after any other operation only if it did before, with the same deadline. -/
theorem perform_keeps_deadline (other : service.request? operation = none)
    (capturing : (service.perform around operation).state = .capturing) :
    service.state = .capturing ∧
      (service.perform around operation).deadline = service.deadline := by
  cases operation with
  | start request => simp [request?] at other
  | startJson json => simp [request?] at other
  | handle command =>
      cases command with
      | start payload => simp [request?] at other
      | stop =>
          have stopped : (service.perform around (.handle .stop)) = (service.stop around).2 := by
            cases answered : service.stop around with
            | mk answer next => cases answer <;> simp [perform, handle, answered]
          rw [stopped] at capturing
          exact absurd capturing (stop_deadline service around).1
  | stop => exact absurd capturing (stop_deadline service around).1
  | expire =>
      cases armed : service.deadline with
      | none =>
          simp only [perform, expire, armed] at capturing ⊢
          exact ⟨capturing, trivial⟩
      | some deadline =>
          simp only [perform, expire, armed] at capturing
          exact absurd capturing (stop_deadline _ around).1
  | shutdown =>
      simp only [perform, shutdown] at capturing ⊢
      split at capturing
      · rw [if_pos ‹_›]
        exact ⟨capturing, rfl⟩
      · exact absurd capturing (stop_deadline _ around).1
  | call thread moment call => exact ⟨capturing, rfl⟩

/-! ### Which session a deadline belongs to -/

/-- An operation of a run that started a session, with the request which it obeyed. -/
structure Opening (service : CaptureService)
    (operations : List (Surroundings × SessionOperation)) where
  before : List (Surroundings × SessionOperation)
  around : Surroundings
  operation : SessionOperation
  after : List (Surroundings × SessionOperation)
  request : CaptureRequest
  split : operations = before ++ (around, operation) :: after
  requested : (service.run before).request? operation = some (.ok request)
  started : ∃ count, (service.run before).startAnswer around (.ok request) = .ok (.started count)

namespace Opening

/-- What the start of the session arms: the next session, for as long as its request says. -/
def deadline (opening : Opening service operations) : Deadline :=
  ⟨(service.run opening.before).sessions + 1, opening.request.duration⟩

/-- The service captures ever since, and the deadline stands as it was armed. -/
def Lasts (opening : Opening service operations) : Prop :=
  ∀ done, done <+: opening.after →
    let now := service.run (opening.before ++ (opening.around, opening.operation) :: done)
    now.state = .capturing ∧ now.deadline = some opening.deadline

def extend (opening : Opening service operations) (next : Surroundings × SessionOperation) :
    Opening service (operations ++ [next]) where
  before := opening.before
  around := opening.around
  operation := opening.operation
  after := opening.after ++ [next]
  request := opening.request
  split := by simp [opening.split]
  requested := opening.requested
  started := opening.started

theorem Lasts.now {opening : Opening service operations} (lasts : opening.Lasts) :
    (service.run operations).state = .capturing ∧
      (service.run operations).deadline = some opening.deadline := by
  have whole := lasts opening.after List.prefix_rfl
  rw [← opening.split] at whole
  exact whole

theorem Lasts.extend {opening : Opening service operations} (lasts : opening.Lasts)
    {next : Surroundings × SessionOperation}
    (capturing : (service.run (operations ++ [next])).state = .capturing)
    (kept : (service.run (operations ++ [next])).deadline = (service.run operations).deadline) :
    (opening.extend next).Lasts := by
  intro done within
  obtain whole | within := List.prefix_concat_iff.mp within
  · have split : operations ++ [next] = opening.before ++
        (opening.around, opening.operation) :: (opening.after ++ [next]) :=
      (opening.extend next).split
    rw [whole]
    simp only [Opening.extend]
    rw [← split]
    exact ⟨capturing, kept.trans lasts.now.2⟩
  · exact lasts done within

end Opening

/-- A service that captures after an operation has just started a session, or captured before. -/
theorem perform_capturing (capturing : (service.perform around operation).state = .capturing) :
    (∃ request count, service.request? operation = some (.ok request) ∧
      service.startAnswer around (.ok request) = .ok (.started count) ∧
      (service.perform around operation).deadline =
        some ⟨service.sessions + 1, request.duration⟩) ∨
    service.state = .capturing ∧
      (service.perform around operation).deadline = service.deadline := by
  cases requested : service.request? operation with
  | none => exact .inr (perform_keeps_deadline requested capturing)
  | some asked =>
      obtain ⟨request, count, read, started, _, armed⟩ | ⟨_, same, kept⟩ :=
        perform_asked requested around
      · rw [read] at started
        exact .inl ⟨request, count, by rw [read], started, armed⟩
      · exact .inr ⟨same ▸ capturing, kept⟩

/-- The session of a service was started by some operation, and its own deadline stands. -/
theorem run_opening (idle : service.state ≠ .capturing)
    (capturing : (service.run operations).state = .capturing) :
    ∃ opening : Opening service operations, opening.Lasts := by
  induction operations using List.reverseRecOn with
  | nil => exact absurd capturing idle
  | append_singleton operations next ih =>
      have performed := capturing
      rw [run_concat] at performed
      obtain ⟨request, count, requested, started, armed⟩ | ⟨captured, kept⟩ :=
        perform_capturing performed
      · rw [← run_concat] at armed
        refine ⟨⟨operations, next.1, next.2, [], request, rfl, requested, count, started⟩, ?_⟩
        intro done within
        cases List.prefix_nil.mp within
        exact ⟨capturing, armed⟩
      · obtain ⟨opening, lasts⟩ := ih captured
        rw [← run_concat] at kept
        exact ⟨opening.extend next, lasts.extend capturing kept⟩

/-- A deadline that is reached while the service captures stops the session that armed it, for as
long as its own request says. It does nothing once the session is stopped. A start that begins a
session arms the deadline of this one, and a start that begins none leaves the deadline as it is. -/
theorem deadline_stops_own_session {answer : NativeAnswer} {config : Config} {sink : Sink}
    (created : create answer config sink = .ok service)
    (operations : List (Surroundings × SessionOperation)) (around : Surroundings) :
    let now := service.run operations
    let expired := now.expire around
    (now.state = .capturing → ∃ opening : Opening service operations,
      opening.Lasts ∧ now.deadline = some opening.deadline ∧
        expired.state = .idle ∧ expired.deadline = none ∧ expired.manager.AtRest) ∧
    (now.state ≠ .capturing → expired = { now with deadline := none }) ∧
    (∀ operation asked, now.request? operation = some asked →
      let next := now.perform around operation
      (∃ request count, asked = .ok request ∧
        now.startAnswer around asked = .ok (.started count) ∧ next.state = .capturing ∧
        next.deadline = some ⟨now.sessions + 1, request.duration⟩) ∨
      (∀ count, now.startAnswer around asked ≠ .ok (.started count)) ∧
        next.state = now.state ∧ next.deadline = now.deadline) := by
  intro now expired
  have notYet : service.state ≠ .capturing := by
    obtain ⟨_, _, idle, _⟩ := create_ok created
    simp [idle]
  refine ⟨?_, ?_, fun _ _ requested => perform_asked requested around⟩
  · intro capturing
    obtain ⟨opening, lasts⟩ := run_opening notYet capturing
    have armed : now.deadline = some opening.deadline := lasts.now.2
    have stopped : expired = ({ now with deadline := none }.stop around).2 := by
      simp only [expired, expire, armed]
    have ended := stop_deadline { now with deadline := none } around
    have settled : expired.InStep := expire_inStep (run_inStep (create_inStep created) operations)
    rw [← stopped] at ended
    obtain ⟨idle, rest⟩ | ⟨capturing, _⟩ := settled
    · exact ⟨opening, lasts, armed, idle, ended.2, rest⟩
    · exact absurd capturing ended.1
  · intro stopped
    cases armed : now.deadline with
    | none =>
        simp only [expired, expire, armed]
        rw [← armed]
    | some deadline => simp [expired, expire, armed, stop, stopped]

/-- A session is stopped, a longer one is started, and a third one cannot be. -/
theorem deadline_stops_own_session_restarted :
    let catalog : Catalog := [⟨1, "App.dll", false, false, [], [],
      [⟨⟨0x06000001⟩, "Bar", some (.ofKind "App" "Foo" .classType), true, [], [], []⟩]⟩]
    let ask (seconds : Nat) : CaptureRequest :=
      ⟨[.anyOverload "app.DLL" "App.Foo" "Bar"], .ofSeconds seconds⟩
    let obeyed : Surroundings := ⟨fun _ => none, false, catalog⟩
    let operations : List (Surroundings × SessionOperation) :=
      [(obeyed, .start (ask 1)), (obeyed, .stop), (obeyed, .start (ask 2))]
    ∃ service, create (fun _ => none) .initial .steady = .ok service ∧
      let now := service.run operations
      now.deadline = some ⟨2, .ofSeconds 2⟩ ∧ (now.expire obeyed).state = .idle ∧
        (now.perform obeyed (.start (ask 3))).deadline = some ⟨2, .ofSeconds 2⟩ ∧
        (now.expire obeyed).expire obeyed = now.expire obeyed := by
  intro catalog ask obeyed operations
  have created : ∃ service, create (fun _ => none) .initial .steady = .ok service := ⟨_, rfl⟩
  obtain ⟨service, created⟩ := created
  refine ⟨service, created, ?_⟩
  intro now
  obtain ⟨stops, _, starts⟩ := deadline_stops_own_session created operations obeyed
  have capturing : now.state = .capturing := by
    cases created
    decide +kernel
  have armed : now.deadline = some ⟨2, .ofSeconds 2⟩ := by
    cases created
    decide +kernel
  have running : now.running = true := by
    cases created
    decide +kernel
  have ignored : now.startAnswer obeyed (.ok (ask 3)) = .ok .alreadyCapturing := by
    simp [startAnswer, Except.bind, start, running, capturing]
  obtain ⟨opening, _, _, idle, unarmed, _⟩ := stops capturing
  obtain ⟨_, _, _, started, _⟩ | ⟨_, _, kept⟩ := starts (.start (ask 3)) (.ok (ask 3)) rfl
  · cases ignored.symm.trans started
  · exact ⟨armed, idle, kept.trans armed, by rw [expire, unarmed]⟩

end CaptureService

end CallCapture
