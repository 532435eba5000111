import CallCapture.Log.Logger

/-!
What producers and those who flush may do to the capture log, one case for each answer.
-/

namespace CallCapture

namespace Logger

variable {logger : Logger}

theorem drop_cases (logger : Logger) (elapsed : Nat) :
    (logger.warnsAt (UInt64.ofNat elapsed) = true ∧ logger.drop elapsed =
      { logger with
        dropped := logger.dropped + 1
        lastWarning := UInt64.ofNat elapsed
        warnings := logger.warnings ++ [logger.dropped + 1] }) ∨
    (logger.warnsAt (UInt64.ofNat elapsed) = false ∧
      logger.drop elapsed = { logger with dropped := logger.dropped + 1 }) := by
  cases due : logger.warnsAt (UInt64.ofNat elapsed) with
  | true => exact .inl ⟨rfl, by simp only [drop, due, if_true]⟩
  | false => exact .inr ⟨rfl, by simp only [drop, due, Bool.false_eq_true, if_false]⟩

theorem drop_eq (logger : Logger) (elapsed : Nat) :
    ∃ warned warnings, logger.drop elapsed =
      { logger with
        dropped := logger.dropped + 1
        lastWarning := warned
        warnings := warnings } := by
  obtain ⟨_, counted⟩ | ⟨_, counted⟩ := drop_cases logger elapsed
  · exact ⟨_, _, counted⟩
  · exact ⟨logger.lastWarning, logger.warnings, counted⟩

theorem enqueue_cases (logger : Logger) (thread : Option String) (elapsed : Nat)
    (entry : LogEntry) :
    (logger.completed = true ∧ logger.enqueue thread elapsed entry = (.completed, logger)) ∨
    (logger.completed = false ∧ thread.any logger.excludesThread = true ∧
      logger.enqueue thread elapsed entry = (.excluded, logger)) ∨
    (logger.completed = false ∧ thread.any logger.excludesThread = false ∧
      logger.stopped = true ∧ logger.enqueue thread elapsed entry = (.completed, logger)) ∨
    (logger.completed = false ∧ thread.any logger.excludesThread = false ∧
      logger.stopped = false ∧ logger.isFull = true ∧
      logger.enqueue thread elapsed entry = (.dropped, logger.drop elapsed)) ∨
    (logger.completed = false ∧ thread.any logger.excludesThread = false ∧
      logger.stopped = false ∧ logger.isFull = false ∧
      logger.enqueue thread elapsed entry =
        (.queued, { logger with queue := logger.queue ++ [.entry entry] })) := by
  cases completed : logger.completed <;> cases excluded : thread.any logger.excludesThread <;>
    cases stopped : logger.stopped <;> cases full : logger.isFull <;>
    simp [enqueue, completed, excluded, stopped, full]

/-- Offering an entry changes nothing that the other parties to a log go by. -/
theorem enqueue_bounds (logger : Logger) (thread : Option String) (elapsed : Nat)
    (entry : LogEntry) :
    let next := (logger.enqueue thread elapsed entry).2
    next.completed = logger.completed ∧ next.capacity = logger.capacity ∧
      next.sink = logger.sink ∧ next.stopped = logger.stopped := by
  obtain ⟨_, answer⟩ | ⟨_, _, answer⟩ | ⟨_, _, _, answer⟩ | ⟨_, _, _, _, answer⟩ |
    ⟨_, _, _, _, answer⟩ := enqueue_cases logger thread elapsed entry
  · simp [answer]
  · simp [answer]
  · simp [answer]
  · obtain ⟨_, _, counted⟩ := drop_eq logger elapsed
    simp [answer, counted]
  · simp [answer]

/-- A running log takes or drops what a thread offers that is not excluded, and is not the same
after that. -/
theorem enqueue_of_allowed {thread : Option String} (running : logger.completed = false)
    (going : logger.stopped = false) (allowed : thread.any logger.excludesThread = false)
    (elapsed : Nat) (entry : LogEntry) :
    ((logger.enqueue thread elapsed entry).1 = .queued ∨
      (logger.enqueue thread elapsed entry).1 = .dropped) ∧
    (logger.enqueue thread elapsed entry).2 ≠ logger := by
  obtain ⟨ended, _⟩ | ⟨_, excluded, _⟩ | ⟨_, _, stopped, _⟩ | ⟨_, _, _, _, answer⟩ |
    ⟨_, _, _, _, answer⟩ := enqueue_cases logger thread elapsed entry
  · rw [running] at ended
    contradiction
  · rw [allowed] at excluded
    contradiction
  · rw [going] at stopped
    contradiction
  · obtain ⟨_, _, counted⟩ := drop_eq logger elapsed
    rw [answer, counted]
    exact ⟨.inr rfl, fun same => Nat.succ_ne_self _ (congrArg Logger.dropped same)⟩
  · rw [answer]
    refine ⟨.inl rfl, fun same => ?_⟩
    have longer := congrArg (·.queue.length) same
    simp at longer

theorem requestFlush_cases (logger : Logger) :
    logger.requestFlush = (none, logger) ∨
    (logger.completed = false ∧ logger.stopped = false ∧ logger.isFull = false ∧
      logger.requestFlush = (some logger.nextTicket,
        { logger with
          queue := logger.queue ++ [.flush logger.nextTicket]
          nextTicket := logger.nextTicket + 1 })) := by
  cases completed : logger.completed <;> cases stopped : logger.stopped <;>
    cases full : logger.isFull <;> simp [requestFlush, completed, stopped, full]

end Logger

end CallCapture
