import CallCapture.Proofs.Log.Delivery

/-!
A log that is not completed is flushed whenever its consumer goes on and outlives its sink's failures:
a full queue gets room, and the request is acknowledged.
-/

namespace CallCapture

namespace Logger

variable {config : Config} {sink : Sink} {logger : Logger}

/-- The log takes messages, at the latest when its queue has room again, and its consumer lives. -/
structure IsOpen (logger : Logger) : Prop where
  room : 0 < logger.capacity
  running : logger.completed = false
  going : logger.stopped = false
  lasting : logger.sink.Lasting

theorem start_isOpen (lasting : sink.Lasting) (started : start config sink = .ok logger) :
    logger.IsOpen := by
  obtain ⟨accounts, going⟩ := start_accounts started
  exact ⟨accounts.capacity ▸ accounts.positive, by simpa using accounts.completed, going,
    accounts.sink.symm ▸ lasting⟩

theorem IsOpen.enqueue (isOpen : logger.IsOpen) (thread : Option String) (elapsed : Nat)
    (entry : LogEntry) : (logger.enqueue thread elapsed entry).2.IsOpen := by
  obtain ⟨completed, capacity, sink, stopped⟩ := enqueue_bounds logger thread elapsed entry
  exact ⟨capacity.symm ▸ isOpen.room, completed.trans isOpen.running, stopped.trans isOpen.going,
    sink.symm ▸ isOpen.lasting⟩

theorem IsOpen.requestFlush (isOpen : logger.IsOpen) : logger.requestFlush.2.IsOpen := by
  obtain answer | ⟨_, _, _, answer⟩ := requestFlush_cases logger <;> rw [answer] <;>
    exact ⟨isOpen.room, isOpen.running, isOpen.going, isOpen.lasting⟩

theorem IsOpen.consume (isOpen : logger.IsOpen) : logger.consume.IsOpen := by
  have same := consume_sameProducers logger
  exact ⟨same.capacity.symm ▸ isOpen.room, same.completed.trans isOpen.running,
    (consume_stopped isOpen.lasting).trans isOpen.going, same.sink.symm ▸ isOpen.lasting⟩

theorem IsOpen.settle (isOpen : logger.IsOpen) (stalled : Bool) :
    (logger.settle stalled).IsOpen :=
  @settle_preserves logger IsOpen (fun _ => IsOpen.consume) stalled isOpen

theorem IsOpen.awaitRoom (isOpen : logger.IsOpen) (stalled : Bool) :
    (logger.awaitRoom stalled).IsOpen := by
  unfold Logger.awaitRoom
  split
  · exact isOpen.settle stalled
  · exact isOpen

theorem flush_logger (stalled : Bool) (logger : Logger) :
    (logger.flush stalled).2 =
      if logger.completed then logger
      else (logger.awaitRoom stalled).requestFlush.2.settle stalled := by
  unfold flush
  split
  · rfl
  · dsimp only
    split <;> rfl

theorem IsOpen.flush (isOpen : logger.IsOpen) (stalled : Bool) :
    (logger.flush stalled).2.IsOpen := by
  rw [flush_logger, isOpen.running]
  exact ((isOpen.awaitRoom stalled).requestFlush).settle stalled

theorem awaitRoom_not_full (isOpen : logger.IsOpen) : (logger.awaitRoom false).isFull = false := by
  unfold awaitRoom
  split
  · have room := (isOpen.settle false).room
    have empty := ((unsettled_eq_nil_iff _).mp (settle_unsettled logger)).2
    simpa [isFull, empty, Nat.pos_iff_ne_zero] using room
  · rename_i notFull
    simpa using notFull

/-- A request to flush that waits in the queue is acknowledged by a consumer that goes on. -/
theorem settle_acknowledges {ticket : Nat} (isOpen : logger.IsOpen)
    (waiting : .flush ticket ∈ logger.queue) : ticket ∈ (logger.settle false).acknowledged := by
  -- a ticket that was put into the queue is acknowledged or still there
  have step : ∀ logger : Logger,
      (logger.IsOpen ∧ (ticket ∈ logger.acknowledged ∨ .flush ticket ∈ logger.unsettled)) →
      (logger.consume.IsOpen ∧
        (ticket ∈ logger.consume.acknowledged ∨ .flush ticket ∈ logger.consume.unsettled)) := by
    intro logger ⟨isOpen, known⟩
    refine ⟨isOpen.consume, ?_⟩
    obtain ⟨_, same⟩ | ⟨entry, held, _, step⟩ | ⟨entry, held, kills, _⟩ |
      ⟨entry, rest, held, queued, step⟩ | ⟨number, rest, held, queued, step⟩ :=
      consume_cases logger
    · rw [same]
      exact known
    · simpa [step, unsettled, held] using known
    · rw [isOpen.lasting] at kills
      contradiction
    · simpa [step, unsettled, held, queued] using known
    · simp only [unsettled, held, queued, Option.toList, List.map_nil, List.nil_append,
        List.mem_cons, LogMessage.flush.injEq] at known
      simp only [step, unsettled, held, Option.toList, List.map_nil, List.nil_append,
        List.mem_cons]
      grind
  obtain ⟨_, acknowledged | left⟩ := settle_preserves step false
    ⟨isOpen, .inr (List.mem_append_right _ waiting)⟩
  · exact acknowledged
  · rw [settle_unsettled] at left
    contradiction

/-- A flush succeeds, however full the queue is, if the consumer goes on. -/
theorem flush_of_isOpen (isOpen : logger.IsOpen) : (logger.flush false).1 = .ok () := by
  let ready := logger.awaitRoom false
  have requested : ready.requestFlush = (some ready.nextTicket,
      { ready with
        queue := ready.queue ++ [.flush ready.nextTicket]
        nextTicket := ready.nextTicket + 1 }) := by
    have room : ready.isFull = false := awaitRoom_not_full isOpen
    have running : ready.completed = false := (isOpen.awaitRoom false).running
    have going : ready.stopped = false := (isOpen.awaitRoom false).going
    simp [requestFlush, running, going, room]
  have acknowledged : ready.nextTicket ∈ (ready.requestFlush.2.settle false).acknowledged :=
    settle_acknowledges (isOpen.awaitRoom false).requestFlush (by simp [requested])
  have answered : (ready.requestFlush.1.any
      (ready.requestFlush.2.settle false).acknowledged.contains) = true := by
    rw [requested] at acknowledged ⊢
    simpa using acknowledged
  simp only [flush, isOpen.running, Bool.false_eq_true, if_false]
  rw [if_pos answered]

end Logger

end CallCapture
