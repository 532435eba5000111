import CallCapture.Log.Logger

/-!
The consumer of the capture log, step by step. It settles messages in the order in which they were
accepted, leaves to producers what is theirs, and gets to the end of the queue unless a write
stalls or ends it.
-/

namespace CallCapture

namespace LogMessage

def entry? : LogMessage → Option LogEntry
  | .entry logged => some logged
  | .flush _ => none

def ticket? : LogMessage → Option Nat
  | .entry _ => none
  | .flush number => some number

def entries (messages : List LogMessage) : List LogEntry :=
  messages.filterMap entry?

def tickets (messages : List LogMessage) : List Nat :=
  messages.filterMap ticket?

@[simp] theorem entries_append (first second : List LogMessage) :
    entries (first ++ second) = entries first ++ entries second :=
  List.filterMap_append

@[simp] theorem tickets_append (first second : List LogMessage) :
    tickets (first ++ second) = tickets first ++ tickets second :=
  List.filterMap_append

@[simp] theorem entries_entry (logged : LogEntry) (rest : List LogMessage) :
    entries (.entry logged :: rest) = logged :: entries rest := rfl

@[simp] theorem entries_flush (number : Nat) (rest : List LogMessage) :
    entries (.flush number :: rest) = entries rest := rfl

@[simp] theorem tickets_entry (logged : LogEntry) (rest : List LogMessage) :
    tickets (.entry logged :: rest) = tickets rest := rfl

@[simp] theorem tickets_flush (number : Nat) (rest : List LogMessage) :
    tickets (.flush number :: rest) = number :: tickets rest := rfl

@[simp] theorem entries_nil : entries [] = [] := rfl

@[simp] theorem tickets_nil : tickets [] = [] := rfl

end LogMessage

namespace Logger

variable {logger : Logger}

/-- The messages that were accepted and are not settled, in order. -/
def unsettled (logger : Logger) : List LogMessage :=
  logger.inHand.toList.map .entry ++ logger.queue

/-- How many steps of the consumer are enough: an entry takes two. -/
def work (logger : Logger) : Nat :=
  2 * logger.queue.length + logger.inHand.toList.length

theorem unsettled_eq_nil_iff (logger : Logger) :
    logger.unsettled = [] ↔ logger.inHand = none ∧ logger.queue = [] := by
  cases held : logger.inHand <;> simp [unsettled, held]

theorem work_eq_zero_iff (logger : Logger) : logger.work = 0 ↔ logger.unsettled = [] := by
  rw [unsettled_eq_nil_iff, ← List.length_eq_zero_iff]
  cases held : logger.inHand with
  | some entry => simp [work, held]
  | none =>
      simp only [work, held, Option.toList, List.length_nil, true_and]
      omega

theorem caught_write (entry : LogEntry) (logger : Logger) :
    Part.caught (fun _ logger => logger) (write entry) logger =
      (.of ((logger.sink.failure? logger.handed entry).bind Payload.relapse?),
        { logger with handed := logger.handed ++ [entry] }) := by
  rw [Part.caught_of (show write entry logger = (.of _, _) from rfl)]
  cases logger.sink.failure? logger.handed entry <;> rfl

/-- A write is over in the same way whether it fails or not, unless it ends the consumer. -/
theorem consume_inHand {entry : LogEntry} (held : logger.inHand = some entry) :
    (logger.sink.kills logger.handed entry = false ∧
      logger.consume = { logger with inHand := none, handed := logger.handed ++ [entry] }) ∨
    (logger.sink.kills logger.handed entry = true ∧
      logger.consume =
        { logger with
          inHand := none
          handed := logger.handed ++ [entry]
          stopped := true
          queue := [] }) := by
  simp only [consume, held, caught_write, Sink.kills]
  cases (logger.sink.failure? logger.handed entry).bind Payload.relapse? with
  | none => exact .inl ⟨rfl, rfl⟩
  | some payload => exact .inr ⟨rfl, rfl⟩

theorem consume_cases (logger : Logger) :
    (logger.unsettled = [] ∧ logger.consume = logger) ∨
    (∃ entry, logger.inHand = some entry ∧ logger.sink.kills logger.handed entry = false ∧
      logger.consume = { logger with inHand := none, handed := logger.handed ++ [entry] }) ∨
    (∃ entry, logger.inHand = some entry ∧ logger.sink.kills logger.handed entry = true ∧
      logger.consume =
        { logger with
          inHand := none
          handed := logger.handed ++ [entry]
          stopped := true
          queue := [] }) ∨
    (∃ entry rest, logger.inHand = none ∧ logger.queue = .entry entry :: rest ∧
      logger.consume = { logger with inHand := some entry, queue := rest }) ∨
    (∃ ticket rest, logger.inHand = none ∧ logger.queue = .flush ticket :: rest ∧
      logger.consume =
        { logger with
          queue := rest
          sinkFlushes := logger.sinkFlushes + 1
          acknowledged := ticket :: logger.acknowledged }) := by
  cases held : logger.inHand with
  | some entry =>
      obtain ⟨lives, step⟩ | ⟨kills, step⟩ := consume_inHand held
      · exact .inr (.inl ⟨entry, rfl, lives, step⟩)
      · exact .inr (.inr (.inl ⟨entry, rfl, kills, step⟩))
  | none =>
      match waiting : logger.queue with
      | [] =>
          refine .inl ⟨(unsettled_eq_nil_iff logger).mpr ⟨held, waiting⟩, ?_⟩
          simp only [consume, held, waiting]
      | .entry entry :: rest =>
          exact .inr (.inr (.inr (.inl
            ⟨entry, rest, rfl, rfl, by simp only [consume, held, waiting]⟩)))
      | .flush ticket :: rest =>
          exact .inr (.inr (.inr (.inr
            ⟨ticket, rest, rfl, rfl, by simp only [consume, held, waiting]⟩)))

theorem consume_of_unsettled_nil (settled : logger.unsettled = []) : logger.consume = logger := by
  obtain ⟨held, waiting⟩ := (unsettled_eq_nil_iff logger).mp settled
  simp only [consume, held, waiting]

theorem work_consume (logger : Logger) : logger.consume.work ≤ logger.work - 1 := by
  obtain ⟨settled, same⟩ | ⟨entry, held, _, step⟩ | ⟨entry, held, _, step⟩ |
    ⟨entry, rest, held, waiting, step⟩ | ⟨ticket, rest, held, waiting, step⟩ := consume_cases logger
  · have nothing := (work_eq_zero_iff logger).mpr settled
    rw [same]
    omega
  · simp [step, work, held]
  · simp [step, work, held]
  · simp only [step, work, held, waiting, Option.toList, List.length_cons, List.length_nil]
    omega
  · simp only [step, work, held, waiting, List.length_cons]
    omega

section Settling

variable {holds : Logger → Prop}

theorem settleWithin_preserves (step : ∀ logger, holds logger → holds logger.consume)
    (stalled : Bool) (fuel : Nat) (before : holds logger) :
    holds (settleWithin stalled fuel logger) := by
  induction fuel generalizing logger with
  | zero => exact before
  | succ fuel ih =>
      simp only [settleWithin]
      split
      · exact before
      · exact ih (step logger before)

/-- What every step of the consumer keeps holds when it comes to rest. -/
theorem settle_preserves (step : ∀ logger, holds logger → holds logger.consume)
    (stalled : Bool) (before : holds logger) : holds (logger.settle stalled) :=
  settleWithin_preserves step stalled _ before

end Settling

theorem settleWithin_unsettled {fuel : Nat} (enough : logger.work ≤ fuel) :
    (settleWithin false fuel logger).unsettled = [] := by
  induction fuel generalizing logger with
  | zero => exact (work_eq_zero_iff logger).mp (Nat.le_zero.mp enough)
  | succ fuel ih =>
      have less := work_consume logger
      exact ih (show logger.consume.work ≤ fuel by omega)

theorem settle_unsettled (logger : Logger) : (logger.settle false).unsettled = [] := by
  apply settleWithin_unsettled
  cases held : logger.inHand <;> simp [work, held]

/-- What a log keeps of the entries that were dropped is the same. -/
structure SameDrops (before after : Logger) : Prop where
  dropped : after.dropped = before.dropped
  interval : after.warningInterval = before.warningInterval
  lastWarning : after.lastWarning = before.lastWarning
  warnings : after.warnings = before.warnings

theorem SameDrops.refl (logger : Logger) : SameDrops logger logger :=
  ⟨rfl, rfl, rfl, rfl⟩

theorem SameDrops.trans {first second third : Logger} (one : SameDrops first second)
    (two : SameDrops second third) : SameDrops first third :=
  ⟨two.dropped.trans one.dropped, two.interval.trans one.interval,
    two.lastWarning.trans one.lastWarning, two.warnings.trans one.warnings⟩

/-- What only producers and the owner change is the same: the bounds, and what they count. -/
structure SameProducers (before after : Logger) : Prop extends SameDrops before after where
  sink : after.sink = before.sink
  capacity : after.capacity = before.capacity
  excluded : after.excludedThreads = before.excludedThreads
  completed : after.completed = before.completed
  issued : after.nextTicket = before.nextTicket

theorem SameProducers.refl (logger : Logger) : SameProducers logger logger :=
  ⟨.refl logger, rfl, rfl, rfl, rfl, rfl⟩

theorem SameProducers.trans {first second third : Logger} (one : SameProducers first second)
    (two : SameProducers second third) : SameProducers first third :=
  ⟨one.toSameDrops.trans two.toSameDrops, two.sink.trans one.sink,
    two.capacity.trans one.capacity, two.excluded.trans one.excluded,
    two.completed.trans one.completed, two.issued.trans one.issued⟩

theorem consume_sameProducers (logger : Logger) : SameProducers logger logger.consume := by
  obtain ⟨_, step⟩ | ⟨_, _, _, step⟩ | ⟨_, _, _, step⟩ | ⟨_, _, _, _, step⟩ |
    ⟨_, _, _, _, step⟩ := consume_cases logger <;> rw [step] <;>
    exact ⟨⟨rfl, rfl, rfl, rfl⟩, rfl, rfl, rfl, rfl, rfl⟩

theorem settle_sameProducers (stalled : Bool) (logger : Logger) :
    SameProducers logger (logger.settle stalled) :=
  settle_preserves (fun between same => same.trans (consume_sameProducers between)) stalled
    (.refl logger)

/-- A shutdown changes neither the sink nor what was told about drops. -/
theorem shutdown_frame (logger : Logger) :
    SameDrops logger logger.shutdown ∧ logger.shutdown.sink = logger.sink := by
  unfold shutdown
  split
  · exact ⟨.refl logger, rfl⟩
  · have same := settle_sameProducers false { logger with completed := true }
    exact ⟨⟨same.dropped, same.interval, same.lastWarning, same.warnings⟩, same.sink⟩

end Logger

end CallCapture
