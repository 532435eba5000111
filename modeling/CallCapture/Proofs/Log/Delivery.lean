import CallCapture.Proofs.Log.Outliving

/-!
Producers, the consumer and the owner of a capture log take steps in any order. What the sink is
given are the entries that were answered queued; nothing is lost, doubled or reordered for as long
as the consumer lives. It outlives each write that fails, unless letting go of the payload fails as
well: that write is its last, and what is queued behind it is lost.
-/

namespace CallCapture

open LogMessage (entries tickets)

inductive LogStep where
  /-- A thread, whose name may be unknown, offers an entry. -/
  | enqueue (thread : Option String) (elapsed : Nat) (entry : LogEntry)
  /-- The consumer takes a message, or its write is over, with or without a failure. -/
  | consume
  | requestFlush
  | shutdown
deriving DecidableEq, Repr

inductive LogAnswer where
  | offered (outcome : EnqueueOutcome)
  | requested (ticket : Option Nat)
  | done
deriving DecidableEq, Repr

structure LogExchange where
  step : LogStep
  answer : LogAnswer
deriving DecidableEq, Repr

namespace LogExchange

def accepted? : LogExchange → Option LogMessage
  | ⟨.enqueue _ _ entry, .offered .queued⟩ => some (.entry entry)
  | ⟨.requestFlush, .requested (some ticket)⟩ => some (.flush ticket)
  | _ => none

/-- The entry that was answered queued. -/
def queued? (exchange : LogExchange) : Option LogEntry :=
  exchange.accepted?.bind LogMessage.entry?

def isDropped (exchange : LogExchange) : Bool :=
  exchange.answer = .offered .dropped

def queuedEntries (exchanges : List LogExchange) : List LogEntry :=
  exchanges.filterMap queued?

def accepted (exchanges : List LogExchange) : List LogMessage :=
  exchanges.filterMap accepted?

theorem accepted_append (first second : List LogExchange) :
    accepted (first ++ second) = accepted first ++ accepted second :=
  List.filterMap_append

theorem accepted_snoc (exchanges : List LogExchange) (exchange : LogExchange) :
    accepted (exchanges ++ [exchange]) = accepted exchanges ++ exchange.accepted?.toList := by
  rw [accepted_append]
  cases answer : exchange.accepted? <;> simp [accepted, answer]

theorem entries_accepted (exchanges : List LogExchange) :
    entries (accepted exchanges) = queuedEntries exchanges :=
  List.filterMap_filterMap

end LogExchange

open LogExchange (queuedEntries accepted)

namespace Logger

variable {config : Config} {sink : Sink} {logger : Logger} {exchanges : List LogExchange}

def perform (logger : Logger) : LogStep → LogAnswer × Logger
  | .enqueue thread elapsed entry =>
      let (outcome, next) := logger.enqueue thread elapsed entry
      (.offered outcome, next)
  | .consume => (.done, logger.consume)
  | .requestFlush =>
      let (ticket, next) := logger.requestFlush
      (.requested ticket, next)
  | .shutdown => (.done, logger.shutdown)

def run (logger : Logger) (steps : List LogStep) : Logger :=
  steps.foldl (fun logger step => (logger.perform step).2) logger

@[simp] theorem run_nil (logger : Logger) : logger.run [] = logger := rfl

@[simp] theorem run_cons (logger : Logger) (step : LogStep) (rest : List LogStep) :
    logger.run (step :: rest) = (logger.perform step).2.run rest := rfl

def transcript : Logger → List LogStep → List LogExchange
  | _, [] => []
  | logger, step :: rest =>
      ⟨step, (logger.perform step).1⟩ :: transcript (logger.perform step).2 rest

theorem transcript_steps (logger : Logger) (steps : List LogStep) :
    (logger.transcript steps).map LogExchange.step = steps := by
  induction steps generalizing logger with
  | nil => rfl
  | cons step rest ih => simp only [transcript, List.map_cons, ih]

/-! ### Sinks that make no difference -/

theorem perform_sink (logger : Logger) (step : LogStep) :
    (logger.perform step).2.sink = logger.sink := by
  cases step with
  | enqueue thread elapsed entry => exact (enqueue_bounds logger thread elapsed entry).2.2.1
  | consume => exact (consume_sameProducers logger).sink
  | requestFlush =>
      obtain answer | ⟨_, _, _, answer⟩ := requestFlush_cases logger <;> simp [perform, answer]
  | shutdown => exact (shutdown_frame logger).2

theorem perform_withSink (lasting : logger.sink.Lasting) (others : sink.Lasting) (step : LogStep) :
    (logger.withSink sink).perform step = (logger.perform step).map id (withSink · sink) := by
  cases step with
  | enqueue thread elapsed entry => simp only [perform, enqueue_withSink, Prod.map, id]
  | consume => simp only [perform, consume_withSink lasting others, Prod.map, id]
  | requestFlush => simp only [perform, requestFlush_withSink, Prod.map, id]
  | shutdown => simp only [perform, shutdown_withSink lasting others, Prod.map, id]

/-- Sinks that the consumer outlives make no difference to each other, in any answer. -/
theorem run_withSink (lasting : logger.sink.Lasting) (others : sink.Lasting)
    (steps : List LogStep) :
    (logger.withSink sink).transcript steps = logger.transcript steps ∧
      (logger.withSink sink).run steps = (logger.run steps).withSink sink := by
  induction steps generalizing logger with
  | nil => exact ⟨rfl, rfl⟩
  | cons step rest ih =>
      obtain ⟨answers, after⟩ := @ih (logger.perform step).2 (perform_sink logger step ▸ lasting)
      simp only [transcript, run_cons, perform_withSink lasting others, Prod.map, id]
      exact ⟨congrArg _ answers, after⟩

/-! ### What one step does to the accounts -/

/-- The messages that were accepted are those that are settled, after them those that wait, and then
those that are lost. None are lost while the consumer lives, and none wait after it. -/
structure Ledger (logger : Logger) (accepted settled lost : List LogMessage) : Prop where
  order : accepted = settled ++ logger.unsettled ++ lost
  handed : entries settled = logger.handed
  acknowledged : tickets settled = logger.acknowledged.reverse
  issued : tickets accepted = List.range logger.nextTicket
  room : logger.queue.length ≤ logger.capacity
  going : logger.stopped = false → lost = [] ∧ logger.sink.Survived logger.handed
  ended : logger.stopped = true → logger.unsettled = [] ∧ ∃ before entry,
    logger.handed = before ++ [entry] ∧ logger.sink.Survived before ∧
      logger.sink.kills before entry = true

section Ledger

variable {accepted settled lost : List LogMessage}

theorem Ledger.stopped_of_unsettled (ledger : logger.Ledger accepted settled lost)
    (waiting : logger.unsettled ≠ []) : logger.stopped = false := by
  cases stopped : logger.stopped with
  | false => rfl
  | true => exact absurd (ledger.ended stopped).1 waiting

theorem Ledger.consume (ledger : logger.Ledger accepted settled lost) :
    ∃ settled lost, logger.consume.Ledger accepted settled lost := by
  have alive (held : logger.inHand ≠ none ∨ logger.queue ≠ []) : logger.stopped = false := by
    refine ledger.stopped_of_unsettled fun nothing => ?_
    obtain ⟨free, empty⟩ := (unsettled_eq_nil_iff logger).mp nothing
    exact held.elim (· free) (· empty)
  obtain ⟨_, same⟩ | ⟨entry, held, lives, step⟩ | ⟨entry, held, kills, step⟩ |
    ⟨entry, rest, held, waiting, step⟩ | ⟨ticket, rest, held, waiting, step⟩ := consume_cases logger
  · rw [same]
    exact ⟨settled, lost, ledger⟩
  · have alive := alive (.inl (by simp [held]))
    obtain ⟨nothing, survived⟩ := ledger.going alive
    rw [step]
    refine ⟨settled ++ [.entry entry], [], ?_, ?_, ?_, ledger.issued, ledger.room, ?_, ?_⟩
    · simp [ledger.order, nothing, unsettled, held]
    · simp [ledger.handed]
    · simp [ledger.acknowledged]
    · exact fun _ => ⟨rfl, survived.snoc lives⟩
    · simp [alive]
  · obtain ⟨nothing, survived⟩ := ledger.going (alive (.inl (by simp [held])))
    rw [step]
    refine ⟨settled ++ [.entry entry], logger.queue, ?_, ?_, ?_, ledger.issued, Nat.zero_le _, ?_,
      ?_⟩
    · simp [ledger.order, nothing, unsettled, held]
    · simp [ledger.handed]
    · simp [ledger.acknowledged]
    · simp
    · exact fun _ => ⟨rfl, logger.handed, entry, rfl, survived, kills⟩
  · have alive := alive (.inr (by simp [waiting]))
    rw [step]
    refine ⟨settled, lost, ?_, ledger.handed, ledger.acknowledged, ledger.issued, ?_, ledger.going,
      ?_⟩
    · simp [ledger.order, unsettled, held, waiting]
    · exact Nat.le_of_succ_le (by simpa [waiting] using ledger.room)
    · simp [alive]
  · have alive := alive (.inr (by simp [waiting]))
    rw [step]
    refine ⟨settled ++ [.flush ticket], lost, ?_, ?_, ?_, ledger.issued, ?_, ledger.going, ?_⟩
    · simp [ledger.order, unsettled, held, waiting]
    · simp [ledger.handed]
    · simp [ledger.acknowledged]
    · exact Nat.le_of_succ_le (by simpa [waiting] using ledger.room)
    · simp [alive]

theorem Ledger.settle (ledger : logger.Ledger accepted settled lost) (stalled : Bool) :
    ∃ settled lost, (logger.settle stalled).Ledger accepted settled lost := by
  have step : ∀ logger : Logger, (∃ settled lost, logger.Ledger accepted settled lost) →
      ∃ settled lost, logger.consume.Ledger accepted settled lost :=
    fun _ ⟨_, _, ledger⟩ => ledger.consume
  exact settle_preserves step stalled ⟨settled, lost, ledger⟩

theorem Ledger.relabel (ledger : logger.Ledger accepted settled lost) (completed : Bool)
    (dropped : Nat) (lastWarning : UInt64) (warnings : List Nat) (sinkFlushes : Nat) :
    Ledger { logger with completed, dropped, lastWarning, warnings, sinkFlushes }
      accepted settled lost :=
  ⟨ledger.order, ledger.handed, ledger.acknowledged, ledger.issued, ledger.room, ledger.going,
    ledger.ended⟩

theorem Ledger.push (ledger : logger.Ledger accepted settled lost)
    (alive : logger.stopped = false) (notFull : logger.isFull = false) (message : LogMessage)
    {next : Nat} (issued : tickets (accepted ++ [message]) = List.range next) :
    Ledger { logger with queue := logger.queue ++ [message], nextTicket := next }
      (accepted ++ [message]) settled lost := by
  refine ⟨?_, ledger.handed, ledger.acknowledged, issued, ?_, ledger.going, by simp [alive]⟩
  · simp [ledger.order, (ledger.going alive).1, unsettled]
  · have room : logger.queue.length < logger.capacity := by simpa [isFull] using notFull
    simpa [Nat.succ_le_iff] using room

end Ledger

/-- A logger between steps keeps account of all that it answered. -/
structure Accounts (config : Config) (sink : Sink) (exchanges : List LogExchange)
    (logger : Logger) : Prop where
  ledger : ∃ settled lost, logger.Ledger (accepted exchanges) settled lost
  dropped : logger.dropped = exchanges.countP LogExchange.isDropped
  completed : logger.completed = true ↔ .shutdown ∈ exchanges.map LogExchange.step
  drained : logger.completed = true → logger.unsettled = []
  sink : logger.sink = sink
  capacity : logger.capacity = config.queueCapacity
  positive : 0 < config.queueCapacity
  excluded : ∀ name, name ∈ logger.excludedThreads ↔
    name ∈ config.excludedThreadNames ∨ name = config.consumerThreadName

theorem start_accounts (started : start config sink = .ok logger) :
    Accounts config sink [] logger ∧ logger.stopped = false := by
  have positive : 0 < config.queueCapacity := by
    refine Nat.pos_of_ne_zero fun nothing => ?_
    simp [start, Config.validate, Config.fault?, nothing, Except.map] at started
  unfold start at started
  cases valid : config.validate with
  | error error => simp [valid, Except.map] at started
  | ok done =>
      rw [valid] at started
      cases started
      refine ⟨⟨⟨[], [], ?_⟩, rfl, by simp, by simp, rfl, rfl, positive, ?_⟩, rfl⟩
      · exact ⟨rfl, rfl, rfl, rfl, Nat.zero_le _, fun _ => ⟨rfl, throughout_nil _⟩, nofun⟩
      intro name
      dsimp only
      split
      · rename_i listed
        have member : config.consumerThreadName ∈ config.excludedThreadNames := by
          simpa using listed
        constructor
        · exact .inl
        · rintro (among | rfl)
          · exact among
          · exact member
      · simp

/-- A step that puts nothing into the queue, drops nothing and completes nothing. -/
theorem Accounts.idle (accounts : Accounts config sink exchanges logger) {exchange : LogExchange}
    (nothing : exchange.accepted? = none) (undropped : exchange.isDropped = false)
    (goesOn : exchange.step ≠ .shutdown) :
    Accounts config sink (exchanges ++ [exchange]) logger where
  ledger := by simpa [LogExchange.accepted_snoc, nothing] using accounts.ledger
  dropped := by simpa [undropped] using accounts.dropped
  completed := by simpa [goesOn.symm] using accounts.completed
  drained := accounts.drained
  sink := accounts.sink
  capacity := accounts.capacity
  positive := accounts.positive
  excluded := accounts.excluded

theorem Accounts.push (accounts : Accounts config sink exchanges logger) {exchange : LogExchange}
    {message : LogMessage} {next : Nat} (running : logger.completed = false)
    (alive : logger.stopped = false) (notFull : logger.isFull = false)
    (put : exchange.accepted? = some message) (undropped : exchange.isDropped = false)
    (goesOn : exchange.step ≠ .shutdown)
    (issued : List.range logger.nextTicket ++ tickets [message] = List.range next) :
    Accounts config sink (exchanges ++ [exchange])
      { logger with queue := logger.queue ++ [message], nextTicket := next } where
  ledger := by
    obtain ⟨settled, lost, ledger⟩ := accounts.ledger
    refine ⟨settled, lost, ?_⟩
    rw [LogExchange.accepted_snoc, put]
    exact ledger.push alive notFull message (by simpa [ledger.issued] using issued)
  dropped := by simpa [undropped] using accounts.dropped
  completed := by simpa [goesOn.symm] using accounts.completed
  drained := by simp [running]
  sink := accounts.sink
  capacity := accounts.capacity
  positive := accounts.positive
  excluded := accounts.excluded

theorem Accounts.enqueue (accounts : Accounts config sink exchanges logger)
    (thread : Option String) (elapsed : Nat) (entry : LogEntry) :
    Accounts config sink
      (exchanges ++ [⟨.enqueue thread elapsed entry,
        .offered (logger.enqueue thread elapsed entry).1⟩])
      (logger.enqueue thread elapsed entry).2 := by
  obtain ⟨_, answer⟩ | ⟨_, _, answer⟩ | ⟨_, _, _, answer⟩ | ⟨_, _, _, _, answer⟩ |
    ⟨running, _, alive, notFull, answer⟩ := enqueue_cases logger thread elapsed entry
  · rw [answer]
    exact accounts.idle rfl rfl (by simp)
  · rw [answer]
    exact accounts.idle rfl rfl (by simp)
  · rw [answer]
    exact accounts.idle rfl rfl (by simp)
  · obtain ⟨warned, warnings, counted⟩ := drop_eq logger elapsed
    obtain ⟨⟨settled, lost, ledger⟩, dropped, completed, drained, sink, capacity, positive,
      excluded⟩ := accounts
    rw [answer, counted]
    refine ⟨⟨settled, lost, ?_⟩, ?_, ?_, drained, sink, capacity, positive, excluded⟩
    · rw [LogExchange.accepted_snoc]
      simpa [LogExchange.accepted?] using
        ledger.relabel logger.completed (logger.dropped + 1) warned warnings logger.sinkFlushes
    · simp [dropped, LogExchange.isDropped]
    · simpa using completed
  · rw [answer]
    exact accounts.push running alive notFull rfl rfl (by simp) (by simp)

theorem Accounts.requestFlush (accounts : Accounts config sink exchanges logger) :
    Accounts config sink (exchanges ++ [⟨.requestFlush, .requested logger.requestFlush.1⟩])
      logger.requestFlush.2 := by
  obtain answer | ⟨running, alive, notFull, answer⟩ := requestFlush_cases logger
  · rw [answer]
    exact accounts.idle rfl rfl (by simp)
  · rw [answer]
    exact accounts.push running alive notFull rfl rfl (by simp) List.range_succ.symm

theorem Accounts.consume (accounts : Accounts config sink exchanges logger) :
    Accounts config sink (exchanges ++ [⟨.consume, .done⟩]) logger.consume := by
  have same := consume_sameProducers logger
  have before : Accounts config sink (exchanges ++ [⟨.consume, .done⟩]) logger :=
    accounts.idle rfl rfl (by simp)
  obtain ⟨⟨settled, lost, ledger⟩, dropped, completed, drained, sink, capacity, positive,
    excluded⟩ := before
  refine ⟨ledger.consume, same.dropped.trans dropped, ?_, ?_, same.sink.trans sink,
    same.capacity.trans capacity, positive, ?_⟩
  · rw [same.completed]
    exact completed
  · intro ended
    have nothing := drained (same.completed.symm.trans ended)
    rw [consume_of_unsettled_nil nothing]
    exact nothing
  · rw [same.excluded]
    exact excluded

theorem Accounts.shutdown (accounts : Accounts config sink exchanges logger) :
    Accounts config sink (exchanges ++ [⟨.shutdown, .done⟩]) logger.shutdown := by
  obtain ⟨⟨settled, lost, ledger⟩, dropped, completed, drained, sink, capacity, positive,
    excluded⟩ := accounts
  have nothing : accepted (exchanges ++ [⟨.shutdown, .done⟩]) = accepted exchanges := by
    simp [LogExchange.accepted_snoc, LogExchange.accepted?]
  cases ended : logger.completed with
  | true =>
      simp only [Logger.shutdown, ended, if_true]
      refine ⟨⟨settled, lost, nothing ▸ ledger⟩, ?_, ?_, drained, sink, capacity, positive,
        excluded⟩
      · simpa [LogExchange.isDropped] using dropped
      · simp [ended]
  | false =>
      let closed : Logger := { logger with completed := true }
      obtain ⟨written, gone, ledger⟩ := (ledger.relabel true logger.dropped logger.lastWarning
        logger.warnings logger.sinkFlushes).settle false
      have same := settle_sameProducers false closed
      simp only [Logger.shutdown, ended, Bool.false_eq_true, if_false]
      refine ⟨⟨written, gone, ?_⟩, ?_, ?_, fun _ => settle_unsettled closed, same.sink.trans sink,
        same.capacity.trans capacity, positive, ?_⟩
      · rw [nothing]
        exact ledger.relabel _ _ _ _ _
      · simpa [LogExchange.isDropped] using same.dropped.trans dropped
      · simp [closed, same.completed]
      · intro name
        exact same.excluded.symm ▸ excluded name

theorem Accounts.perform (accounts : Accounts config sink exchanges logger) (step : LogStep) :
    Accounts config sink (exchanges ++ [⟨step, (logger.perform step).1⟩])
      (logger.perform step).2 := by
  cases step with
  | enqueue thread elapsed entry => exact accounts.enqueue thread elapsed entry
  | consume => exact accounts.consume
  | requestFlush => exact accounts.requestFlush
  | shutdown => exact accounts.shutdown

theorem Accounts.run (accounts : Accounts config sink exchanges logger) (steps : List LogStep) :
    Accounts config sink (exchanges ++ logger.transcript steps) (logger.run steps) := by
  induction steps generalizing logger exchanges with
  | nil => simpa only [transcript, run_nil, List.append_nil] using accounts
  | cons step rest ih =>
      simpa only [transcript, run_cons, List.append_assoc, List.singleton_append] using
        ih (accounts.perform step)

/-! ### What a run adds up to -/

theorem Accounts.queuedEntries_eq (accounts : Accounts config sink exchanges logger) :
    ∃ lost, queuedEntries exchanges =
        logger.handed ++ logger.inHand.toList ++ entries logger.queue ++ lost ∧
      (logger.stopped = false → lost = []) := by
  obtain ⟨settled, lost, ledger⟩ := accounts.ledger
  refine ⟨entries lost, ?_, fun alive => by rw [(ledger.going alive).1, LogMessage.entries_nil]⟩
  rw [← LogExchange.entries_accepted, ledger.order, LogMessage.entries_append,
    LogMessage.entries_append, ledger.handed]
  cases held : logger.inHand <;> simp [unsettled, held]

/-- The consumer ends in a write that kills it, and in no other way. -/
theorem Accounts.stopped_iff (accounts : Accounts config sink exchanges logger) :
    logger.stopped = true ↔ ∃ before entry,
      logger.handed = before ++ [entry] ∧ sink.kills before entry = true := by
  obtain ⟨settled, lost, ledger⟩ := accounts.ledger
  constructor
  · intro stopped
    obtain ⟨_, before, entry, handed, _, kills⟩ := ledger.ended stopped
    exact ⟨before, entry, handed, accounts.sink ▸ kills⟩
  · rintro ⟨before, entry, handed, kills⟩
    cases stopped : logger.stopped with
    | true => rfl
    | false =>
        have lives := (ledger.going stopped).2 before entry [] handed
        rw [accounts.sink, kills] at lives
        contradiction

theorem Accounts.outlived (accounts : Accounts config sink exchanges logger)
    {before later : List LogEntry} {entry : LogEntry}
    (handed : logger.handed = before ++ entry :: later) (followed : later ≠ []) :
    sink.kills before entry = false := by
  obtain ⟨settled, lost, ledger⟩ := accounts.ledger
  rw [← accounts.sink]
  cases stopped : logger.stopped with
  | false => exact (ledger.going stopped).2 before entry later handed
  | true =>
      obtain ⟨_, others, last, same, survived, _⟩ := ledger.ended stopped
      obtain rfl | ⟨shorter, latest, rfl⟩ := List.eq_nil_or_concat later
      · contradiction
      · rw [List.concat_eq_append, ← List.cons_append, ← List.append_assoc, same] at handed
        exact survived before entry shorter (List.append_inj' handed rfl).1

/-- A request to flush is acknowledged behind all that was accepted before it. -/
theorem Accounts.flushed (accounts : Accounts config sink exchanges logger)
    {before later : List LogExchange} {ticket : Nat}
    (split : exchanges = before ++ ⟨.requestFlush, .requested (some ticket)⟩ :: later)
    (acknowledged : ticket ∈ logger.acknowledged) :
    queuedEntries before <+: logger.handed := by
  obtain ⟨settled, lost, ledger⟩ := accounts.ledger
  have order : accepted exchanges = accepted before ++ .flush ticket :: accepted later := by
    rw [split, LogExchange.accepted_append]
    rfl
  have fresh : ticket ∉ tickets (accepted before) := by
    have distinct : (tickets (accepted exchanges)).Nodup := ledger.issued ▸ List.nodup_range
    rw [order, LogMessage.tickets_append, LogMessage.tickets_flush] at distinct
    intro earlier
    exact (List.nodup_append.mp distinct).2.2 ticket earlier ticket List.mem_cons_self rfl
  have taken : ticket ∈ tickets settled := by
    rw [ledger.acknowledged]
    exact List.mem_reverse.mpr acknowledged
  rw [← LogExchange.entries_accepted, ← ledger.handed]
  -- both are parts of the accepted messages from their first on, so that one continues the other
  have first : accepted before <+: accepted exchanges := order ▸ List.prefix_append _ _
  have second : settled <+: accepted exchanges := by
    rw [ledger.order, List.append_assoc]
    exact List.prefix_append _ _
  obtain passed | short := List.prefix_or_prefix_of_prefix first second
  · exact passed.filterMap _
  · exact absurd ((short.filterMap _).subset taken) fresh

theorem Accounts.allowed_iff (accounts : Accounts config sink exchanges logger)
    (thread : Option String) :
    thread.any logger.excludesThread = false ↔
      ∀ name, thread = some name →
        name ∉ config.excludedThreadNames ∧ name ≠ config.consumerThreadName := by
  cases thread <;> simp [excludesThread, accounts.excluded]

theorem Accounts.empty_of_stopped (accounts : Accounts config sink exchanges logger)
    (stopped : logger.stopped = true) : logger.inHand = none ∧ logger.queue = [] := by
  obtain ⟨settled, lost, ledger⟩ := accounts.ledger
  exact (unsettled_eq_nil_iff logger).mp (ledger.ended stopped).1

theorem Accounts.isFull_iff (accounts : Accounts config sink exchanges logger) :
    logger.isFull = true ↔ logger.queue.length = config.queueCapacity := by
  obtain ⟨settled, lost, ledger⟩ := accounts.ledger
  have room := ledger.room
  have capacity := accounts.capacity
  simp only [isFull, decide_eq_true_eq]
  omega

theorem Accounts.dropped_iff (accounts : Accounts config sink exchanges logger)
    (thread : Option String) (elapsed : Nat) (entry : LogEntry) :
    (logger.enqueue thread elapsed entry).1 = .dropped ↔
      logger.completed = false ∧
      (∀ name, thread = some name →
        name ∉ config.excludedThreadNames ∧ name ≠ config.consumerThreadName) ∧
      logger.queue.length = config.queueCapacity := by
  have full := accounts.isFull_iff
  rw [← accounts.allowed_iff, ← full]
  obtain ⟨ended, answer⟩ | ⟨ended, listed, answer⟩ | ⟨ended, free, stopped, answer⟩ |
    ⟨ended, free, _, noRoom, answer⟩ | ⟨ended, free, _, room, answer⟩ :=
    enqueue_cases logger thread elapsed entry
  · simp [answer, ended]
  · simp [answer, listed]
  · -- the queue of a consumer that has ended is empty, and never full
    have positive := accounts.positive
    have empty := (accounts.empty_of_stopped stopped).2
    simp only [answer, full, empty, List.length_nil]
    grind
  · simp [answer, ended, free, noRoom]
  · simp [answer, room]

/-- What is true of a log under a configuration after steps that were answered so. -/
structure Delivers (config : Config) (sink : Sink) (exchanges : List LogExchange)
    (logger : Logger) : Prop where
  /-- The sink was given queued entries and nothing else, each once and in their order; the next may
  be in hand, and the others wait. Only when the consumer has ended may there be more, which are
  lost. -/
  inOrder : ∃ lost, queuedEntries exchanges =
      logger.handed ++ logger.inHand.toList ++ entries logger.queue ++ lost ∧
    (logger.stopped = false → lost = [])
  /-- The consumer has ended just if the last write failed with a payload that fails in its turn. -/
  stops : logger.stopped = true ↔ ∃ before entry,
    logger.handed = before ++ [entry] ∧ sink.kills before entry = true
  /-- All other writes it outlived, however they failed. -/
  outlived : ∀ before entry later, logger.handed = before ++ entry :: later → later ≠ [] →
    sink.kills before entry = false
  /-- Nothing waits for a consumer that has ended, and nothing is queued for it any more. -/
  gone : logger.stopped = true → logger.inHand = none ∧ logger.queue = [] ∧
    ∀ thread elapsed entry, (logger.enqueue thread elapsed entry).2 = logger ∧
      ((logger.enqueue thread elapsed entry).1 = .excluded ∨
        (logger.enqueue thread elapsed entry).1 = .completed)
  /-- An entry is dropped for want of room alone. -/
  drops : ∀ thread elapsed entry, (logger.enqueue thread elapsed entry).1 = .dropped ↔
    logger.completed = false ∧
    (∀ name, thread = some name →
      name ∉ config.excludedThreadNames ∧ name ≠ config.consumerThreadName) ∧
    logger.queue.length = config.queueCapacity
  counted : logger.dropped = exchanges.countP LogExchange.isDropped
  /-- Once a flush is acknowledged, all that was queued before its request is handed over. -/
  flushed : ∀ before ticket later,
    exchanges = before ++ ⟨.requestFlush, .requested (some ticket)⟩ :: later →
    ticket ∈ logger.acknowledged → queuedEntries before <+: logger.handed
  completed : logger.completed = true ↔ .shutdown ∈ exchanges.map LogExchange.step
  /-- A shutdown leaves nothing behind if the consumer lives, and nothing is taken after it. -/
  drained : logger.completed = true →
    (logger.stopped = false → logger.handed = queuedEntries exchanges) ∧
    logger.inHand = none ∧ logger.queue = [] ∧
    ∀ thread elapsed entry, logger.enqueue thread elapsed entry = (.completed, logger)

theorem enqueue_of_stopped (stopped : logger.stopped = true) (thread : Option String)
    (elapsed : Nat) (entry : LogEntry) :
    (logger.enqueue thread elapsed entry).2 = logger ∧
      ((logger.enqueue thread elapsed entry).1 = .excluded ∨
        (logger.enqueue thread elapsed entry).1 = .completed) := by
  obtain ⟨_, answer⟩ | ⟨_, _, answer⟩ | ⟨_, _, _, answer⟩ | ⟨_, _, alive, _⟩ |
    ⟨_, _, alive, _⟩ := enqueue_cases logger thread elapsed entry
  · simp [answer]
  · simp [answer]
  · simp [answer]
  · simp [stopped] at alive
  · simp [stopped] at alive

theorem Accounts.delivers (accounts : Accounts config sink exchanges logger) :
    Delivers config sink exchanges logger where
  inOrder := accounts.queuedEntries_eq
  stops := accounts.stopped_iff
  outlived _ _ _ := accounts.outlived
  gone stopped := by
    obtain ⟨free, empty⟩ := accounts.empty_of_stopped stopped
    exact ⟨free, empty, enqueue_of_stopped stopped⟩
  drops := accounts.dropped_iff
  counted := accounts.dropped
  flushed _ _ _ := accounts.flushed
  completed := accounts.completed
  drained ended := by
    obtain ⟨free, empty⟩ := (unsettled_eq_nil_iff logger).mp (accounts.drained ended)
    refine ⟨fun alive => ?_, free, empty, ?_⟩
    · obtain ⟨lost, order, nothing⟩ := accounts.queuedEntries_eq
      simp [order, nothing alive, free, empty]
    · simp [Logger.enqueue, ended]

/-- Whatever producers, the consumer and the owner of a log do, and however its sink fails, it
delivers what it answered for as long as the consumer lives. Failures that the consumer outlives make
no difference. -/
theorem run_delivers (started : start config sink = .ok logger) (steps : List LogStep) :
    (logger.transcript steps).map LogExchange.step = steps ∧
      Delivers config sink (logger.transcript steps) (logger.run steps) ∧
      (sink.Lasting →
        (logger.withSink .steady).transcript steps = logger.transcript steps ∧
        (logger.withSink .steady).run steps = (logger.run steps).withSink .steady) := by
  obtain ⟨accounts, _⟩ := start_accounts started
  exact ⟨transcript_steps logger steps, (accounts.run steps).delivers, fun lasting =>
    run_withSink (accounts.sink.symm ▸ lasting) Sink.steady_lasting steps⟩

/-- A queue of one place: it is full once, a flush goes through it, and a shutdown drains it. The
first write fails, and the consumer goes on. -/
theorem run_delivers_one_place :
    let config : Config := { Config.initial with queueCapacity := 1 }
    let sink : Sink := ⟨fun before _ => if before = [] then some .unnamed else none⟩
    let offer (text : String) : LogStep :=
      .enqueue none 0 (.diagnostic text ⟨0, 0⟩)
    let steps := [offer "a", offer "b", .consume, .requestFlush, offer "c", .consume, .consume,
      .enqueue (some config.consumerThreadName) 0 (.diagnostic "d" ⟨0, 0⟩), offer "e", .shutdown,
      offer "f"]
    ∃ logger, start config sink = .ok logger ∧
      (logger.transcript steps).map LogExchange.answer =
        [.offered .queued, .offered .dropped, .done, .requested (some 0), .offered .dropped, .done,
          .done, .offered .excluded, .offered .queued, .done, .offered .completed] ∧
      (logger.transcript steps).map LogExchange.step = steps ∧
      Delivers config sink (logger.transcript steps) (logger.run steps) := by
  intro config sink offer steps
  obtain ⟨performed, delivers, _⟩ := run_delivers (show start config sink = .ok _ from rfl) steps
  exact ⟨_, rfl, by decide, performed, delivers⟩

/-- Not all that is queued is handed over, whatever the consumer does: after this write the entry
behind it is lost, and the log takes no other, though nobody shut it down. -/
theorem queued_entry_lost :
    let config : Config := { Config.initial with queueCapacity := 2 }
    let sink : Sink := ⟨fun _ _ => some (.relapsing .unnamed)⟩
    let entry (text : String) : LogEntry := .diagnostic text ⟨0, 0⟩
    let steps : List LogStep := [.enqueue none 0 (entry "a"), .enqueue none 0 (entry "b"), .consume,
      .consume, .consume, .consume, .enqueue none 0 (entry "c")]
    ∃ logger, start config sink = .ok logger ∧
      (logger.transcript steps).map LogExchange.answer =
        [.offered .queued, .offered .queued, .done, .done, .done, .done, .offered .completed] ∧
      (logger.run steps).handed = [entry "a"] ∧ (logger.run steps).unsettled = [] ∧
      (logger.run steps).completed = false := by
  intro config sink entry steps
  exact ⟨_, rfl, by decide, by decide, by decide, rfl⟩

end Logger

end CallCapture
