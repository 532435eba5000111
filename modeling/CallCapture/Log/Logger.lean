import CallCapture.Config
import CallCapture.Log.Entry
import CallCapture.Unwinding

/-!
The capture log: producers put entries into a bounded queue without waiting, and one consumer hands
them to a sink. A full queue drops the entry; warnings about that keep an interval between them. A
request to flush takes a place in the queue and is acknowledged when the consumer reaches it.

A sink may fail in a write. The consumer catches that, but what comes of letting go of the payload
nothing catches: it ends the consumer, and the queue with it.
-/

namespace CallCapture

inductive EnqueueOutcome where
  | queued
  | dropped
  | excluded
  | completed
deriving DecidableEq, Repr

def EnqueueOutcome.name : EnqueueOutcome → String
  | .queued => "Queued"
  | .dropped => "Dropped"
  | .excluded => "Excluded"
  | .completed => "Completed"

inductive LogMessage where
  | entry (entry : LogEntry)
  | flush (ticket : Nat)
deriving DecidableEq, Repr

/-- The failure of a write, if there is one, given the entries that the sink was handed before. -/
structure Sink where
  failure? : List LogEntry → LogEntry → Option Payload

namespace Sink

/-- A sink whose writes do not fail. -/
def steady : Sink :=
  ⟨fun _ _ => none⟩

/-- Whether a write ends the consumer: its failure has a payload that fails in its turn. -/
def kills (sink : Sink) (before : List LogEntry) (entry : LogEntry) : Bool :=
  ((sink.failure? before entry).bind Payload.relapse?).isSome

/-- No write ends the consumer, whether it fails or not. -/
def Lasting (sink : Sink) : Prop :=
  ∀ before entry, sink.kills before entry = false

end Sink

structure Logger where
  sink : Sink
  capacity : Nat
  excludedThreads : List String
  /-- Whole milliseconds between warnings, kept in 64 bits. -/
  warningInterval : UInt64
  queue : List LogMessage
  /-- The entry that the sink is writing. -/
  inHand : Option LogEntry
  /-- What the sink was given and is done with, in order. -/
  handed : List LogEntry
  /-- The consumer's thread was left by a failure. -/
  stopped : Bool
  completed : Bool
  dropped : Nat
  /-- Milliseconds at the last warning, or `neverWarned`. -/
  lastWarning : UInt64
  /-- The number of dropped entries that each warning told. -/
  warnings : List Nat
  nextTicket : Nat
  acknowledged : List Nat
  sinkFlushes : Nat

namespace Logger

/-- The time that stands for no warning so far. -/
def neverWarned : UInt64 := 0xFFFFFFFFFFFFFFFF

def dropWarning : String := "capture log queue is full, entries are being dropped"

def dropWarningLevel : String := "WARN"

/-- A running logger; the consumer's own thread never produces entries. -/
def start (config : Config) (sink : Sink) : Except Error Logger :=
  config.validate.map fun _ =>
    let listed := config.excludedThreadNames
    { sink := sink
      capacity := config.queueCapacity
      excludedThreads :=
        if listed.contains config.consumerThreadName then listed
        else listed ++ [config.consumerThreadName]
      warningInterval := UInt64.ofNat config.dropWarningInterval.milliseconds
      queue := []
      inHand := none
      handed := []
      stopped := false
      completed := false
      dropped := 0
      lastWarning := neverWarned
      warnings := []
      nextTicket := 0
      acknowledged := []
      sinkFlushes := 0 }

def excludesThread (logger : Logger) (name : String) : Bool :=
  logger.excludedThreads.contains name

def isFull (logger : Logger) : Bool :=
  logger.capacity ≤ logger.queue.length

/-- Whether a drop at a time, in milliseconds since the start, is worth a warning. -/
def warnsAt (logger : Logger) (elapsed : UInt64) : Bool :=
  logger.lastWarning == neverWarned ||
    logger.warningInterval.toNat ≤ elapsed.toNat - logger.lastWarning.toNat

/-- Counts a dropped entry, and warns unless the last warning is too recent. -/
def drop (logger : Logger) (elapsed : Nat) : Logger :=
  let now := UInt64.ofNat elapsed
  let counted := { logger with dropped := logger.dropped + 1 }
  if logger.warnsAt now then
    { counted with
      lastWarning := now
      warnings := logger.warnings ++ [counted.dropped] }
  else counted

/-- Offers an entry from a thread, whose name may be unknown, at a time in milliseconds. -/
def enqueue (logger : Logger) (thread : Option String) (elapsed : Nat) (entry : LogEntry) :
    EnqueueOutcome × Logger :=
  if logger.completed then (.completed, logger)
  else if thread.any logger.excludesThread then (.excluded, logger)
  else if logger.stopped then (.completed, logger)
  else if logger.isFull then (.dropped, logger.drop elapsed)
  else (.queued, { logger with queue := logger.queue ++ [.entry entry] })

/-- The sink is given an entry, and perhaps fails at it. -/
def write (entry : LogEntry) : Part Logger := fun logger =>
  (.of (logger.sink.failure? logger.handed entry),
    { logger with handed := logger.handed ++ [entry] })

/-- Writes an entry on the calling thread, which a failure of the sink reaches. -/
def logInline (entry : LogEntry) : Part Logger :=
  write entry

/-- The consumer's thread is over. What waits in the queue is gone with it. -/
def abandon (logger : Logger) : Logger :=
  { logger with stopped := true, queue := [] }

/-- One step of the consumer: it finishes the entry in hand, or else takes the next message. -/
def consume (logger : Logger) : Logger :=
  match logger.inHand with
  | some entry =>
      match Part.caught (fun _ logger => logger) (write entry) { logger with inHand := none } with
      | (.returned, next) => next
      | (.unwinding _, next) => next.abandon
  | none =>
      match logger.queue with
      | [] => logger
      | .entry entry :: rest => { logger with inHand := some entry, queue := rest }
      | .flush ticket :: rest =>
          { logger with
            queue := rest
            sinkFlushes := logger.sinkFlushes + 1
            acknowledged := ticket :: logger.acknowledged }

/-- At most `fuel` steps of the consumer, which waits for a sink that is stalled in a write. -/
def settleWithin (stalled : Bool) : Nat → Logger → Logger
  | 0, logger => logger
  | fuel + 1, logger =>
      if stalled && logger.inHand.isSome then logger else settleWithin stalled fuel logger.consume

/-- Lets the consumer go on until nothing is left or the sink stalls. -/
def settle (stalled : Bool) (logger : Logger) : Logger :=
  settleWithin stalled (2 * logger.queue.length + 1) logger

/-- Puts a request to flush into the queue, if there is room. -/
def requestFlush (logger : Logger) : Option Nat × Logger :=
  if logger.completed || logger.stopped || logger.isFull then (none, logger)
  else
    (some logger.nextTicket,
      { logger with
        queue := logger.queue ++ [.flush logger.nextTicket]
        nextTicket := logger.nextTicket + 1 })

/-- Waits until a full queue has room, or gives up where the consumer stalls. -/
def awaitRoom (stalled : Bool) (logger : Logger) : Logger :=
  if logger.isFull then logger.settle stalled else logger

/-- Waits until all that was queued before is handed over, or gives up where the consumer stalls. -/
def flush (stalled : Bool) (logger : Logger) : Except Error Unit × Logger :=
  if logger.completed then (.error .channelClosed, logger)
  else
    let (ticket, requested) := (logger.awaitRoom stalled).requestFlush
    let settled := requested.settle stalled
    if ticket.any settled.acknowledged.contains then (.ok (), settled)
    else (.error .channelClosed, settled)

/-- Completes the queue, drains it and flushes the sink, once. -/
def shutdown (logger : Logger) : Logger :=
  if logger.completed then logger
  else
    let drained := { logger with completed := true }.settle false
    { drained with sinkFlushes := drained.sinkFlushes + 1 }

end Logger

end CallCapture
