import CallCapture.Proofs.Log.Draining
import CallCapture.Proofs.Log.Offering

/-!
Sinks whose failures the consumer outlives. A log goes on with such a sink as with one that does not
fail at all: the writes that fail are over like the others.
-/

namespace CallCapture

theorem Sink.steady_lasting : Sink.steady.Lasting :=
  fun _ _ => rfl

/-- Holds of every member of a list, together with the members before it. -/
def Throughout {α : Type} (holds : List α → α → Prop) (members : List α) : Prop :=
  ∀ before member after, members = before ++ member :: after → holds before member

theorem throughout_nil {α : Type} (holds : List α → α → Prop) : Throughout holds [] :=
  fun _ _ _ split => absurd split (by simp)

theorem Throughout.snoc {α : Type} {holds : List α → α → Prop} {members : List α} {member : α}
    (throughout : Throughout holds members) (next : holds members member) :
    Throughout holds (members ++ [member]) := by
  intro before other after split
  obtain rfl | ⟨shorter, latest, rfl⟩ := List.eq_nil_or_concat after
  · obtain ⟨rfl, same⟩ := List.append_inj' split rfl
    cases same
    exact next
  · rw [List.concat_eq_append, ← List.cons_append, ← List.append_assoc] at split
    exact throughout before other shorter (List.append_inj' split rfl).1

/-- The consumer outlived all writes of these entries. -/
def Sink.Survived (sink : Sink) (handed : List LogEntry) : Prop :=
  Throughout (fun before entry => sink.kills before entry = false) handed

namespace Logger

variable {logger : Logger} {sink : Sink}

def withSink (logger : Logger) (sink : Sink) : Logger :=
  { logger with sink := sink }

theorem consume_of_inHand {entry : LogEntry} (lasting : logger.sink.Lasting)
    (held : logger.inHand = some entry) :
    logger.consume = { logger with inHand := none, handed := logger.handed ++ [entry] } := by
  obtain ⟨_, step⟩ | ⟨kills, _⟩ := consume_inHand held
  · exact step
  · rw [lasting] at kills
    contradiction

theorem consume_stopped (lasting : logger.sink.Lasting) :
    logger.consume.stopped = logger.stopped := by
  obtain ⟨_, step⟩ | ⟨_, _, _, step⟩ | ⟨entry, _, kills, _⟩ | ⟨_, _, _, _, step⟩ |
    ⟨_, _, _, _, step⟩ := consume_cases logger
  · rw [step]
  · rw [step]
  · rw [lasting] at kills
    contradiction
  · rw [step]
  · rw [step]

theorem consume_withSink (lasting : logger.sink.Lasting) (others : sink.Lasting) :
    (logger.withSink sink).consume = logger.consume.withSink sink := by
  cases held : logger.inHand with
  | some entry =>
      have changed : (logger.withSink sink).inHand = some entry := held
      rw [consume_of_inHand lasting held, consume_of_inHand others changed]
      rfl
  | none =>
      match waiting : logger.queue with
      | [] => simp only [consume, withSink, held, waiting]
      | .entry _ :: _ => simp only [consume, withSink, held, waiting]
      | .flush _ :: _ => simp only [consume, withSink, held, waiting]

theorem settleWithin_withSink (lasting : logger.sink.Lasting) (others : sink.Lasting)
    (stalled : Bool) (fuel : Nat) :
    settleWithin stalled fuel (logger.withSink sink) =
      (settleWithin stalled fuel logger).withSink sink := by
  induction fuel generalizing logger with
  | zero => rfl
  | succ fuel ih =>
      have next := @ih logger.consume ((consume_sameProducers logger).sink ▸ lasting)
      simp only [settleWithin, consume_withSink lasting others, next]
      exact (apply_ite (withSink · sink) _ _ _).symm

theorem enqueue_withSink (logger : Logger) (sink : Sink) (thread : Option String) (elapsed : Nat)
    (entry : LogEntry) :
    (logger.withSink sink).enqueue thread elapsed entry =
      (logger.enqueue thread elapsed entry).map id (withSink · sink) := by
  have dropped : (logger.withSink sink).drop elapsed = (logger.drop elapsed).withSink sink := by
    obtain ⟨due, counted⟩ | ⟨due, counted⟩ := drop_cases logger elapsed <;> rw [counted]
    · exact if_pos due
    · exact if_neg (Bool.eq_false_iff.mp due)
  unfold enqueue
  rw [dropped]
  simp only [apply_ite (Prod.map id (withSink · sink)), Prod.map_apply, id]
  rfl

theorem requestFlush_withSink (logger : Logger) (sink : Sink) :
    (logger.withSink sink).requestFlush = logger.requestFlush.map id (withSink · sink) := by
  unfold requestFlush
  simp only [apply_ite (Prod.map id (withSink · sink)), Prod.map_apply, id]
  rfl

theorem shutdown_withSink (lasting : logger.sink.Lasting) (others : sink.Lasting) :
    (logger.withSink sink).shutdown = logger.shutdown.withSink sink := by
  cases ended : logger.completed with
  | true =>
      have same : (logger.withSink sink).completed = true := ended
      rw [shutdown, shutdown, if_pos ended, if_pos same]
  | false =>
      have same : ¬ (logger.withSink sink).completed = true := Bool.eq_false_iff.mp ended
      have settled := @settleWithin_withSink { logger with completed := true } sink lasting others
        false (2 * logger.queue.length + 1)
      rw [shutdown, shutdown, if_neg (Bool.eq_false_iff.mp ended), if_neg same]
      exact congrArg (fun log => { log with sinkFlushes := log.sinkFlushes + 1 }) settled

end Logger

end CallCapture
