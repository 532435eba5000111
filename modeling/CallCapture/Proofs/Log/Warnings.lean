import CallCapture.Proofs.Log.Delivery

/-!
Warnings about dropped entries. A log warns of a drop unless its last warning is too recent. It
keeps its interval and its times in 64 bits, so that the interval between warnings is the remainder
of the configured one, and the last time that fits stands for no warning.
-/

namespace CallCapture

/-- When an entry was dropped, and the number that a warning told about it, if there was one. -/
structure DropRecord where
  elapsed : Nat
  told : Option Nat
deriving DecidableEq, Repr

namespace DropRecord

variable {interval limit : Nat} {before after drops : List DropRecord} {drop last : DropRecord}

def warns (drop : DropRecord) : Bool :=
  drop.told.isSome

def lastWarned? (drops : List DropRecord) : Option DropRecord :=
  (drops.filter warns).getLast?

@[simp] theorem lastWarned?_nil : lastWarned? [] = none := rfl

theorem lastWarned?_snoc (drops : List DropRecord) (drop : DropRecord) :
    lastWarned? (drops ++ [drop]) = if drop.warns then some drop else lastWarned? drops := by
  cases warned : drop.warns <;> simp [lastWarned?, warned]

theorem mem_of_lastWarned? (found : last ∈ lastWarned? drops) : last ∈ drops :=
  (List.mem_filter.mp (List.mem_of_getLast? found)).1

/-- The drops come one after another, all before a time. -/
structure Timely (limit : Nat) (drops : List DropRecord) : Prop where
  ordered : drops.Pairwise fun earlier later => earlier.elapsed ≤ later.elapsed
  below : ∀ drop ∈ drops, drop.elapsed < limit

theorem Timely.mono (timely : Timely limit drops) {later : Nat} (within : limit ≤ later) :
    Timely later drops :=
  ⟨timely.ordered, fun drop member => Nat.lt_of_lt_of_le (timely.below drop member) within⟩

theorem Timely.last_le (timely : Timely limit (before ++ drop :: after))
    (found : last ∈ lastWarned? before) : last.elapsed ≤ drop.elapsed :=
  (List.pairwise_append.mp timely.ordered).2.2 last (mem_of_lastWarned? found) drop
    List.mem_cons_self

theorem Timely.drop_lt (timely : Timely limit (before ++ drop :: after)) :
    drop.elapsed < limit :=
  timely.below drop (by simp)

/-- What an interval between warnings asks of a drop after others. -/
structure Regular (interval : Nat) (before : List DropRecord) (drop : DropRecord) : Prop where
  first : before = [] → drop.warns
  apart : drop.warns → ∀ last ∈ lastWarned? before, last.elapsed + interval ≤ drop.elapsed
  due : ∀ last ∈ lastWarned? before, last.elapsed + interval ≤ drop.elapsed → drop.warns
  told : ∀ number ∈ drop.told, number = before.length + 1

theorem Regular.of_warns_iff
    (warns : drop.warns ↔ ∀ last ∈ lastWarned? before, last.elapsed + interval ≤ drop.elapsed)
    (told : ∀ number ∈ drop.told, number = before.length + 1) : Regular interval before drop where
  first initial := warns.mpr (by simp [initial])
  apart := warns.mp
  due last found passed := warns.mpr fun _ other => Option.mem_unique found other ▸ passed
  told := told

def RateLimited (interval : Nat) (drops : List DropRecord) : Prop :=
  Throughout (Regular interval) drops

end DropRecord

open DropRecord (lastWarned? Timely Regular RateLimited)

namespace Logger

variable {config : Config} {sink : Sink} {logger : Logger} {limit : Nat}
  {before after history : List DropRecord} {drop : DropRecord}

/-- What a step drops. Its warning is what the step adds to the warnings. -/
def dropOf? (logger : Logger) : LogStep → Option DropRecord
  | .enqueue thread elapsed entry =>
      let (outcome, next) := logger.enqueue thread elapsed entry
      if outcome = .dropped then
        some ⟨elapsed, (next.warnings.drop logger.warnings.length).head?⟩
      else none
  | _ => none

def drops : Logger → List LogStep → List DropRecord
  | _, [] => []
  | logger, step :: rest => (logger.dropOf? step).toList ++ drops (logger.perform step).2 rest

theorem drops_append (logger : Logger) (first second : List LogStep) :
    logger.drops (first ++ second) = logger.drops first ++ (logger.run first).drops second := by
  induction first generalizing logger with
  | nil => rfl
  | cons step rest ih => simp only [List.cons_append, drops, run_cons, ih, List.append_assoc]

/-! ### What one step does -/

theorem requestFlush_sameDrops (logger : Logger) : SameDrops logger logger.requestFlush.2 := by
  obtain answer | ⟨_, _, _, answer⟩ := requestFlush_cases logger <;> rw [answer] <;>
    exact ⟨rfl, rfl, rfl, rfl⟩

/-- What becomes of a drop at a time. -/
def recordAt (logger : Logger) (elapsed : Nat) : DropRecord :=
  ⟨elapsed, if logger.warnsAt (UInt64.ofNat elapsed) then some (logger.dropped + 1) else none⟩

@[simp] theorem recordAt_elapsed (logger : Logger) (elapsed : Nat) :
    (logger.recordAt elapsed).elapsed = elapsed := rfl

theorem recordAt_warns (logger : Logger) (elapsed : Nat) :
    (logger.recordAt elapsed).warns = logger.warnsAt (UInt64.ofNat elapsed) := by
  cases due : logger.warnsAt (UInt64.ofNat elapsed) <;> simp [recordAt, DropRecord.warns, due]

theorem dropOf?_of_dropped {thread : Option String} {elapsed : Nat} {entry : LogEntry}
    (answer : logger.enqueue thread elapsed entry = (.dropped, logger.drop elapsed)) :
    logger.dropOf? (.enqueue thread elapsed entry) = some (logger.recordAt elapsed) := by
  obtain ⟨due, counted⟩ | ⟨due, counted⟩ := drop_cases logger elapsed
  · simp [dropOf?, answer, counted, recordAt, due]
  · simp [dropOf?, answer, counted, recordAt, due]

theorem perform_drops (logger : Logger) (step : LogStep) :
    (logger.dropOf? step = none ∧ SameDrops logger (logger.perform step).2) ∨
    (∃ elapsed, logger.dropOf? step = some (logger.recordAt elapsed) ∧
      (logger.perform step).2 = logger.drop elapsed) := by
  cases step with
  | enqueue thread elapsed entry =>
      obtain ⟨_, answer⟩ | ⟨_, _, answer⟩ | ⟨_, _, _, answer⟩ | ⟨_, _, _, _, answer⟩ |
        ⟨_, _, _, _, answer⟩ := enqueue_cases logger thread elapsed entry
      · exact .inl ⟨by simp [dropOf?, answer], by simp [perform, answer, SameDrops.refl]⟩
      · exact .inl ⟨by simp [dropOf?, answer], by simp [perform, answer, SameDrops.refl]⟩
      · exact .inl ⟨by simp [dropOf?, answer], by simp [perform, answer, SameDrops.refl]⟩
      · exact .inr ⟨elapsed, dropOf?_of_dropped answer, by simp only [perform, answer]⟩
      · refine .inl ⟨by simp [dropOf?, answer], ?_⟩
        simp only [perform, answer]
        exact ⟨rfl, rfl, rfl, rfl⟩
  | consume => exact .inl ⟨rfl, (consume_sameProducers logger).toSameDrops⟩
  | requestFlush => exact .inl ⟨rfl, requestFlush_sameDrops logger⟩
  | shutdown => exact .inl ⟨rfl, (shutdown_frame logger).1⟩

/-- What a log knows about the drops so far. -/
structure Remembers (config : Config) (history : List DropRecord) (logger : Logger) : Prop where
  interval : logger.warningInterval = UInt64.ofNat config.dropWarningInterval.milliseconds
  dropped : logger.dropped = history.length
  warnings : logger.warnings = history.filterMap DropRecord.told
  lastWarning : logger.lastWarning =
    ((lastWarned? history).map fun last => UInt64.ofNat last.elapsed).getD neverWarned

/-- What a log decides about a drop after others. -/
structure Decided (config : Config) (before : List DropRecord) (drop : DropRecord) : Prop where
  warns : drop.warns ↔ ∀ last ∈ lastWarned? before, UInt64.ofNat last.elapsed = neverWarned ∨
    config.dropWarningInterval.milliseconds % UInt64.size ≤
      drop.elapsed % UInt64.size - last.elapsed % UInt64.size
  told : ∀ number ∈ drop.told, number = before.length + 1

theorem start_remembers (started : start config sink = .ok logger) : Remembers config [] logger := by
  unfold start at started
  cases valid : config.validate with
  | error error => simp [valid, Except.map] at started
  | ok done =>
      rw [valid] at started
      cases started
      exact ⟨rfl, rfl, rfl, rfl⟩

theorem Remembers.of_sameDrops {later : Logger} (remembers : Remembers config history logger)
    (same : SameDrops logger later) : Remembers config history later :=
  ⟨same.interval.trans remembers.interval, same.dropped.trans remembers.dropped,
    same.warnings.trans remembers.warnings, same.lastWarning.trans remembers.lastWarning⟩

theorem Remembers.dropAt (remembers : Remembers config history logger) (elapsed : Nat) :
    Remembers config (history ++ [logger.recordAt elapsed]) (logger.drop elapsed) := by
  obtain ⟨interval, dropped, warnings, lastWarning⟩ := remembers
  obtain ⟨due, counted⟩ | ⟨due, counted⟩ := drop_cases logger elapsed <;> rw [counted]
  · refine ⟨interval, ?_, ?_, ?_⟩
    · simp [dropped]
    · simp [warnings, recordAt, due]
    · simp [DropRecord.lastWarned?_snoc, recordAt_warns, due]
  · refine ⟨interval, ?_, ?_, ?_⟩
    · simp [dropped]
    · simp [warnings, recordAt, due]
    · simp [DropRecord.lastWarned?_snoc, recordAt_warns, due, lastWarning]

theorem Remembers.decided (remembers : Remembers config history logger) (elapsed : Nat) :
    Decided config history (logger.recordAt elapsed) := by
  obtain ⟨interval, dropped, _, lastWarning⟩ := remembers
  constructor
  · rw [recordAt_warns]
    cases found : lastWarned? history with
    | none => simp [warnsAt, lastWarning, found]
    | some last => simp [warnsAt, lastWarning, found, interval, recordAt, UInt64.size]
  · intro number told
    rw [recordAt, Option.mem_def, Option.ite_none_right_eq_some] at told
    rw [← dropped, ← Option.some.inj told.2]

theorem Remembers.run (remembers : Remembers config history logger)
    (decided : Throughout (Decided config) history) (steps : List LogStep) :
    Remembers config (history ++ logger.drops steps) (logger.run steps) ∧
      Throughout (Decided config) (history ++ logger.drops steps) := by
  induction steps generalizing logger history with
  | nil => simpa only [drops, run_nil, List.append_nil] using ⟨remembers, decided⟩
  | cons step rest ih =>
      obtain ⟨nothing, same⟩ | ⟨elapsed, dropped, next⟩ := perform_drops logger step
      · simpa only [drops, run_cons, nothing, Option.toList, List.nil_append] using
          ih (remembers.of_sameDrops same) decided
      · have later := ih (remembers.dropAt elapsed) (decided.snoc (remembers.decided elapsed))
        simpa only [drops, run_cons, dropped, next, Option.toList, List.append_assoc] using later

/-! ### What a run tells -/

theorem ofNat_eq_neverWarned_iff (elapsed : Nat) :
    UInt64.ofNat elapsed = neverWarned ↔ elapsed % UInt64.size = UInt64.size - 1 := by
  rw [← UInt64.toNat_inj, UInt64.toNat_ofNat']
  rfl

/-- Times that are all below the last one that fits are told apart from no warning. -/
theorem Decided.warns_iff (decided : Decided config before drop)
    (timely : Timely (UInt64.size - 1) (before ++ drop :: after)) :
    drop.warns ↔ ∀ last ∈ lastWarned? before,
      last.elapsed + config.dropWarningInterval.milliseconds % UInt64.size ≤ drop.elapsed := by
  rw [decided.warns]
  refine forall₂_congr fun last found => ?_
  have below := timely.drop_lt
  have earlier := timely.last_le found
  have fits : drop.elapsed % UInt64.size = drop.elapsed := Nat.mod_eq_of_lt (by omega)
  have lastFits : last.elapsed % UInt64.size = last.elapsed := Nat.mod_eq_of_lt (by omega)
  rw [ofNat_eq_neverWarned_iff, fits, lastFits]
  omega

theorem rateLimited_remainder (decided : Throughout (Decided config) history)
    (timely : Timely (UInt64.size - 1) history) :
    RateLimited (config.dropWarningInterval.milliseconds % UInt64.size) history := by
  rintro before drop after rfl
  have made := decided before drop after rfl
  exact .of_warns_iff (made.warns_iff timely) made.told

theorem rateLimited_of_zero (always : config.dropWarningInterval.milliseconds = 0)
    (decided : Throughout (Decided config) history) (timely : Timely limit history) :
    RateLimited config.dropWarningInterval.milliseconds history := by
  rintro before drop after rfl
  have made := decided before drop after rfl
  refine .of_warns_iff (iff_of_true ?_ ?_) made.told
  · exact made.warns.mpr fun last _ => .inr (by simp [always])
  · intro last found
    simpa [always] using timely.last_le found

/-- Before the remainder of its interval is over, a log warns of the first drop alone. -/
theorem rateLimited_of_le_remainder
    (within : limit ≤ config.dropWarningInterval.milliseconds % UInt64.size)
    (decided : Throughout (Decided config) history) (timely : Timely limit history) :
    RateLimited config.dropWarningInterval.milliseconds history := by
  rintro before drop after rfl
  have made := decided before drop after rfl
  have below := timely.drop_lt
  have less := Nat.mod_le config.dropWarningInterval.milliseconds UInt64.size
  have fits := Nat.mod_lt config.dropWarningInterval.milliseconds (show 0 < UInt64.size by decide)
  refine .of_warns_iff ((made.warns_iff (timely.mono (by omega))).trans ?_) made.told
  exact forall₂_congr fun last _ => by omega

theorem apart_of_pair {first second : DropRecord} {interval : Nat}
    (decided : Throughout (Decided config) [first, second])
    (limited : RateLimited interval [first, second])
    (due : UInt64.ofNat first.elapsed = neverWarned ∨
      config.dropWarningInterval.milliseconds % UInt64.size ≤
        second.elapsed % UInt64.size - first.elapsed % UInt64.size) :
    first.elapsed + interval ≤ second.elapsed := by
  have warned : first.warns := (decided [] first [second] rfl).warns.mpr (by simp)
  have found : lastWarned? [first] = some first := by simp [lastWarned?, warned]
  have again : second.warns :=
    (decided [first] second [] rfl).warns.mpr (by simpa [found] using due)
  exact (limited [first] second [] rfl).apart again first found

/-! ### Runs that drop at given times -/

theorem exists_filling (entry : LogEntry) {count : Nat} (running : logger.completed = false)
    (going : logger.stopped = false) (room : logger.capacity = logger.queue.length + count) :
    ∃ steps, logger.drops steps = [] ∧ (logger.run steps).completed = false ∧
      (logger.run steps).stopped = false ∧ (logger.run steps).isFull = true := by
  induction count generalizing logger with
  | zero => exact ⟨[], rfl, running, going, by simp [isFull, room]⟩
  | succ count ih =>
      have notFull : logger.isFull = false := by simp [isFull, room]
      let fuller : Logger := { logger with queue := logger.queue ++ [.entry entry] }
      have answer : logger.enqueue none 0 entry = (.queued, fuller) := by
        simp [enqueue, running, going, notFull, fuller]
      obtain ⟨steps, nothing, goesOn, lives, full⟩ := @ih fuller running going (by
        simp only [fuller, room, List.length_append, List.length_singleton]
        omega)
      refine ⟨.enqueue none 0 entry :: steps, ?_, ?_, ?_, ?_⟩
      · simpa [drops, dropOf?, perform, answer] using nothing
      · simpa [perform, answer] using goesOn
      · simpa [perform, answer] using lives
      · simpa [perform, answer] using full

theorem drops_of_full (entry : LogEntry) (times : List Nat) (running : logger.completed = false)
    (going : logger.stopped = false) (full : logger.isFull = true) :
    (logger.drops (times.map fun elapsed => .enqueue none elapsed entry)).map
      DropRecord.elapsed = times := by
  induction times generalizing logger with
  | nil => rfl
  | cons elapsed rest ih =>
      have answer : logger.enqueue none elapsed entry = (.dropped, logger.drop elapsed) := by
        simp [enqueue, running, going, full]
      obtain ⟨_, _, counted⟩ := drop_eq logger elapsed
      have later := @ih (logger.drop elapsed) (by rw [counted]; exact running)
        (by rw [counted]; exact going) (by rw [counted]; exact full)
      simp [drops, dropOf?_of_dropped answer, perform, answer, later]

theorem start_drops (started : start config sink = .ok logger) (times : List Nat) :
    ∃ steps, (logger.drops steps).map DropRecord.elapsed = times := by
  let entry : LogEntry := .diagnostic "" ⟨0, 0⟩
  obtain ⟨accounts, going⟩ := start_accounts started
  have running : logger.completed = false := by simpa using accounts.completed
  obtain ⟨settled, lost, ledger⟩ := accounts.ledger
  obtain ⟨count, room⟩ := Nat.exists_eq_add_of_le ledger.room
  obtain ⟨filling, nothing, goesOn, lives, full⟩ := exists_filling entry running going room
  refine ⟨filling ++ times.map fun elapsed => .enqueue none elapsed entry, ?_⟩
  rw [drops_append, nothing, List.nil_append]
  exact drops_of_full entry times goesOn lives full

/-! ### How far the configured interval is kept -/

/-- What the warnings of a log are under a configuration, whatever steps are taken. -/
structure WarnsOfDrops (config : Config) (logger : Logger) : Prop where
  /-- The warnings are those about the drops, in their order, and every drop is counted. -/
  told : ∀ steps, (logger.run steps).warnings = (logger.drops steps).filterMap DropRecord.told ∧
    (logger.run steps).dropped = (logger.drops steps).length
  /-- Entries may be dropped at any times. -/
  anyTimes : ∀ times, ∃ steps, (logger.drops steps).map DropRecord.elapsed = times
  /-- Warnings are limited by what 64 bits hold of the interval. -/
  limited : ∀ steps, Timely (UInt64.size - 1) (logger.drops steps) →
    RateLimited (config.dropWarningInterval.milliseconds % UInt64.size) (logger.drops steps)
  /-- Among drops before a time they are limited by the interval itself in these cases only: there
  is no interval to keep, or the time fits in 64 bits and the interval either fits as well or leaves
  a remainder that is not over before the time. -/
  limited_iff : ∀ limit,
    ((∀ steps, Timely limit (logger.drops steps) →
      RateLimited config.dropWarningInterval.milliseconds (logger.drops steps)) ↔
    config.dropWarningInterval.milliseconds = 0 ∨
      limit < UInt64.size ∧ (config.dropWarningInterval.milliseconds < UInt64.size ∨
        limit ≤ config.dropWarningInterval.milliseconds % UInt64.size))

theorem start_decided (started : start config sink = .ok logger) (steps : List LogStep) :
    Throughout (Decided config) (logger.drops steps) :=
  ((start_remembers started).run (throughout_nil _) steps).2

/-- If a log is limited by an interval and warns of a second drop, it came that long after. -/
theorem apart_of_limited {interval first second : Nat} (started : start config sink = .ok logger)
    (limited : ∀ steps, Timely limit (logger.drops steps) →
      RateLimited interval (logger.drops steps))
    (ordered : first ≤ second) (below : second < limit)
    (due : UInt64.ofNat first = neverWarned ∨
      config.dropWarningInterval.milliseconds % UInt64.size ≤
        second % UInt64.size - first % UInt64.size) :
    first + interval ≤ second := by
  obtain ⟨steps, times⟩ := start_drops started [first, second]
  have decided := start_decided started steps
  have limited := limited steps
  obtain ⟨one, rest, split, rfl, others⟩ := List.map_eq_cons_iff.mp times
  obtain ⟨two, more, rfl, rfl, empty⟩ := List.map_eq_cons_iff.mp others
  cases List.map_eq_nil_iff.mp empty
  rw [split] at decided limited
  exact apart_of_pair decided (limited ⟨by simpa using ordered, by simp; omega⟩) due

/-- A warning at the last time that fits is taken for none. -/
theorem fits_of_limited {interval : Nat} (started : start config sink = .ok logger)
    (limited : ∀ steps, Timely limit (logger.drops steps) →
      RateLimited interval (logger.drops steps)) : interval = 0 ∨ limit < UInt64.size := by
  obtain fits | big := Nat.lt_or_ge limit UInt64.size
  · exact .inr fits
  · have apart := apart_of_limited started limited (Nat.le_refl (UInt64.size - 1))
      (Nat.lt_of_lt_of_le (by decide) big) (.inl rfl)
    exact .inl (by omega)

theorem within_of_limited {interval : Nat} (started : start config sink = .ok logger)
    (limited : ∀ steps, Timely limit (logger.drops steps) →
      RateLimited interval (logger.drops steps)) :
    limit ≤ config.dropWarningInterval.milliseconds % UInt64.size ∨
      interval ≤ config.dropWarningInterval.milliseconds % UInt64.size := by
  obtain past | within :=
    Nat.lt_or_ge (config.dropWarningInterval.milliseconds % UInt64.size) limit
  · have apart := apart_of_limited started limited (Nat.zero_le _) past (.inr (by simp))
    exact .inr (by omega)
  · exact .inl within

theorem limited_iff (started : start config sink = .ok logger) :
    (∀ steps, Timely limit (logger.drops steps) →
      RateLimited config.dropWarningInterval.milliseconds (logger.drops steps)) ↔
    config.dropWarningInterval.milliseconds = 0 ∨
      limit < UInt64.size ∧ (config.dropWarningInterval.milliseconds < UInt64.size ∨
        limit ≤ config.dropWarningInterval.milliseconds % UInt64.size) := by
  have remainder := Nat.mod_lt config.dropWarningInterval.milliseconds
    (show 0 < UInt64.size by decide)
  constructor
  · intro limited
    have fits := fits_of_limited started limited
    have within := within_of_limited started limited
    omega
  · rintro (always | ⟨fits, short | within⟩) steps timely
    · exact rateLimited_of_zero always (start_decided started steps) timely
    · have kept := rateLimited_remainder (start_decided started steps) (timely.mono (by omega))
      rwa [Nat.mod_eq_of_lt short] at kept
    · exact rateLimited_of_le_remainder within (start_decided started steps) timely

/-- A running log warns of its drops so, whatever producers, the consumer, the owner and the sink
do. -/
theorem start_warnsOfDrops (started : start config sink = .ok logger) :
    WarnsOfDrops config logger where
  told steps := by
    obtain ⟨remembers, _⟩ := (start_remembers started).run (throughout_nil _) steps
    exact ⟨remembers.warnings, remembers.dropped⟩
  anyTimes := start_drops started
  limited steps := rateLimited_remainder (start_decided started steps)
  limited_iff _ := limited_iff started

/-- Ten seconds between warnings: a drop that comes too soon is told together with the next one. -/
theorem start_warnsOfDrops_ten_seconds :
    let config : Config := { Config.initial with queueCapacity := 1 }
    let offer (elapsed : Nat) : LogStep := .enqueue none elapsed (.diagnostic "a" ⟨0, 0⟩)
    ∃ logger, start config .steady = .ok logger ∧
      logger.drops [offer 0, offer 5, offer 10004, offer 10005] =
        [⟨5, some 1⟩, ⟨10004, none⟩, ⟨10005, some 3⟩] ∧
      WarnsOfDrops config logger := by
  intro config offer
  obtain ⟨logger, started⟩ : ∃ logger, start config .steady = .ok logger := ⟨_, rfl⟩
  refine ⟨logger, started, ?_, start_warnsOfDrops started⟩
  cases started
  decide

/-- This interval has 125 times as many milliseconds as 64 bits can count, so that nothing is left of
it: two drops at one time are both told. -/
theorem whole_multiple_unlimited :
    let config : Config :=
      { Config.initial with queueCapacity := 1, dropWarningInterval := .ofSeconds (UInt64.size / 8) }
    let offer : LogStep := .enqueue none 0 (.diagnostic "a" ⟨0, 0⟩)
    config.dropWarningInterval.seconds < Duration.secondsBound ∧
    ∃ logger, start config .steady = .ok logger ∧
      logger.drops [offer, offer, offer] = [⟨0, some 1⟩, ⟨0, some 2⟩] ∧
      Timely 1 (logger.drops [offer, offer, offer]) ∧
      ¬ RateLimited config.dropWarningInterval.milliseconds (logger.drops [offer, offer, offer]) := by
  intro config offer
  refine ⟨by decide, _, rfl, by decide, ⟨by decide, by decide⟩, fun limited => ?_⟩
  have apart := (limited [⟨0, some 1⟩] ⟨0, some 2⟩ [] (by decide)).apart rfl _ rfl
  revert apart
  decide

end Logger

end CallCapture
