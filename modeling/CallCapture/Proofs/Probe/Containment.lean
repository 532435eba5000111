import CallCapture.Probe.Unwinding
import CallCapture.Proofs.Event.Listening
import CallCapture.Proofs.Probe.Reentrancy
import Mathlib.Data.List.Induction

/-!
Handlers that fail. Each invocation that a handler is registered for runs that handler once, and
failures are counted and published one by one, whatever went before. A failure is caught, but its
payload is let go of where nothing catches what comes of that: an invocation is left by a failure
exactly if this one ends in another.
-/

namespace CallCapture

namespace EntryPoint

variable {Handler World : Type} {react : Handler → ProbeCall → World → Conduct World Payload}

/-! ### What an invocation catches -/

theorem guarded_of {part : Part (EntryPoint Handler World)}
    {point after : EntryPoint Handler World} {ending : Ending}
    (ended : part { point with inProbe := true } = (ending, after)) :
    guarded part point = (ending, after.unmark) := by
  rw [guarded, ended]
  rfl

section Invoking

variable {invoke : ProbeCall → Part (EntryPoint Handler World)}
  {point next : EntryPoint Handler World} {handler : Handler} {failure : Option Payload}

theorem dispatching_of_handling (registered : point.handler = some handler) {call : ProbeCall}
    (handled : handling react invoke handler call point = (.of failure, next)) :
    dispatching react invoke call point =
      (.of (failure.bind Payload.relapse?), next.reportFault (failure.map Payload.fault)) := by
  simp only [dispatching, registered, Part.caught_of handled]
  cases failure <;> rfl

theorem invoking_marked (marked : point.inProbe = true) (levels : Nat) (call : ProbeCall) :
    invoking react (levels + 1) call point = (.returned, point.unmark) := by
  rw [invoking, if_pos marked]
  rfl

theorem invoking_unregistered (unmarked : point.inProbe = false) (empty : point.handler = none)
    (levels : Nat) (call : ProbeCall) :
    invoking react (levels + 1) call point = (.returned, point) := by
  have returned : dispatching react (invoking react levels) call { point with inProbe := true } =
      (.returned, { point with inProbe := true }) := by
    simp only [dispatching, empty]
  rw [invoking, if_neg (Bool.eq_false_iff.mp unmarked), guarded_of returned]
  simp only [unmark, ← unmarked]

theorem invoking_of_handling (unmarked : point.inProbe = false)
    (registered : point.handler = some handler) {levels : Nat} {call : ProbeCall}
    (handled : handling react (invoking react levels) handler call { point with inProbe := true } =
      (.of failure, next)) :
    invoking react (levels + 1) call point =
      (.of (failure.bind Payload.relapse?),
        (next.reportFault (failure.map Payload.fault)).unmark) := by
  have marked : { point with inProbe := true }.handler = some handler := registered
  rw [invoking, if_neg (Bool.eq_false_iff.mp unmarked)]
  exact guarded_of (dispatching_of_handling marked handled)

end Invoking

/-! ### Payloads that are let go of quietly -/

/-- No handler fails with a payload whose end is a failure. -/
def Quiet (react : Handler → ProbeCall → World → Conduct World Payload) : Prop :=
  ∀ handler call world, ∀ payload ∈ (react handler call world).fault, payload.relapse? = none

def reporting (react : Handler → ProbeCall → World → Conduct World Payload) (handler : Handler)
    (call : ProbeCall) (world : World) : Reaction World :=
  (react handler call world).reported

/-- Calls that all return are made one after the other. -/
theorem foldr_before {invoke : ProbeCall → Part (EntryPoint Handler World)}
    {next : EntryPoint Handler World → ProbeCall → EntryPoint Handler World}
    (returns : ∀ call point, invoke call point = (.returned, next point call))
    (calls : List ProbeCall) (last : Part (EntryPoint Handler World))
    (point : EntryPoint Handler World) :
    calls.foldr (fun call rest => Part.before (invoke call) rest) last point =
      last (calls.foldl next point) := by
  induction calls generalizing point with
  | nil => rfl
  | cons call rest ih =>
      rw [List.foldr_cons, Part.before, returns]
      exact ih (next point call)

/-- Without such payloads no failure leaves the invocation in which it happens. -/
theorem invoking_returns (quiet : Quiet react) (levels : Nat) (call : ProbeCall)
    (point : EntryPoint Handler World) :
    invoking react levels call point =
      (.returned, invokeWithin (reporting react) levels point call) := by
  induction levels generalizing call point with
  | zero => rfl
  | succ levels ih =>
      cases mark : point.inProbe with
      | true => rw [invokeWithin_marked mark, invoking_marked mark]
      | false =>
          cases registered : point.handler with
          | none =>
              rw [invokeWithin_unregistered mark registered, invoking_unregistered mark registered]
          | some handler =>
              let conduct := react handler call point.world
              have handled : handling react (invoking react levels) handler call
                    { point with inProbe := true } =
                  (.of conduct.fault, conduct.nested.foldl (invokeWithin (reporting react) levels)
                    (enter (reporting react) point handler call)) := by
                rw [handling, foldr_before ih]
                rfl
              have silent : conduct.fault.bind Payload.relapse? = none :=
                Option.bind_eq_none_iff.mpr (quiet handler call point.world)
              rw [invokeWithin_unmarked _ mark registered,
                invoking_of_handling mark registered handled, silent]
              rfl

end EntryPoint

inductive EntryOperation (Handler : Type) where
  | register (handler : Handler)
  | unregister
  | invoke (call : ProbeCall)

/-- One run of a handler, and how it failed if it did. -/
structure HandlerRun (Handler : Type) where
  handler : Handler
  call : ProbeCall
  fault : Option Payload

def HandlerRun.event? {Handler : Type} (run : HandlerRun Handler) : Option ControlEvent :=
  run.fault.map fun payload =>
    .failedToCapture "UnrecoverableInternalFault" payload.fault.message

namespace EntryOperation

variable {Handler : Type}

def registers? : EntryOperation Handler → Option (Option Handler)
  | .register handler => some (some handler)
  | .unregister => some none
  | .invoke _ => none

/-- The handler that was registered last, unless the slot was emptied since. -/
def registered (operations : List (EntryOperation Handler)) : Option Handler :=
  ((operations.filterMap registers?).getLast?).getD none

theorem registered_concat (operations : List (EntryOperation Handler))
    (operation : EntryOperation Handler) :
    registered (operations ++ [operation]) =
      operation.registers?.getD (registered operations) := by
  cases last : operation.registers? with
  | none => simp [registered, List.filterMap_append, last]
  | some slot => simp [registered, List.filterMap_append, last]

end EntryOperation

namespace EntryPoint

variable {Handler World : Type} {react : Handler → ProbeCall → World → Conduct World Payload}

/-- Reacts as before, and keeps a record of all runs. -/
def recording (react : Handler → ProbeCall → World → Conduct World Payload) (handler : Handler)
    (call : ProbeCall) (state : World × List (HandlerRun Handler)) :
    Conduct (World × List (HandlerRun Handler)) Payload :=
  let conduct := react handler call state.1
  { conduct with world := (conduct.world, state.2 ++ [⟨handler, call, conduct.fault⟩]) }

def afterRun (react : Handler → ProbeCall → World → Conduct World Payload) (handler : Handler)
    (call : ProbeCall) (point : EntryPoint Handler (World × List (HandlerRun Handler))) :
    EntryPoint Handler (World × List (HandlerRun Handler)) :=
  let reaction := react handler call point.world.1
  let run : HandlerRun Handler := ⟨handler, call, reaction.fault⟩
  { handler := point.handler
    faults := point.faults + if reaction.fault.isSome then 1 else 0
    inProbe := false
    world := (reaction.world, point.world.2 ++ [run])
    events := point.events.publishAll run.event?.toList }

/-- The entry point when an invocation is over, given the handler that is registered. -/
def afterCall (react : Handler → ProbeCall → World → Conduct World Payload) (slot : Option Handler)
    (call : ProbeCall) (point : EntryPoint Handler (World × List (HandlerRun Handler))) :
    EntryPoint Handler (World × List (HandlerRun Handler)) :=
  match slot with
  | none => point
  | some handler => afterRun react handler call point

/-- Handlers that make at most one call of their own while they run. -/
def Calm (react : Handler → ProbeCall → World → Conduct World Payload) : Prop :=
  ∀ handler call world, (react handler call world).nested.length ≤ 1

/-- The failure that leaves an invocation, if one does: that of letting go of what the handler failed
with. -/
def escape? (react : Handler → ProbeCall → World → Conduct World Payload) (slot : Option Handler)
    (call : ProbeCall) (world : World) : Option Payload :=
  (slot.bind fun handler => (react handler call world).fault).bind Payload.relapse?

theorem unmark_reportFault (point : EntryPoint Handler World) (fault : Option ProbeFault) :
    (point.unmark.reportFault fault).unmark = (point.reportFault fault).unmark := by
  cases fault <;> rfl

/-- The only call that a calm handler makes at most takes the mark away, a little early. -/
theorem handling_calm {point : EntryPoint Handler World} (marked : point.inProbe = true)
    (levels : Nat) {handler : Handler} {call : ProbeCall}
    (few : (react handler call point.world).nested.length ≤ 1) :
    let conduct := react handler call point.world
    ∃ next, handling react (invoking react levels) handler call point = (.of conduct.fault, next) ∧
      next.unmark = { point with world := conduct.world }.unmark := by
  intro conduct
  let entered := { point with world := conduct.world }
  match nested : conduct.nested with
  | [] =>
      have made : handling react (invoking react levels) handler call point =
          Part.ending conduct.fault entered := by
        simp only [handling, conduct, nested, List.foldr_nil, entered]
      exact ⟨entered, made, rfl⟩
  | [only] =>
      have made : handling react (invoking react levels) handler call point =
          Part.before (invoking react levels only) (Part.ending conduct.fault) entered := by
        simp only [handling, conduct, nested, List.foldr_cons, List.foldr_nil, entered]
      rw [made, Part.before]
      cases levels with
      | zero => exact ⟨entered, rfl, rfl⟩
      | succ levels =>
          rw [invoking_marked (show entered.inProbe = true from marked)]
          exact ⟨entered.unmark, rfl, rfl⟩
  | _ :: _ :: _ => simp [conduct, nested] at few

theorem invoking_calm (calm : Calm react)
    {point : EntryPoint Handler (World × List (HandlerRun Handler))}
    (unmarked : point.inProbe = false) {handler : Handler}
    (registered : point.handler = some handler) (levels : Nat) (call : ProbeCall) :
    invoking (recording react) (levels + 1) call point =
      (.of (escape? react (some handler) call point.world.1),
        afterRun react handler call point) := by
  let marked := { point with inProbe := true }
  obtain ⟨next, handled, same⟩ := @handling_calm _ _ (recording react) marked rfl levels handler call
    (calm handler call _)
  rw [invoking_of_handling unmarked registered handled, ← unmark_reportFault, same,
    unmark_reportFault]
  simp only [recording, marked, afterRun, HandlerRun.event?]
  cases fault : (react handler call point.world.1).fault <;>
    simp only [escape?, Option.bind_some, fault] <;> rfl

/-! ### Runs -/

def perform (react : Handler → ProbeCall → World → Conduct World Payload) (levels : Nat)
    (point : EntryPoint Handler World) : EntryOperation Handler → EntryPoint Handler World
  | .register handler => (point.register handler).2
  | .unregister => point.unregister.2
  | .invoke call => (invoking react (levels + 1) call point).2

def run (react : Handler → ProbeCall → World → Conduct World Payload) (levels : Nat)
    (point : EntryPoint Handler World) (operations : List (EntryOperation Handler)) :
    EntryPoint Handler World :=
  operations.foldl (perform react levels) point

/-- An entry point with an empty slot, on a thread that is not marked, and no runs so far. -/
def fresh (world : World) (events : EventStream) :
    EntryPoint Handler (World × List (HandlerRun Handler)) :=
  { create (world, []) with events := events }

/-- What holds between operations: the thread is free, and all failures were counted and published. -/
structure Settled (events : EventStream) (registered : Option Handler)
    (point : EntryPoint Handler (World × List (HandlerRun Handler))) : Prop where
  unmarked : point.inProbe = false
  registered : point.handler = registered
  counted : point.faults = point.world.2.countP (·.fault.isSome)
  published : point.events = events.publishAll (point.world.2.filterMap HandlerRun.event?)

theorem Settled.afterRun {events : EventStream} {slot : Option Handler}
    {point : EntryPoint Handler (World × List (HandlerRun Handler))}
    (settled : Settled events slot point) (handler : Handler) (call : ProbeCall) :
    Settled events slot (afterRun react handler call point) where
  unmarked := rfl
  registered := settled.registered
  counted := by
    simp only [EntryPoint.afterRun, List.countP_append, List.countP_cons, List.countP_nil,
      settled.counted, Nat.zero_add]
  published := by
    have single (run : HandlerRun Handler) :
        [run].filterMap HandlerRun.event? = run.event?.toList := by
      cases event : run.event? <;> simp [event]
    simp only [EntryPoint.afterRun, settled.published, EventStream.publishAll,
      List.filterMap_append, single, List.foldl_append]

theorem Settled.invoking (calm : Calm react) {events : EventStream} {slot : Option Handler}
    {point : EntryPoint Handler (World × List (HandlerRun Handler))}
    (settled : Settled events slot point) (levels : Nat) (call : ProbeCall) :
    EntryPoint.invoking (recording react) (levels + 1) call point =
      (.of (escape? react slot call point.world.1), afterCall react slot call point) := by
  cases slot with
  | none => exact invoking_unregistered settled.unmarked settled.registered levels call
  | some handler => exact invoking_calm calm settled.unmarked settled.registered levels call

theorem Settled.perform (calm : Calm react) {events : EventStream} {slot : Option Handler}
    {point : EntryPoint Handler (World × List (HandlerRun Handler))}
    (settled : Settled events slot point) (levels : Nat) (operation : EntryOperation Handler) :
    Settled events (operation.registers?.getD slot)
      (perform (recording react) levels point operation) := by
  cases operation with
  | register handler => exact ⟨settled.unmarked, rfl, settled.counted, settled.published⟩
  | unregister => exact ⟨settled.unmarked, rfl, settled.counted, settled.published⟩
  | invoke call =>
      rw [EntryPoint.perform, settled.invoking calm]
      cases slot with
      | none => exact settled
      | some handler => exact settled.afterRun handler call

theorem run_settled (calm : Calm react) (levels : Nat) (world : World) (events : EventStream)
    (operations : List (EntryOperation Handler)) :
    Settled events (EntryOperation.registered operations)
      (run (recording react) levels (fresh world events) operations) := by
  -- From the end: the operation that came last decides first what is registered.
  induction operations using List.reverseRecOn with
  | nil => exact ⟨rfl, rfl, rfl, rfl⟩
  | append_singleton operations operation ih =>
      rw [EntryOperation.registered_concat, run, List.foldl_append]
      exact ih.perform calm levels operation

/-- What a run of operations comes to, and what the next invocation does after it. -/
structure ContainsFaults (react : Handler → ProbeCall → World → Conduct World Payload)
    (levels : Nat) (events : EventStream) (operations : List (EntryOperation Handler))
    (point : EntryPoint Handler (World × List (HandlerRun Handler))) : Prop where
  settled : Settled events (EntryOperation.registered operations) point
  heard : ∀ id, events.Hears id [] →
    point.events.Hears id (point.world.2.filterMap HandlerRun.event?)
  /-- The handler registered last runs once. The invocation is left by a failure only where one comes
  of letting go of what was caught. -/
  next : ∀ call, invoking (recording react) (levels + 1) call point =
    (.of (escape? react (EntryOperation.registered operations) call point.world.1),
      afterCall react (EntryOperation.registered operations) call point)
  /-- With quiet payloads every invocation returns, and is the one without unwinding. -/
  quietly : Quiet react → ∀ call, invoking (recording react) (levels + 1) call point =
    (.returned, invokeWithin (reporting (recording react)) (levels + 1) point call)

/--
Whatever was done before, the handler registered last runs once for an invocation if there is one.
All failures are counted, and each is published once and by nothing else; the invocation returns
unless the payload fails in its turn.
-/
theorem run_contains_faults (calm : Calm react) (levels : Nat) (world : World)
    (events : EventStream) (operations : List (EntryOperation Handler)) :
    ContainsFaults react levels events operations
      (run (recording react) levels (fresh world events) operations) := by
  have settled := run_settled calm levels world events operations
  refine ⟨settled, ?_, settled.invoking calm levels, ?_⟩
  · intro id hears
    rw [settled.published]
    exact hears.publishAll _
  · intro quiet call
    have recorded : Quiet (recording react) := fun handler call world =>
      quiet handler call world.1
    exact invoking_returns recorded (levels + 1) call _

/-- Three handlers that fail, one with a text and one with a payload that fails in its turn, an
empty slot, and a handler that is fine. -/
theorem run_contains_faults_mixed :
    let call : ProbeCall := ⟨7, [], ⟨none, none, none⟩⟩
    let react : Option Payload → ProbeCall → Nat → Conduct Nat Payload := fun fault _ runs =>
      ⟨runs + 1, [], fault⟩
    let operations : List (EntryOperation (Option Payload)) :=
      [.invoke call, .register (some (.text "boom")), .invoke call, .register (some .unnamed),
        .invoke call, .unregister, .invoke call, .register (some (.relapsing .unnamed)),
        .invoke call, .register none]
    let point := run (recording react) 0 (fresh 0 (EventStream.empty.subscribe none).2) operations
    Calm react ∧ point.faults = 3 ∧
      point.events.Hears 0
        [.failedToCapture "UnrecoverableInternalFault" "boom",
          .failedToCapture "UnrecoverableInternalFault" "probe handler panicked",
          .failedToCapture "UnrecoverableInternalFault" "probe handler panicked"] ∧
      invoking (recording react) 1 call point =
        (.returned, { point with world := (4, point.world.2 ++ [⟨none, call, none⟩]) }) := by
  intro call react operations point
  have calm : Calm react := fun _ _ _ => Nat.zero_le 1
  obtain ⟨settled, heard, next, _⟩ :=
    run_contains_faults calm 0 0 (EventStream.empty.subscribe none).2 operations
  exact ⟨calm, settled.counted, heard 0 rfl, next call⟩

/-- Not every failure of a handler is contained: this one leaves the invocation when
its payload is let go of. -/
theorem relapse_escapes :
    let call : ProbeCall := ⟨7, [], ⟨none, none, none⟩⟩
    let react : Payload → ProbeCall → Unit → Conduct Unit Payload := fun payload _ _ =>
      ⟨(), [], some payload⟩
    let point : EntryPoint Payload Unit :=
      ((create ()).register (.relapsing (.text "not contained"))).2
    Calm react ∧ (invoking react 1 call point).1 = .unwinding (.text "not contained") :=
  ⟨fun _ _ _ => Nat.zero_le 1, rfl⟩

end EntryPoint

end CallCapture
