import CallCapture.Proofs.Event.Listening

/-!
Runs of operations on an event stream, seen from one subscription. Until it is dropped it yields
what is published and passes its filter; before it is made and after it is dropped it yields
nothing.

Clones of a stream share its subscriptions, so an operation does not say through which of them it is
made.
-/

namespace CallCapture

inductive StreamOperation where
  | clone
  | subscribe (filter : Option EventKind)
  | publish (event : ControlEvent)
  | receive (id : Nat)
  | drain (id : Nat)
  | unsubscribe (id : Nat)
deriving DecidableEq, Repr

inductive StreamAnswer where
  | subscribed (id : Nat)
  | received (event : Option ControlEvent)
  | drained (events : List ControlEvent)
  | done
deriving DecidableEq, Repr

structure StreamExchange where
  operation : StreamOperation
  answer : StreamAnswer
deriving DecidableEq, Repr

namespace StreamOperation

def isSubscribe : StreamOperation → Bool
  | .subscribe _ => true
  | _ => false

def event? : StreamOperation → Option ControlEvent
  | .publish event => some event
  | _ => none

/-- Whether the operation is made on the subscription itself. -/
def isOn (id : Nat) : StreamOperation → Bool
  | .receive other | .drain other | .unsubscribe other => other == id
  | _ => false

def concerns (id : Nat) (operation : StreamOperation) : Bool :=
  operation.isOn id || operation.event?.isSome

/-- How many subscriptions are made, which is also the number of the next one. -/
def subscribed (operations : List StreamOperation) : Nat :=
  operations.countP isSubscribe

def published (operations : List StreamOperation) : List ControlEvent :=
  operations.filterMap event?

theorem published_cons (operation : StreamOperation) (rest : List StreamOperation) :
    published (operation :: rest) = operation.event?.toList ++ published rest := by
  cases event : operation.event? <;> simp [published, event]

/-- The subscription was made and not dropped since. -/
def Live (operations : List StreamOperation) (id : Nat) : Prop :=
  ∃ before filter during, operations = before ++ .subscribe filter :: during ∧
    subscribed before = id ∧ .unsubscribe id ∉ during

theorem exists_subscribe {operations : List StreamOperation} {id : Nat}
    (made : id < subscribed operations) :
    ∃ before filter rest, operations = before ++ .subscribe filter :: rest ∧
      subscribed before = id := by
  induction operations generalizing id with
  | nil => simp [subscribed] at made
  | cons first rest ih =>
      by_cases opens : first.isSubscribe = true
      · cases id with
        | zero =>
            cases first with
            | subscribe filter => exact ⟨[], filter, rest, rfl, rfl⟩
            | _ => cases opens
        | succ id =>
            rw [subscribed, List.countP_cons_of_pos opens] at made
            rcases ih (Nat.lt_of_succ_lt_succ made) with ⟨before, filter, after, split, count⟩
            refine ⟨first :: before, filter, after, by rw [split, List.cons_append], ?_⟩
            rw [subscribed, List.countP_cons_of_pos opens]
            exact congrArg (· + 1) count
      · rw [subscribed, List.countP_cons_of_neg opens] at made
        rcases ih made with ⟨before, filter, after, split, count⟩
        refine ⟨first :: before, filter, after, by rw [split, List.cons_append], ?_⟩
        rwa [subscribed, List.countP_cons_of_neg opens]

end StreamOperation

open StreamOperation (subscribed published Live)

/-- What an answer gives to the owner of a subscription. -/
def StreamExchange.yieldedBy (id : Nat) : StreamExchange → List ControlEvent
  | ⟨.receive other, .received event⟩ => if other = id then event.toList else []
  | ⟨.drain other, .drained events⟩ => if other = id then events else []
  | _ => []

def yielded (id : Nat) (exchanges : List StreamExchange) : List ControlEvent :=
  exchanges.flatMap (StreamExchange.yieldedBy id)

def exchangesOn (id : Nat) (exchanges : List StreamExchange) : List StreamExchange :=
  exchanges.filter (·.operation.isOn id)

theorem exchangesOn_cons (id : Nat) (exchange : StreamExchange) (rest : List StreamExchange) :
    exchangesOn id (exchange :: rest) =
      if exchange.operation.isOn id then exchange :: exchangesOn id rest
      else exchangesOn id rest :=
  List.filter_cons

def ControlEvent.passes (event : ControlEvent) (filter : Option EventKind) : Bool :=
  filter = none || filter = some event.kind

/-! ### What an operation does to one subscription -/

namespace Subscription

variable {subscription next : Subscription} {operation : StreamOperation}

def discard (subscription : Subscription) (count : Nat) : Subscription :=
  { subscription with pending := subscription.pending.drop count }

/-- The subscription after an operation, unless that drops it. -/
def after (subscription : Subscription) : StreamOperation → Option Subscription
  | .publish event => some (subscription.deliver event)
  | .receive id => some (if subscription.id = id then subscription.discard 1 else subscription)
  | .drain id =>
      some (if subscription.id = id then subscription.discard subscription.pending.length
        else subscription)
  | .unsubscribe id => if subscription.id = id then none else some subscription
  | .clone | .subscribe _ => some subscription

def yields (subscription : Subscription) : StreamOperation → List ControlEvent
  | .receive id => if subscription.id = id then subscription.pending.take 1 else []
  | .drain id => if subscription.id = id then subscription.pending else []
  | _ => []

theorem accepts_eq (subscription : Subscription) (event : ControlEvent) :
    subscription.accepts event = event.passes subscription.filter := by
  cases filter : subscription.filter with
  | none => simp [accepts, ControlEvent.passes, filter]
  | some kind =>
      simp only [accepts, ControlEvent.passes, filter, Option.all_some, reduceCtorEq,
        decide_false, Bool.false_or, Option.some.injEq]
      rfl

theorem deliver_pending (subscription : Subscription) (event : ControlEvent) :
    (subscription.deliver event).pending =
      subscription.pending ++ [event].filter (·.passes subscription.filter) := by
  have accepted := subscription.accepts_eq event
  cases passes : event.passes subscription.filter with
  | true => simp [deliver, accepted, passes]
  | false => simp [deliver, accepted, passes]

/-- The operation moves pending events to the owner, or adds one that was published. -/
theorem after_pending (stays : subscription.after operation = some next) :
    next.id = subscription.id ∧ next.filter = subscription.filter ∧
      subscription.yields operation ++ next.pending =
        subscription.pending ++ operation.event?.toList.filter (·.passes subscription.filter) := by
  cases operation with
  | clone => cases stays; simp [yields, StreamOperation.event?]
  | subscribe filter => cases stays; simp [yields, StreamOperation.event?]
  | publish event =>
      cases stays
      refine ⟨EventStream.deliver_id subscription event, ?_, subscription.deliver_pending event⟩
      unfold deliver
      split <;> rfl
  | receive id =>
      cases stays
      by_cases own : subscription.id = id
      · simpa [own, discard, yields, StreamOperation.event?] using List.take_append_drop 1 _
      · simp [own, yields, StreamOperation.event?]
  | drain id =>
      cases stays
      by_cases own : subscription.id = id
      · simp [own, discard, yields, StreamOperation.event?]
      · simp [own, yields, StreamOperation.event?]
  | unsubscribe id =>
      by_cases own : subscription.id = id
      · simp [after, own] at stays
      · simp only [after, own, if_false, Option.some.injEq] at stays
        simp [← stays, yields, StreamOperation.event?]

theorem after_of_not_concerns (apart : operation.concerns subscription.id = false) :
    subscription.after operation = some subscription := by
  cases operation with
  | clone => rfl
  | subscribe filter => rfl
  | publish event => simp [StreamOperation.concerns, StreamOperation.event?] at apart
  | receive id | drain id | unsubscribe id =>
      have other : subscription.id ≠ id := by
        rintro rfl
        simp [StreamOperation.concerns, StreamOperation.isOn] at apart
      simp [after, other]

theorem after_eq_none_iff :
    subscription.after operation = none ↔ operation = .unsubscribe subscription.id := by
  cases operation with
  | unsubscribe id => simp [after, eq_comm]
  | _ => simp [after]

end Subscription

namespace EventStream

variable {stream : EventStream} {id : Nat} {operations : List StreamOperation}

def perform (stream : EventStream) : StreamOperation → StreamAnswer × EventStream
  | .clone => (.done, stream)
  | .subscribe filter =>
      let (id, next) := stream.subscribe filter
      (.subscribed id, next)
  | .publish event => (.done, stream.publish event)
  | .receive id =>
      let (event, next) := stream.receive id
      (.received event, next)
  | .drain id =>
      let (events, next) := stream.drain id
      (.drained events, next)
  | .unsubscribe id => (.done, stream.unsubscribe id)

def run (stream : EventStream) (operations : List StreamOperation) : EventStream :=
  operations.foldl (fun stream operation => (stream.perform operation).2) stream

def transcript : EventStream → List StreamOperation → List StreamExchange
  | _, [] => []
  | stream, operation :: rest =>
      ⟨operation, (stream.perform operation).1⟩ :: transcript (stream.perform operation).2 rest

theorem run_append (stream : EventStream) (first second : List StreamOperation) :
    stream.run (first ++ second) = (stream.run first).run second :=
  List.foldl_append

theorem transcript_append (stream : EventStream) (first second : List StreamOperation) :
    stream.transcript (first ++ second) =
      stream.transcript first ++ (stream.run first).transcript second := by
  induction first generalizing stream with
  | nil => rfl
  | cons operation rest ih => exact congrArg (_ :: ·) (ih _)

theorem nextId_perform (stream : EventStream) (operation : StreamOperation) :
    (stream.perform operation).2.nextId =
      stream.nextId + if operation.isSubscribe then 1 else 0 := by
  cases operation <;> rfl

theorem nextId_run (stream : EventStream) (operations : List StreamOperation) :
    (stream.run operations).nextId = stream.nextId + subscribed operations := by
  induction operations generalizing stream with
  | nil => rfl
  | cons operation rest ih =>
      have later := ih (stream.perform operation).2
      rw [nextId_perform] at later
      rw [subscribed, List.countP_cons, ← subscribed]
      exact later.trans (by omega)

/-! ### One subscription among the others -/

theorem find?_id {subscription : Subscription} (found : stream.find? id = some subscription) :
    subscription.id = id := by
  simpa using List.find?_some found

theorem find?_subscribe (stream : EventStream) (filter : Option EventKind) (id : Nat) :
    (stream.subscribe filter).2.find? id =
      (stream.find? id).or (if stream.nextId = id then some ⟨id, filter, []⟩ else none) := by
  rw [find?, subscribe, List.find?_append]
  by_cases own : stream.nextId = id
  · simp [find?, own]
  · simp [find?, own]

theorem find?_discard (stream : EventStream) (other count id : Nat) :
    (stream.discard other count).find? id =
      (stream.find? id).map fun subscription =>
        if subscription.id = other then subscription.discard count else subscription := by
  unfold find? discard
  rw [List.find?_map]
  congr 2
  funext subscription
  dsimp only [Function.comp]
  split <;> rfl

theorem find?_unsubscribe (stream : EventStream) (other id : Nat) :
    (stream.unsubscribe other).find? id = if other = id then none else stream.find? id := by
  unfold find? unsubscribe
  rw [List.find?_filter]
  by_cases own : other = id
  · simp [own]
  · rw [if_neg own]
    congr 1
    funext subscription
    by_cases same : subscription.id = id
    · simp [same, Ne.symm own]
    · simp [same]

/-- What an operation does to a stream is what it does to each of its subscriptions. -/
theorem find?_perform {operation : StreamOperation}
    (elsewhere : operation.isSubscribe = true → stream.nextId ≠ id) :
    (stream.perform operation).2.find? id = (stream.find? id).bind (·.after operation) := by
  cases operation with
  | clone => exact (Option.bind_fun_some _).symm
  | subscribe filter =>
      rw [perform, find?_subscribe, if_neg (elsewhere rfl), Option.or_none]
      exact (Option.bind_fun_some _).symm
  | publish event =>
      rw [perform, find?_publish, Option.map_eq_bind]
      rfl
  | receive other =>
      rw [perform, receive, find?_discard, Option.map_eq_bind]
      rfl
  | drain other =>
      rw [perform, drain, find?_discard, Option.map_eq_bind]
      cases found : stream.find? id with
      | none => rfl
      | some subscription =>
          have own := find?_id found
          by_cases same : subscription.id = other
          · have pending : stream.pending other = subscription.pending := by
              rw [EventStream.pending, ← same, own, found]
              rfl
            simp [Subscription.after, same, pending]
          · simp [Subscription.after, same]
  | unsubscribe other =>
      rw [perform, find?_unsubscribe]
      cases found : stream.find? id with
      | none => simp
      | some subscription =>
          have own := find?_id found
          by_cases same : other = id
          · simp [Subscription.after, own, same]
          · simp [Subscription.after, own, same, eq_comm]

/-- What an operation answers about a subscription is what that has pending. -/
theorem yieldedBy_perform (stream : EventStream) (id : Nat) (operation : StreamOperation) :
    StreamExchange.yieldedBy id ⟨operation, (stream.perform operation).1⟩ =
      ((stream.find? id).map (·.yields operation)).getD [] := by
  cases operation with
  | clone | subscribe filter | publish event | unsubscribe other =>
      cases stream.find? id <;> rfl
  | receive other =>
      cases found : stream.find? id with
      | none =>
          by_cases same : other = id
          · simp [perform, receive, StreamExchange.yieldedBy, EventStream.pending, same, found]
          · simp [perform, receive, StreamExchange.yieldedBy, same]
      | some subscription =>
          have own := find?_id found
          by_cases same : other = id
          · simp [perform, receive, StreamExchange.yieldedBy, EventStream.pending, same, found,
              Subscription.yields, own, List.take_one]
          · simp [perform, receive, StreamExchange.yieldedBy, same, Subscription.yields, own,
              eq_comm]
  | drain other =>
      cases found : stream.find? id with
      | none =>
          by_cases same : other = id
          · simp [perform, drain, StreamExchange.yieldedBy, EventStream.pending, same, found]
          · simp [perform, drain, StreamExchange.yieldedBy, same]
      | some subscription =>
          have own := find?_id found
          by_cases same : other = id
          · simp [perform, drain, StreamExchange.yieldedBy, EventStream.pending, same, found,
              Subscription.yields, own]
          · simp [perform, drain, StreamExchange.yieldedBy, same, Subscription.yields, own,
              eq_comm]

theorem yielded_cons (id : Nat) (exchange : StreamExchange) (rest : List StreamExchange) :
    yielded id (exchange :: rest) = exchange.yieldedBy id ++ yielded id rest := rfl

theorem yielded_append (id : Nat) (first second : List StreamExchange) :
    yielded id (first ++ second) = yielded id first ++ yielded id second :=
  List.flatMap_append

theorem find?_perform_of_lt (made : id < stream.nextId) (operation : StreamOperation) :
    (stream.perform operation).2.find? id = (stream.find? id).bind (·.after operation) :=
  find?_perform fun _ => Nat.ne_of_gt made

theorem lt_nextId_perform (made : id < stream.nextId) (operation : StreamOperation) :
    id < (stream.perform operation).2.nextId := by
  rw [nextId_perform]
  omega

/-- Until it is dropped, a subscription yields what it has pending and what is published. -/
theorem run_yields {subscription : Subscription} (made : id < stream.nextId)
    (found : stream.find? id = some subscription) (kept : .unsubscribe id ∉ operations) :
    ∃ last, (stream.run operations).find? id = some last ∧
      yielded id (stream.transcript operations) ++ last.pending =
        subscription.pending ++ (published operations).filter (·.passes subscription.filter) := by
  -- Events only move from the subscription to its owner, so a step keeps both together.
  induction operations generalizing stream subscription with
  | nil => exact ⟨subscription, found, by simp [transcript, yielded, published]⟩
  | cons operation rest ih =>
      have own := find?_id found
      have step := find?_perform_of_lt made operation
      rw [found, Option.bind_some] at step
      cases stays : subscription.after operation with
      | none =>
          rw [Subscription.after_eq_none_iff, own] at stays
          exact absurd (stays ▸ List.mem_cons_self) kept
      | some next =>
          rw [stays] at step
          rcases Subscription.after_pending stays with ⟨_, filter, pending⟩
          rcases ih (lt_nextId_perform made operation) step
            (fun later => kept (List.mem_cons_of_mem _ later)) with ⟨last, remains, yields⟩
          refine ⟨last, remains, ?_⟩
          rw [transcript, yielded_cons, yieldedBy_perform, found, List.append_assoc, yields]
          rw [filter] at yields ⊢
          calc subscription.yields operation ++ (next.pending ++
                (published rest).filter (·.passes subscription.filter))
            _ = subscription.pending ++ operation.event?.toList.filter
                  (·.passes subscription.filter) ++
                  (published rest).filter (·.passes subscription.filter) := by
              rw [← pending, List.append_assoc]
            _ = subscription.pending ++
                  (published (operation :: rest)).filter (·.passes subscription.filter) := by
              rw [StreamOperation.published_cons, List.filter_append, List.append_assoc]

/-- Under a number that no live subscription has and that is not given out, nothing is yielded. -/
theorem run_silent (absent : stream.find? id = none)
    (elsewhere : id < stream.nextId ∨ stream.nextId + subscribed operations ≤ id) :
    (stream.run operations).find? id = none ∧ yielded id (stream.transcript operations) = [] := by
  induction operations generalizing stream with
  | nil => exact ⟨absent, rfl⟩
  | cons operation rest ih =>
      rw [subscribed, List.countP_cons, ← subscribed] at elsewhere
      have next : (stream.perform operation).2.find? id = none := by
        rw [find?_perform, absent, Option.bind_none]
        intro opens
        rw [if_pos opens] at elsewhere
        omega
      have later : id < (stream.perform operation).2.nextId ∨
          (stream.perform operation).2.nextId + subscribed rest ≤ id := by
        rw [nextId_perform]
        omega
      rcases ih next later with ⟨remains, silent⟩
      refine ⟨remains, ?_⟩
      rw [transcript, yielded_cons, yieldedBy_perform, absent, silent]
      rfl

theorem lt_nextId_run (made : id < stream.nextId) (operations : List StreamOperation) :
    id < (stream.run operations).nextId := by
  rw [nextId_run]
  omega

/-- A subscription that is dropped does not come back. -/
theorem run_dropped (made : id < stream.nextId) (rest : List StreamOperation) :
    (stream.run (.unsubscribe id :: rest)).find? id = none ∧
      yielded id (stream.transcript (.unsubscribe id :: rest)) = [] := by
  have dropped : (stream.unsubscribe id).find? id = none := by
    rw [find?_unsubscribe, if_pos rfl]
  have silent : ((stream.unsubscribe id).run rest).find? id = none ∧
      yielded id ((stream.unsubscribe id).transcript rest) = [] := run_silent dropped (.inl made)
  exact silent

theorem run_unmade (unmade : subscribed operations ≤ id) :
    (empty.run operations).find? id = none ∧ yielded id (empty.transcript operations) = [] := by
  have next : empty.nextId + subscribed operations ≤ id :=
    Nat.le_trans (Nat.le_of_eq (Nat.zero_add _)) unmade
  exact run_silent rfl (.inr next)

theorem empty_run_nextId (operations : List StreamOperation) :
    (empty.run operations).nextId = subscribed operations := by
  rw [nextId_run]
  exact Nat.zero_add _

theorem opened_subscription (before : List StreamOperation) (filter : Option EventKind) :
    (empty.run (before ++ [.subscribe filter])).find? (subscribed before) =
      some ⟨subscribed before, filter, []⟩ := by
  have absent := (run_unmade (Nat.le_refl (subscribed before))).1
  rw [run_append]
  change ((empty.run before).subscribe filter).2.find? (subscribed before) = _
  rw [find?_subscribe, absent, if_pos (empty_run_nextId before)]
  rfl

theorem opened_nextId (before : List StreamOperation) (filter : Option EventKind) :
    subscribed before < (empty.run (before ++ [.subscribe filter])).nextId := by
  rw [empty_run_nextId, subscribed, subscribed, List.countP_append]
  exact Nat.lt_succ_self _

end EventStream

end CallCapture
