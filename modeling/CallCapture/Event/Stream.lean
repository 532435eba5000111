import CallCapture.Event.ControlEvent

/-!
Fan-out of events: each subscription keeps the events that match its filter until they are received.
-/

namespace CallCapture

structure Subscription where
  id : Nat
  /-- The only kind that is wanted, or every kind. -/
  filter : Option EventKind
  pending : List ControlEvent
deriving DecidableEq, Repr

def Subscription.accepts (subscription : Subscription) (event : ControlEvent) : Bool :=
  subscription.filter.all (· == event.kind)

def Subscription.deliver (subscription : Subscription) (event : ControlEvent) : Subscription :=
  if subscription.accepts event then
    { subscription with pending := subscription.pending ++ [event] }
  else subscription

/-- The live subscriptions, oldest first, and the number that the next one gets. -/
structure EventStream where
  subscriptions : List Subscription
  nextId : Nat
deriving DecidableEq, Repr

namespace EventStream

def empty : EventStream := ⟨[], 0⟩

def publish (stream : EventStream) (event : ControlEvent) : EventStream :=
  { stream with subscriptions := stream.subscriptions.map (·.deliver event) }

def publishAll (stream : EventStream) (events : List ControlEvent) : EventStream :=
  events.foldl publish stream

def publishJson (stream : EventStream) (json : String) : Except Error EventStream :=
  (ControlEvent.parse json).map stream.publish

/-- The answer to a document from outside, and the stream after it. -/
def acceptJson (stream : EventStream) (json : String) : Except Error Unit × EventStream :=
  match stream.publishJson json with
  | .ok next => (.ok (), next)
  | .error error => (.error error, stream)

def subscribe (stream : EventStream) (filter : Option EventKind) : Nat × EventStream :=
  (stream.nextId, ⟨stream.subscriptions ++ [⟨stream.nextId, filter, []⟩], stream.nextId + 1⟩)

def subscribeNamed (stream : EventStream) (name : String) : Except Error (Nat × EventStream) :=
  match EventKind.ofName? name with
  | some kind => .ok (stream.subscribe (some kind))
  | none => .error (.protocol (.eventName name))

def find? (stream : EventStream) (id : Nat) : Option Subscription :=
  stream.subscriptions.find? (·.id == id)

def unsubscribe (stream : EventStream) (id : Nat) : EventStream :=
  { stream with subscriptions := stream.subscriptions.filter (·.id != id) }

/-- Keeps only the later pending events of one subscription. -/
def discard (stream : EventStream) (id count : Nat) : EventStream :=
  { stream with
    subscriptions := stream.subscriptions.map fun subscription =>
      if subscription.id = id then
        { subscription with pending := subscription.pending.drop count }
      else subscription }

/-- The pending events of a subscription, none of one that is not live. -/
def pending (stream : EventStream) (id : Nat) : List ControlEvent :=
  ((stream.find? id).map Subscription.pending).getD []

/-- Takes the oldest pending event. -/
def receive (stream : EventStream) (id : Nat) : Option ControlEvent × EventStream :=
  ((stream.pending id).head?, stream.discard id 1)

/-- Takes all pending events. -/
def drain (stream : EventStream) (id : Nat) : List ControlEvent × EventStream :=
  let events := stream.pending id
  (events, stream.discard id events.length)

def size (stream : EventStream) : Nat :=
  stream.subscriptions.length

end EventStream

end CallCapture
