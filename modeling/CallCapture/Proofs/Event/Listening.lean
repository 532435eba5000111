import CallCapture.Event.Stream

/-!
What a subscription has pending: all that was published since, as far as its filter lets it pass.
-/

namespace CallCapture

namespace EventStream

variable {stream : EventStream} {id : Nat}

theorem deliver_id (subscription : Subscription) (event : ControlEvent) :
    (subscription.deliver event).id = subscription.id := by
  unfold Subscription.deliver
  split <;> rfl

theorem find?_publish (stream : EventStream) (event : ControlEvent) (id : Nat) :
    (stream.publish event).find? id = (stream.find? id).map (·.deliver event) := by
  unfold find? publish
  rw [List.find?_map]
  congr 2
  funext subscription
  exact congrArg (· == id) (deliver_id subscription event)

/-- A live subscription without a filter that has these events pending. -/
def Hears (stream : EventStream) (id : Nat) (events : List ControlEvent) : Prop :=
  stream.find? id = some ⟨id, none, events⟩

theorem Hears.pending {events : List ControlEvent} (hears : stream.Hears id events) :
    stream.pending id = events := by
  unfold EventStream.pending
  rw [hears]
  rfl

theorem Hears.publish {events : List ControlEvent} (hears : stream.Hears id events)
    (event : ControlEvent) : (stream.publish event).Hears id (events ++ [event]) := by
  unfold Hears
  rw [find?_publish, hears]
  rfl

theorem Hears.publishAll {events : List ControlEvent} (hears : stream.Hears id events)
    (published : List ControlEvent) :
    (stream.publishAll published).Hears id (events ++ published) := by
  induction published generalizing stream events with
  | nil => simpa [EventStream.publishAll] using hears
  | cons event rest ih =>
      have later := ih (hears.publish event)
      rwa [List.append_assoc, List.singleton_append] at later

end EventStream

end CallCapture
