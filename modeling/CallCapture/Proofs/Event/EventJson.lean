import CallCapture.Proofs.Event.Subscriptions
import CallCapture.Proofs.Json.RoundTrip
import CallCapture.Proofs.Json.Shapes

/-!
Events survive their JSON text, whatever the texts in them hold. A document that is an event reaches
the subscriptions whose filter lets it pass, and any other document reaches none.
-/

namespace CallCapture

namespace ControlEvent

theorem toJson_legible (event : ControlEvent) : event.toJson.Legible := by
  apply JsonTree.Legible.record
  intro field among
  cases event with
  | failedToCapture failureType failureMessage =>
      simp only [List.mem_cons, List.not_mem_nil, or_false] at among
      rcases among with rfl | rfl | rfl <;> exact .text _
  | capturingStarted | capturingStopped | flush =>
      cases List.mem_singleton.mp among
      exact .text _

theorem ofJson?_toJson (event : ControlEvent) : ofJson? event.toJson = some event := by
  cases event <;> rfl

theorem parse?_json (event : ControlEvent) : JsonTree.parse? event.json = some event.toJson :=
  JsonTree.parse?_print event.toJson_legible

theorem parse_json (event : ControlEvent) : parse event.json = .ok event := by
  rw [parse, event.parse?_json, Option.bind_some, event.ofJson?_toJson]

/-- The name in the document is the name of the kind that filters are compared with. -/
theorem toJson_named (event : ControlEvent) :
    ∃ fields, event.toJson = .object fields ∧
      JsonTree.lookup fields "name" = some (some (.text event.kind.name)) := by
  cases event <;> exact ⟨_, rfl, rfl⟩

end ControlEvent

theorem EventKind.ofName?_name (kind : EventKind) : ofName? kind.name = some kind := by
  cases kind <;> decide

namespace EventStream

theorem acceptJson_of_ok {text : String} {event : ControlEvent}
    (parsed : ControlEvent.parse text = .ok event) (stream : EventStream) :
    stream.acceptJson text = (.ok (), stream.publish event) := by
  rw [acceptJson, publishJson, parsed]
  rfl

theorem acceptJson_of_error {text : String} {error : Error}
    (refused : ControlEvent.parse text = .error error) (stream : EventStream) :
    stream.acceptJson text = (.error error, stream) := by
  rw [acceptJson, publishJson, refused]
  rfl

theorem publish_eq (stream : EventStream) (event : ControlEvent) :
    stream.publish event =
      { stream with
        subscriptions := stream.subscriptions.map fun subscription =>
          if event.passes subscription.filter then
            { subscription with pending := subscription.pending ++ [event] }
          else subscription } := by
  simp only [publish, Subscription.deliver, Subscription.accepts_eq]

/-- What becomes of the text of an event. -/
structure Conveys (stream : EventStream) (event : ControlEvent) : Prop where
  read : ControlEvent.parse event.json = .ok event
  /-- The name in the text is the one by which subscribers ask for the event's kind. -/
  named : ∃ fields name, JsonTree.parse? event.json = some (.object fields) ∧
    JsonTree.lookup fields "name" = some (some (.text name)) ∧
    EventKind.ofName? name = some event.kind
  answered : (stream.acceptJson event.json).1 = .ok ()
  delivered : (stream.acceptJson event.json).2 =
    { stream with
      subscriptions := stream.subscriptions.map fun subscription =>
        if event.passes subscription.filter then
          { subscription with pending := subscription.pending ++ [event] }
        else subscription }

/--
The text of an event delivers that event to the subscriptions that have no filter or ask for its
kind; a text that is no event is refused and changes nothing.
-/
theorem acceptJson_conveys (stream : EventStream) :
    (∀ event, stream.Conveys event) ∧
      ∀ text error, ControlEvent.parse text = .error error ↔
        stream.acceptJson text = (.error error, stream) := by
  constructor
  · intro event
    have accepted := acceptJson_of_ok event.parse_json stream
    obtain ⟨fields, object, name⟩ := event.toJson_named
    refine ⟨event.parse_json, ⟨fields, _, ?_, name, event.kind.ofName?_name⟩, ?_, ?_⟩
    · rw [event.parse?_json, object]
    · rw [accepted]
    · rw [accepted, publish_eq]
  · intro text error
    constructor
    · intro refused
      exact acceptJson_of_error refused stream
    · intro answer
      cases parsed : ControlEvent.parse text with
      | ok event =>
          rw [acceptJson_of_ok parsed, Prod.mk.injEq] at answer
          cases answer.1
      | error other =>
          rw [acceptJson_of_error parsed, Prod.mk.injEq, Except.error.injEq] at answer
          rw [answer.1]

end EventStream

end CallCapture
