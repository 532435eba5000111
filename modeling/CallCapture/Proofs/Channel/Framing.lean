import CallCapture.Proofs.Channel.Delivery
import CallCapture.Proofs.Channel.Serving
import CallCapture.Proofs.Session.PayloadJson

/-!
Frames of commands: a command whose payload fits is framed completely and read back from its frame.
-/

namespace CallCapture

namespace Command

def messageType : Command → MessageType
  | .start _ => .startCapturing
  | .stop => .stopCapturing

def payloadType : Command → PayloadType
  | .start _ => .utf8Json
  | .stop => .empty

def payload : Command → List UInt8
  | .start payload => Utf8.encode payload.toJson.print
  | .stop => []

/-- The payload is no longer than a frame may carry. -/
def Fits (command : Command) : Prop :=
  command.payload.length ≤ Channel.maxPayloadLength

def frame (command : Command) : CommandFrame :=
  ⟨⟨command.messageType.wire, command.payloadType.wire, .ofNat command.payload.length⟩,
    command.payload⟩

theorem toFrame_of_fits {command : Command} (fits : command.Fits) :
    command.toFrame = .ok command.frame := by
  have short : ¬ Channel.maxPayloadLength < command.payload.length := Nat.not_lt.mpr fits
  cases command with
  | start payload => exact if_neg short
  | stop => rfl

theorem frame_complete {command : Command} (fits : command.Fits) : command.frame.Complete := by
  have limit : Channel.maxPayloadLength < 2147483648 := by decide
  refine ⟨?_, fits⟩
  exact Int32.toInt_ofNat_of_lt (Nat.lt_of_le_of_lt fits limit)

/-- A command is read back from its frame, field by field. -/
theorem ofFrame_frame (command : Command) : ofFrame command.frame = .ok command := by
  cases command with
  | start payload =>
      have read := payload.parseBytes?_print
      have decoded : ofPayload .startCapturing .utf8Json (Utf8.encode payload.toJson.print) =
          .ok (.start payload) := by
        simp only [ofPayload, read]
      exact decoded
  | stop => rfl

end Command

end CallCapture
