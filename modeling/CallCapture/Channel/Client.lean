import CallCapture.Channel.Command

/-!
The side of the control channel that sends commands and awaits their status.
-/

namespace CallCapture.Command

/-- Sends a command and waits for its status, which has to be a success. -/
def send (command : Command) : Channel Unit := do
  match command.toFrame with
  | .error error => throw error
  | .ok frame =>
      Channel.write frame.toBytes
      let status ← StatusFrame.receive
      if status.isSuccess then return ()
      throw (.commandFailed frame.header.messageType status.resultCode)

end CallCapture.Command
