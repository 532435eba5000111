import CallCapture.Channel.Command

/-!
The side of the control channel that obeys commands: each frame is answered by one status frame, and
a frame that is no command by the code of its error.
-/

namespace CallCapture

abbrev CommandHandler (World : Type) := Command → World → Int32 × World

namespace Dispatcher

variable {World : Type}

/-- The code that answers a frame, and the world after it. -/
def answer (handler : CommandHandler World) (frame : CommandFrame) (world : World) :
    Int32 × World :=
  match Command.ofFrame frame with
  | .ok command => handler command world
  | .error error => (ResultCode.ofError error, world)

/-- Serves the next frame, and tells whether there was one. -/
def serveOne (handler : CommandHandler World) (world : World) (stream : ByteStream) :
    Except Error Bool × World × ByteStream :=
  match CommandFrame.receive stream with
  | .error error next => (.error error, world, next)
  | .ok none next => (.ok false, world, next)
  | .ok (some frame) next =>
      let (code, after) := answer handler frame world
      match Channel.write (StatusFrame.toBytes ⟨code⟩) next with
      | .ok () written => (.ok true, after, written)
      | .error error written => (.error error, after, written)

/-- Serves at most `fuel` frames; every frame takes bytes off the stream. -/
def serveWithin (handler : CommandHandler World) :
    Nat → World → ByteStream → Except Error Unit × World × ByteStream
  | 0, world, stream => (.ok (), world, stream)
  | fuel + 1, world, stream =>
      match serveOne handler world stream with
      | (.ok true, world, stream) => serveWithin handler fuel world stream
      | (.ok false, world, stream) => (.ok (), world, stream)
      | (.error error, world, stream) => (.error error, world, stream)

def serve (handler : CommandHandler World) (world : World) (stream : ByteStream) :
    Except Error Unit × World × ByteStream :=
  serveWithin handler (stream.extent + 1) world stream

end Dispatcher

end CallCapture
