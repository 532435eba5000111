/-!
A byte stream between two processes: reads come in pieces and may be interrupted or fail, and writes
may meet a pipe that was closed.
-/

namespace CallCapture

/-- What one read meets. An empty piece is the end of the stream for that read. -/
inductive Piece where
  | bytes (data : List UInt8)
  | interrupted
  | failure (reason : String)
  /-- A failure that tells that the stream ended early. -/
  | cut (reason : String)
deriving DecidableEq, Repr

def Piece.size : Piece → Nat
  | .bytes data => data.length
  | _ => 0

inductive Filling where
  | complete
  | ended
  | failed (reason : String)
  | cut (reason : String)
deriving DecidableEq, Repr

structure ByteStream where
  incoming : List Piece
  outgoing : List UInt8
  /-- After how many bytes in all a write fails. -/
  writeLimit : Option Nat
deriving DecidableEq, Repr

namespace ByteStream

/--
Reads until `need` bytes have come, passing over interruptions. Gives the bytes that came, how the
attempt ended, and what is left.
-/
def fill (need : Nat) : List Piece → List UInt8 × Filling × List Piece
  | [] => ([], if need = 0 then .complete else .ended, [])
  | piece :: rest =>
      if need = 0 then ([], .complete, piece :: rest)
      else
        match piece with
        | .bytes [] => ([], .ended, rest)
        | .bytes data =>
            if need < data.length then (data.take need, .complete, .bytes (data.drop need) :: rest)
            else
              let (more, ending, left) := fill (need - data.length) rest
              (data ++ more, ending, left)
        | .interrupted => fill need rest
        | .failure reason => ([], .failed reason, rest)
        | .cut reason => ([], .cut reason, rest)

def read (stream : ByteStream) (need : Nat) : List UInt8 × Filling × ByteStream :=
  let (bytes, ending, left) := fill need stream.incoming
  (bytes, ending, { stream with incoming := left })

/-- Writes as much as the pipe takes, and tells whether that was all. -/
def write (stream : ByteStream) (data : List UInt8) : Bool × ByteStream :=
  match stream.writeLimit with
  | none => (true, { stream with outgoing := stream.outgoing ++ data })
  | some limit =>
      let room := limit - stream.outgoing.length
      (data.length ≤ room, { stream with outgoing := stream.outgoing ++ data.take room })

/-- The number of bytes still to come, with one more for each piece. -/
def extent (stream : ByteStream) : Nat :=
  stream.incoming.foldr (fun piece others => piece.size + 1 + others) 0

end ByteStream

end CallCapture
