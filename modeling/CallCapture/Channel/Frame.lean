import CallCapture.Bytes.Cursor
import CallCapture.Channel.ByteStream

/-!
Frames of the control channel: a header of eight bytes and a payload. Commands travel one way, and
each is answered by a status frame that carries a result code.
-/

namespace CallCapture

abbrev Channel := EStateM Error ByteStream

namespace Channel

def headerSize : Nat := 8

def maxPayloadLength : Nat := 16 * 1024 * 1024

def brokenPipe : String := "pipe closed"

def write (bytes : List UInt8) : Channel Unit := fun stream =>
  match stream.write bytes with
  | (true, next) => .ok () next
  | (false, next) => .error (.stream brokenPipe) next

/-- The bytes of a payload; a stream that ends before them cuts the frame short. -/
def payload (length : Nat) : Channel (List UInt8) := fun stream =>
  match stream.read length with
  | (bytes, .complete, next) => .ok bytes next
  | (_, .failed reason, next) => .error (.stream reason) next
  | (_, _, next) => .error (.protocol .payloadTruncated) next

end Channel

structure FrameHeader where
  messageType : Int16
  payloadType : Int16
  payloadLength : Int32
deriving DecidableEq, Repr

namespace FrameHeader

def reader : Reader FrameHeader := do
  let messageType ← Reader.signed 2
  let payloadType ← Reader.signed 2
  let payloadLength ← Reader.signed 4
  return ⟨.ofInt messageType, .ofInt payloadType, .ofInt payloadLength⟩

def parse (bytes : List UInt8) : Except Error FrameHeader :=
  Reader.ofBlob reader bytes

def toBytes (header : FrameHeader) : List UInt8 :=
  littleEndianBytes 2 header.messageType.toUInt16.toNat
    ++ littleEndianBytes 2 header.payloadType.toUInt16.toNat
    ++ littleEndianBytes 4 header.payloadLength.toUInt32.toNat

/-- The announced length, if a frame may have it. -/
def payloadSize (header : FrameHeader) : Except Error Nat :=
  let length := header.payloadLength.toInt
  if 0 ≤ length ∧ length ≤ Channel.maxPayloadLength then .ok length.toNat
  else .error (.protocol (.payloadLength header.payloadLength))

/-- The next header; none where the stream ends before it. -/
def receive : Channel (Option FrameHeader) := fun stream =>
  match stream.read Channel.headerSize with
  | (bytes, .complete, next) =>
      match parse bytes with
      | .ok header => .ok (some header) next
      | .error error => .error error next
  | ([], .ended, next) => .ok none next
  | (bytes, .ended, next) => .error (.protocol (.headerTruncated bytes.length)) next
  | (_, .failed reason, next) => .error (.stream reason) next
  | (_, .cut reason, next) => .error (.stream reason) next

end FrameHeader

structure CommandFrame where
  header : FrameHeader
  payload : List UInt8
deriving DecidableEq, Repr

namespace CommandFrame

def ofPayload (messageType : MessageType) (payloadType : PayloadType) (payload : List UInt8) :
    Except Error CommandFrame :=
  if Channel.maxPayloadLength < payload.length then
    .error (.protocol (.payloadTooLong payload.length))
  else .ok ⟨⟨messageType.wire, payloadType.wire, .ofNat payload.length⟩, payload⟩

def toBytes (frame : CommandFrame) : List UInt8 :=
  frame.header.toBytes ++ frame.payload

/-- The next frame; none where the stream ends before it. -/
def receive : Channel (Option CommandFrame) := do
  match ← FrameHeader.receive with
  | none => return none
  | some header =>
      match header.payloadSize with
      | .error error => throw error
      | .ok length => return some ⟨header, ← Channel.payload length⟩

end CommandFrame

structure StatusFrame where
  resultCode : Int32
deriving DecidableEq, Repr

namespace StatusFrame

def isSuccess (status : StatusFrame) : Bool :=
  status.resultCode == 0

def header : FrameHeader :=
  ⟨MessageType.status.wire, PayloadType.int32.wire, 4⟩

def toBytes (status : StatusFrame) : List UInt8 :=
  header.toBytes ++ littleEndianBytes 4 status.resultCode.toUInt32.toNat

/-- Message type and length have to be those of a status frame. -/
def checkHeader (header : FrameHeader) : Except Error Unit :=
  if header.messageType ≠ MessageType.status.wire then
    .error (.protocol (.statusExpected header.messageType))
  else if header.payloadLength ≠ 4 then .error (.protocol (.statusPayload header.payloadLength))
  else .ok ()

def ofCode (code : Int) : StatusFrame :=
  ⟨.ofInt code⟩

def parse (bytes : List UInt8) : Except Error StatusFrame := do
  checkHeader (← FrameHeader.parse bytes)
  let code : Reader Int := do
    Reader.skip Channel.headerSize
    Reader.signed 4
  return ofCode (← Reader.ofBlob code bytes)

def receive : Channel StatusFrame := do
  match ← FrameHeader.receive with
  | none => throw (.protocol .closedAwaitingStatus)
  | some header =>
      match checkHeader header with
      | .error error => throw error
      | .ok () => return ofCode (littleEndian (← Channel.payload 4))

end StatusFrame

end CallCapture
