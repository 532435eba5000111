import CallCapture.Channel.ByteStream
import CallCapture.Log.Entry

/-!
A sink that writes each entry of the log as one JSON object on a line of its own, to a writer that
may fail.
-/

namespace CallCapture

structure LineSink where
  writer : ByteStream
deriving DecidableEq, Repr

namespace LineSink

def newline : UInt8 := 0x0A

/-- A sink over a fresh writer, which fails after so many bytes or never. -/
def start (limit : Option Nat) : LineSink := ⟨⟨[], [], limit⟩⟩

/-- The line ends only after an object that was written to its end. -/
def write (sink : LineSink) (entry : LogEntry) : LineSink :=
  let (complete, writer) := sink.writer.write (Utf8.encode entry.toJson.print)
  if complete then ⟨(writer.write [newline]).2⟩ else ⟨writer⟩

def writeAll (sink : LineSink) (entries : List LogEntry) : LineSink :=
  entries.foldl write sink

def output (sink : LineSink) : List UInt8 :=
  sink.writer.outgoing

end LineSink

end CallCapture
