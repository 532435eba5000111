import CallCapture.Log.LineSink
import CallCapture.Proofs.Json.Controls
import CallCapture.Proofs.Json.RoundTrip
import CallCapture.Proofs.Json.Shapes
import Mathlib.Data.List.Forall2

/-!
The lines of a log. What was written splits at the line ends into one line for each entry, and each
line is a JSON object that tells its entry, whatever text the entry holds.
-/

namespace CallCapture

/-- As many of the bytes as there is room for. -/
def within (limit : Option Nat) (bytes : List UInt8) : List UInt8 :=
  match limit with
  | none => bytes
  | some count => bytes.take count

/-- What has no room any more is not missed where still more follows. -/
theorem within_append (limit : Option Nat) (first second : List UInt8) :
    within limit (within limit first ++ second) = within limit (first ++ second) := by
  cases limit with
  | none => rfl
  | some count =>
      simp only [within]
      rw [List.take_append, List.take_append, List.take_take, Nat.min_self, List.length_take]
      congr 2
      omega

namespace ByteStream

/-- A writer has taken no more than it has room for. -/
def WithinLimit (stream : ByteStream) : Prop :=
  within stream.writeLimit stream.outgoing = stream.outgoing

theorem WithinLimit.of_within (stream : ByteStream) (bytes : List UInt8) :
    WithinLimit { stream with outgoing := within stream.writeLimit bytes } := by
  have again := within_append stream.writeLimit bytes []
  rwa [List.append_nil, List.append_nil] at again

theorem write_outgoing {stream : ByteStream} (fits : stream.WithinLimit) (data : List UInt8) :
    (stream.write data).2 =
      { stream with outgoing := within stream.writeLimit (stream.outgoing ++ data) } := by
  obtain ⟨incoming, outgoing, limit⟩ := stream
  cases limit with
  | none => rfl
  | some count =>
      have taken : outgoing.take count = outgoing := fits
      simp only [write, within]
      rw [List.take_append, taken]

theorem write_refused {stream : ByteStream} {data : List UInt8}
    (refused : (stream.write data).1 = false) (more : List UInt8) :
    within stream.writeLimit (stream.outgoing ++ data ++ more) =
      within stream.writeLimit (stream.outgoing ++ data) := by
  obtain ⟨incoming, outgoing, limit⟩ := stream
  cases limit with
  | none => cases refused
  | some count =>
      have exceeds : ¬ data.length ≤ count - outgoing.length := by
        simpa [write] using refused
      simp only [within]
      apply List.take_append_of_le_length
      rw [List.length_append]
      omega

end ByteStream

namespace LogEntry

theorem toJson_legible (entry : LogEntry) : entry.toJson.Legible := by
  apply JsonTree.Legible.record
  intro field among
  obtain ⟨named, _, rfl⟩ := List.mem_map.mp among
  exact .text named.2

/-- What the fields of an object tell of an entry, each of them once or not at all. -/
structure ToldBy (entry : LogEntry) (fields : List (Option String × JsonTree)) : Prop where
  message : JsonTree.lookup fields "message" = some (some (.text entry.message))
  timestamp : JsonTree.lookup fields "timestamp" = some (some (.text entry.timestamp.exactText))
  moduleName : JsonTree.lookup fields "moduleName" = some (some (.text entry.moduleName))
  typeName : JsonTree.lookup fields "typeName" = some (some (.text entry.typeName))
  methodName : JsonTree.lookup fields "methodName" = some (some (.text entry.methodName))
  traceId : JsonTree.lookup fields "traceId" = some (entry.traceId.map .text)
  traceFormat : JsonTree.lookup fields "traceFormat" = some (entry.traceFormat.map .text)

theorem toJson_told (entry : LogEntry) :
    ∃ fields, entry.toJson = .object fields ∧ entry.ToldBy fields := by
  obtain ⟨template, arguments, timestamp, moduleName, typeName, methodName, traceId, traceFormat⟩ :=
    entry
  refine ⟨_, rfl, ?_⟩
  cases traceId <;> cases traceFormat <;> constructor <;>
    rw [JsonTree.lookup_record (by simp [optionalField])] <;>
    simp [optionalField, List.lookup_cons]

/-- The bytes of a JSON object that tells the entry. -/
def Written (entry : LogEntry) (line : List UInt8) : Prop :=
  ∃ fields, JsonTree.parseBytes? line = some (.object fields) ∧ entry.ToldBy fields

theorem written_print (entry : LogEntry) : entry.Written (Utf8.encode entry.toJson.print) := by
  obtain ⟨fields, object, told⟩ := entry.toJson_told
  refine ⟨fields, ?_, told⟩
  rw [JsonTree.parseBytes?_print entry.toJson_legible, object]

theorem encode_jsonLine (entry : LogEntry) :
    Utf8.encode entry.jsonLine = Utf8.encode entry.toJson.print ++ [LineSink.newline] := by
  have ending : Utf8.encode "\n" = [LineSink.newline] := by
    rw [Utf8.encode_eq]
    rfl
  rw [jsonLine, Utf8.encode_append, ending]

theorem jsonLines_eq (limit : Option Nat) (entries : List LogEntry) :
    jsonLines limit entries =
      within limit (entries.flatMap fun entry => Utf8.encode entry.jsonLine) := by
  have bytes : Utf8.encode (String.join (entries.map jsonLine)) =
      entries.flatMap fun entry => Utf8.encode entry.jsonLine := by
    induction entries with
    | nil => rw [Utf8.encode_eq]; rfl
    | cons entry rest ih =>
        rw [List.map_cons, String.join_cons, Utf8.encode_append, ih, List.flatMap_cons]
  cases limit with
  | none => exact bytes
  | some count => exact congrArg (List.take count) bytes

end LogEntry

namespace LineSink

variable {sink : LineSink}

theorem write_writer (fits : sink.writer.WithinLimit) (entry : LogEntry) :
    (sink.write entry).writer =
      { sink.writer with
        outgoing := within sink.writer.writeLimit
          (sink.output ++ Utf8.encode entry.jsonLine) } := by
  have object := ByteStream.write_outgoing fits (Utf8.encode entry.toJson.print)
  rw [LogEntry.encode_jsonLine, ← List.append_assoc]
  unfold write
  cases complete : sink.writer.write (Utf8.encode entry.toJson.print) with
  | mk whole writer =>
      rw [complete] at object
      subst object
      cases whole with
      | true =>
          dsimp only
          rw [if_pos rfl, ByteStream.write_outgoing (.of_within sink.writer _), within_append]
          rfl
      | false =>
          have refused := congrArg Prod.fst complete
          dsimp only
          rw [if_neg (by decide), ← ByteStream.write_refused refused [newline]]
          rfl

theorem writeAll_writer (fits : sink.writer.WithinLimit) (entries : List LogEntry) :
    (sink.writeAll entries).writer =
      { sink.writer with
        outgoing := within sink.writer.writeLimit
          (sink.output ++ entries.flatMap fun entry => Utf8.encode entry.jsonLine) } := by
  induction entries generalizing sink with
  | nil =>
      obtain ⟨writer⟩ := sink
      have same : within writer.writeLimit writer.outgoing = writer.outgoing := fits
      rw [List.flatMap_nil, List.append_nil, output, same]
      rfl
  | cons entry rest ih =>
      have first := write_writer fits entry
      have fitsNext : (sink.write entry).writer.WithinLimit := by
        rw [first]
        exact .of_within sink.writer _
      have step : (sink.writeAll (entry :: rest)) = (sink.write entry).writeAll rest := rfl
      rw [step, ih fitsNext, output, first, List.flatMap_cons, ← List.append_assoc, within_append]

/-- Whether the writer fails or not, the sink has written what its writer had room for. -/
theorem writeAll_output (limit : Option Nat) (entries : List LogEntry) :
    ((start limit).writeAll entries).output = LogEntry.jsonLines limit entries := by
  have fits : (start limit).writer.WithinLimit := by
    cases limit <;> simp [start, ByteStream.WithinLimit, within]
  rw [output, writeAll_writer fits, LogEntry.jsonLines_eq]
  rfl

theorem newline_not_mem_print (entry : LogEntry) :
    newline ∉ Utf8.encode entry.toJson.print := by
  intro among
  exact absurd (entry.toJson_legible.visible_print newline among) (by decide)

theorem splitOn_jsonLines (entries : List LogEntry) :
    (LogEntry.jsonLines none entries).splitOn newline =
      entries.map (fun entry => Utf8.encode entry.toJson.print) ++ [[]] := by
  rw [LogEntry.jsonLines_eq, within]
  induction entries with
  | nil => rfl
  | cons entry rest ih =>
      rw [List.flatMap_cons, LogEntry.encode_jsonLine, List.append_assoc, List.singleton_append,
        List.splitOn_append_cons_self_of_not_mem (newline_not_mem_print entry), ih]
      rfl

/--
What a sink has written to a writer that never fails is one line for each entry, in their order, and
each line is a JSON object that tells its entry.
-/
theorem writeAll_lines (entries : List LogEntry) :
    ∃ lines, ((start none).writeAll entries).output.splitOn newline = lines ++ [[]] ∧
      List.Forall₂ LogEntry.Written entries lines := by
  refine ⟨entries.map fun entry => Utf8.encode entry.toJson.print, ?_, ?_⟩
  · rw [writeAll_output, splitOn_jsonLines]
  · rw [List.forall₂_map_right_iff, List.forall₂_same]
    intro entry _
    exact entry.written_print

end LineSink

end CallCapture
