import CallCapture.Proofs.Channel.Delivery

/-!
Which bytes are a status frame. Reading them from a stream, in whatever pieces they come, gives what
parsing them gives. Both look at the message type and the length of the payload, and neither looks
at the type of the payload, so they take frames that no status is written as.
-/

namespace CallCapture

/-- What is read from a channel, without what is left of it. -/
def Channel.answer {α : Type} : EStateM.Result Error ByteStream α → Except Error α
  | .ok value _ => .ok value
  | .error error _ => .error error

theorem Channel.exists_of_answer {α : Type} {result : EStateM.Result Error ByteStream α} {value : α}
    (answered : Channel.answer result = .ok value) : ∃ after, result = .ok value after := by
  cases result with
  | ok found after =>
      cases answered
      exact ⟨after, rfl⟩
  | error => contradiction

namespace StatusFrame

def codeBytes (status : StatusFrame) : List UInt8 :=
  littleEndianBytes 4 status.resultCode.toUInt32.toNat

/-- The header of a status, but for the type of the payload. -/
def headerOf (payloadType : Int16) : FrameHeader :=
  { header with payloadType }

variable {header : FrameHeader} {status other : StatusFrame} {bytes rest : List UInt8}
  {stream : ByteStream}

theorem codeBytes_length (status : StatusFrame) : status.codeBytes.length = 4 :=
  littleEndianBytes_length 4 _

theorem ofCode_codeBytes (status : StatusFrame) :
    ofCode (littleEndian status.codeBytes) = status := by
  have value : littleEndian status.codeBytes = status.resultCode.toUInt32.toNat :=
    littleEndian_littleEndianBytes status.resultCode.toUInt32.toNat_lt
  rw [value, ofCode, Int32.ofInt_eq_ofNat, ← UInt32.toInt32_ofNat', UInt32.ofNat_toNat,
    Int32.toInt32_toUInt32]

theorem codeBytes_inj : status.codeBytes = other.codeBytes ↔ status = other := by
  constructor
  · intro same
    rw [← status.ofCode_codeBytes, same, other.ofCode_codeBytes]
  · intro same
    rw [same]

theorem exists_of_code_length {code : List UInt8} (size : code.length = 4) :
    ∃ status : StatusFrame, code = status.codeBytes := by
  have room := littleEndian_lt code
  have bytes := littleEndianBytes_littleEndian code
  rw [size] at room bytes
  refine ⟨⟨.ofNat (littleEndian code)⟩, ?_⟩
  rw [codeBytes, Int32.toUInt32_ofNat', UInt32.toNat_ofNat', Nat.mod_eq_of_lt room, bytes]

/-- Any twelve bytes are a header and a code. -/
theorem exists_of_length (enough : 12 ≤ bytes.length) :
    ∃ (header : FrameHeader) (status : StatusFrame),
      bytes = header.toBytes ++ (status.codeBytes ++ bytes.drop 12) := by
  have headerSize : (bytes.take 8).length = Channel.headerSize := by
    rw [List.length_take]
    exact Nat.min_eq_left (by omega)
  have codeSize : ((bytes.drop 8).take 4).length = 4 := by
    rw [List.length_take, List.length_drop]
    omega
  obtain ⟨header, first⟩ := FrameHeader.exists_of_length headerSize
  obtain ⟨status, second⟩ := exists_of_code_length codeSize
  refine ⟨header, status, ?_⟩
  have last : bytes.drop 12 = (bytes.drop 8).drop 4 := by rw [List.drop_drop]
  rw [← first, ← second, last, List.take_append_drop, List.take_append_drop]

theorem take_frame (header : FrameHeader) (status : StatusFrame) (rest : List UInt8) :
    (header.toBytes ++ (status.codeBytes ++ rest)).take 12 = header.toBytes ++ status.codeBytes := by
  rw [← List.append_assoc]
  apply List.take_left'
  rw [List.length_append, header.toBytes_length, status.codeBytes_length]
  rfl

theorem frame_inj {otherHeader : FrameHeader} :
    header.toBytes ++ status.codeBytes = otherHeader.toBytes ++ other.codeBytes ↔
      header = otherHeader ∧ status = other := by
  have sizes : header.toBytes.length = otherHeader.toBytes.length := by
    rw [header.toBytes_length, otherHeader.toBytes_length]
  constructor
  · intro same
    obtain ⟨headers, codes⟩ := List.append_inj same sizes
    exact ⟨FrameHeader.toBytes_inj.mp headers, codeBytes_inj.mp codes⟩
  · intro same
    rw [same.1, same.2]

theorem checkHeader_eq_ok_iff :
    checkHeader header = .ok () ↔ ∃ payloadType, header = headerOf payloadType := by
  constructor
  · obtain ⟨messageType, payloadType, payloadLength⟩ := header
    intro checked
    unfold checkHeader at checked
    split at checked
    · contradiction
    · split at checked
      · contradiction
      · rename_i named length
        refine ⟨payloadType, ?_⟩
        rw [headerOf, StatusFrame.header, ← Decidable.not_not.mp named,
          ← Decidable.not_not.mp length]
  · intro described
    obtain ⟨payloadType, rfl⟩ := described
    rfl

/-! ### Both ways of reading -/

theorem code_of_frame (header : FrameHeader) (status : StatusFrame) (rest : List UInt8) :
    Reader.ofBlob
      (do
        Reader.skip Channel.headerSize
        Reader.signed 4)
      (header.toBytes ++ (status.codeBytes ++ rest)) =
        .ok ((littleEndian status.codeBytes : Int).bmod (Nat.pow 256 4)) := by
  have skipped := Reader.skip_append 0 header.toBytes (status.codeBytes ++ rest)
  have code := Reader.signed_append (0 + Channel.headerSize) status.codeBytes rest
  rw [header.toBytes_length] at skipped
  rw [status.codeBytes_length] at code
  simp only [Reader.ofBlob, Cursor.ofBytes, bind, EStateM.bind, skipped, code]

theorem parse_frame (header : FrameHeader) (status : StatusFrame) (rest : List UInt8) :
    parse (header.toBytes ++ (status.codeBytes ++ rest)) =
      (checkHeader header).map fun _ => status := by
  have code := code_of_frame header status rest
  have value : ofCode ((littleEndian status.codeBytes : Int).bmod (Nat.pow 256 4)) = status := by
    rw [ofCode, int32_ofInt_bmod, ← Int32.ofInt_eq_ofNat]
    exact status.ofCode_codeBytes
  unfold parse
  rw [FrameHeader.parse_toBytes_append]
  cases checked : checkHeader header with
  | error error =>
      simp only [bind, Except.bind, checked]
      rfl
  | ok _ =>
      simp only [bind, Except.bind, checked] at code ⊢
      rw [code]
      exact congrArg Except.ok value

theorem receive_frame
    (delivers : Delivers stream.incoming (header.toBytes ++ (status.codeBytes ++ rest))) :
    Channel.answer (receive stream) = ((checkHeader header).map fun _ => status) ∧
      ∀ found after, receive stream = .ok found after →
        ∃ left, after = { stream with incoming := left } ∧ Delivers left rest := by
  obtain ⟨afterHeader, received, delivers⟩ := delivers.receive_header
  have payloadDelivers : Delivers { stream with incoming := afterHeader }.incoming
      (status.codeBytes ++ rest) := delivers
  obtain ⟨left, payload, delivers⟩ := payloadDelivers.receive_payload
  rw [status.codeBytes_length] at payload
  cases checked : checkHeader header with
  | error error =>
      have read : receive stream = .error error { stream with incoming := afterHeader } := by
        simp only [receive, bind, EStateM.bind, received, checked]
        rfl
      rw [read]
      exact ⟨rfl, nofun⟩
  | ok _ =>
      have read : receive stream = .ok status { stream with incoming := left } := by
        simp only [receive, bind, EStateM.bind, received, checked, payload, ofCode_codeBytes, pure,
          EStateM.pure]
      rw [read]
      refine ⟨rfl, ?_⟩
      intro found after taken
      cases taken
      exact ⟨left, rfl, delivers⟩

theorem receive_toBytes (delivers : Delivers stream.incoming (status.toBytes ++ rest)) :
    ∃ left, receive stream = .ok status { stream with incoming := left } ∧ Delivers left rest := by
  have split : status.toBytes ++ rest =
      StatusFrame.header.toBytes ++ (status.codeBytes ++ rest) := List.append_assoc ..
  rw [split] at delivers
  obtain ⟨received, leaves⟩ := receive_frame delivers
  obtain ⟨after, taken⟩ := Channel.exists_of_answer received
  obtain ⟨left, rfl, delivers⟩ := leaves status after taken
  exact ⟨left, taken, delivers⟩

/-! ### The frames that are taken -/

theorem checked_eq_ok_iff : ((checkHeader header).map fun _ => other) = .ok status ↔
    (∃ payloadType, header = headerOf payloadType) ∧ other = status := by
  rw [← checkHeader_eq_ok_iff]
  cases checkHeader header with
  | error error => exact ⟨nofun, nofun⟩
  | ok _ => simp [Except.map]

/--
Twelve bytes, in whatever pieces they come, are read as a status just if they are its frame with any
type of the payload. Only with the type that statuses have are they what the status is written as.
-/
theorem decodes_iff (enough : 12 ≤ bytes.length) (delivers : Delivers stream.incoming bytes)
    (status : StatusFrame) :
    Channel.answer (receive stream) = parse bytes ∧
      (parse bytes = .ok status ↔ ∃ payloadType,
        bytes.take 12 = (headerOf payloadType).toBytes ++ status.codeBytes) ∧
      (bytes.take 12 = status.toBytes ↔ parse bytes = .ok status ∧
        ∃ header, FrameHeader.parse bytes = .ok header ∧
          header.payloadType = PayloadType.int32.wire) ∧
      ∀ after, receive stream = .ok status after →
        ∃ left, after = { stream with incoming := left } ∧ Delivers left (bytes.drop 12) := by
  obtain ⟨header, other, split⟩ := exists_of_length enough
  rw [split] at delivers
  obtain ⟨received, leaves⟩ := receive_frame delivers
  have parsed : parse bytes = (checkHeader header).map fun _ => other := by
    rw [split, parse_frame]
  have front : bytes.take 12 = header.toBytes ++ other.codeBytes := by
    rw [split, take_frame]
  have headed : FrameHeader.parse bytes = .ok header := by
    rw [split, FrameHeader.parse_toBytes_append]
  refine ⟨?_, ?_, ?_, ?_⟩
  · rw [received, parsed]
  · rw [parsed, checked_eq_ok_iff, front]
    simp only [frame_inj, exists_and_right]
  · have written : status.toBytes = (headerOf PayloadType.int32.wire).toBytes ++ status.codeBytes :=
      rfl
    rw [parsed, checked_eq_ok_iff, front, headed, written, frame_inj]
    constructor
    · intro same
      obtain ⟨rfl, rfl⟩ := same
      exact ⟨⟨⟨_, rfl⟩, rfl⟩, _, rfl, rfl⟩
    · intro taken
      obtain ⟨⟨⟨payloadType, rfl⟩, same⟩, _, found, named⟩ := taken
      obtain rfl := Except.ok.inj found
      have typed : payloadType = PayloadType.int32.wire := named
      rw [typed, same]
      exact ⟨rfl, rfl⟩
  · intro after taken
    exact leaves status after taken

/-- A failure that comes in three pieces, before the first byte of what follows it. -/
theorem decodes_iff_pieces :
    let status : StatusFrame := ⟨-2147024809⟩
    let pieces : List Piece := [.bytes [0x01, 0x00, 0x01], .interrupted,
      .bytes [0x00, 0x04, 0x00, 0x00, 0x00, 0x57, 0x00], .bytes [0x07, 0x80, 0x02]]
    Delivers pieces (status.toBytes ++ [0x02]) ∧ parse (status.toBytes ++ [0x02]) = .ok status ∧
      Channel.answer (receive ⟨pieces, [], none⟩) = parse (status.toBytes ++ [0x02]) := by
  intro status pieces
  have joined : status.toBytes ++ [0x02] = [0x01, 0x00, 0x01] ++
      ([0x00, 0x04, 0x00, 0x00, 0x00, 0x57, 0x00] ++ ([0x07, 0x80, 0x02] ++ [])) := by decide
  have delivers : Delivers (ByteStream.mk pieces [] none).incoming (status.toBytes ++ [0x02]) := by
    rw [joined]
    exact .bytes (List.cons_ne_nil _ _) (.interrupted (.bytes (List.cons_ne_nil _ _)
      (.bytes (List.cons_ne_nil _ _) .done)))
  have enough : 12 ≤ (status.toBytes ++ [0x02]).length := by decide
  obtain ⟨agree, _, written, _⟩ := decodes_iff enough delivers status
  exact ⟨delivers, (written.mp rfl).1, agree⟩

/-- A frame of no payload type is taken for a success, but no status is written so. -/
theorem untyped_status_taken :
    let bytes : List UInt8 :=
      [0x01, 0x00, 0x00, 0x00, 0x04, 0x00, 0x00, 0x00, 0x00, 0x00, 0x00, 0x00]
    parse bytes = .ok ⟨0⟩ ∧ Channel.answer (receive ⟨[.bytes bytes], [], none⟩) = .ok ⟨0⟩ ∧
      ∀ status : StatusFrame, bytes.take 12 ≠ status.toBytes := by
  intro bytes
  have written : bytes = (headerOf PayloadType.empty.wire).toBytes ++ (codeBytes ⟨0⟩ ++ []) := rfl
  have delivers : Delivers (ByteStream.mk [.bytes bytes] [] none).incoming (bytes ++ []) :=
    .bytes (List.cons_ne_nil _ _) .done
  rw [List.append_nil, written] at delivers
  refine ⟨?_, (receive_frame delivers).1, ?_⟩
  · rw [written, parse_frame]
    rfl
  · intro status same
    have third : bytes[2]? = status.toBytes[2]? := congrArg (fun bytes => bytes[2]?) same
    have typed : status.toBytes[2]? = some 1 := rfl
    rw [typed] at third
    exact absurd third (by decide)

end StatusFrame

end CallCapture
