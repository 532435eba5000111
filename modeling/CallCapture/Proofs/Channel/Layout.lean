import CallCapture.Channel.Frame

/-!
The layout of numbers and frame headers: a number of a given width and its bytes determine each
other, and so do a header and its eight bytes.
-/

namespace CallCapture

theorem littleEndianBytes_length (width number : Nat) :
    (littleEndianBytes width number).length = width := by
  induction width generalizing number with
  | zero => rfl
  | succ width ih => simp [littleEndianBytes, ih]

theorem littleEndian_lt (bytes : List UInt8) :
    littleEndian bytes < Nat.pow 256 bytes.length := by
  induction bytes with
  | nil => exact Nat.one_pos
  | cons first rest ih =>
      have digit := first.toNat_lt
      have power : Nat.pow 256 (first :: rest).length = Nat.pow 256 rest.length * 256 := rfl
      rw [power]
      simp only [littleEndian]
      omega

/-- Digits that are read back give the number, if it has room in the width. -/
theorem littleEndian_littleEndianBytes {width number : Nat} (room : number < Nat.pow 256 width) :
    littleEndian (littleEndianBytes width number) = number := by
  induction width generalizing number with
  | zero =>
      have zero : number < 1 := room
      simp only [littleEndianBytes, littleEndian]
      omega
  | succ width ih =>
      have higher : number / 256 < Nat.pow 256 width := by
        have power : Nat.pow 256 (width + 1) = Nat.pow 256 width * 256 := rfl
        rw [power] at room
        omega
      simp only [littleEndianBytes, littleEndian, ih higher, UInt8.toNat_ofNat']
      omega

theorem littleEndianBytes_littleEndian (bytes : List UInt8) :
    littleEndianBytes bytes.length (littleEndian bytes) = bytes := by
  induction bytes with
  | nil => rfl
  | cons first rest ih =>
      have digit := first.toNat_lt
      have higher : (first.toNat + 256 * littleEndian rest) / 256 = littleEndian rest := by omega
      have lowest : UInt8.ofNat (first.toNat + 256 * littleEndian rest) = first := by
        apply UInt8.toNat_inj.mp
        rw [UInt8.toNat_ofNat']
        omega
      simp only [List.length_cons, littleEndian, littleEndianBytes, higher, lowest, ih]

/-- A number of as many bytes as are there, in two's complement. -/
theorem Reader.signed_append (pos : Nat) (bytes rest : List UInt8) :
    Reader.signed bytes.length ⟨pos, bytes ++ rest⟩ =
      .ok ((littleEndian bytes : Int).bmod (Nat.pow 256 bytes.length))
        ⟨pos + bytes.length, rest⟩ := by
  have enough : ¬ (bytes ++ rest).length < bytes.length := by simp
  simp only [signed, unsigned, take, Cursor.remaining, enough, bind, EStateM.bind, pure,
    EStateM.pure, if_false, List.take_left, List.drop_left]

theorem Reader.skip_append (pos : Nat) (bytes rest : List UInt8) :
    Reader.skip bytes.length ⟨pos, bytes ++ rest⟩ = .ok () ⟨pos + bytes.length, rest⟩ := by
  have enough : ¬ (bytes ++ rest).length < bytes.length := by simp
  simp only [skip, take, Cursor.remaining, enough, bind, EStateM.bind, pure, EStateM.pure, if_false,
    List.drop_left]

theorem int16_ofInt_bmod (number : Nat) :
    Int16.ofInt ((number : Int).bmod (Nat.pow 256 2)) = Int16.ofNat number := by
  apply Int16.toInt.inj
  rw [Int16.toInt_ofInt, Int16.toInt_ofNat']
  exact Int.bmod_bmod

theorem int32_ofInt_bmod (number : Nat) :
    Int32.ofInt ((number : Int).bmod (Nat.pow 256 4)) = Int32.ofNat number := by
  apply Int32.toInt.inj
  rw [Int32.toInt_ofInt, Int32.toInt_ofNat']
  exact Int.bmod_bmod

namespace FrameHeader

theorem toBytes_length (header : FrameHeader) : header.toBytes.length = Channel.headerSize := by
  simp [toBytes, littleEndianBytes_length, Channel.headerSize]

/-- The three fields stand one after another, and what follows them is not looked at. -/
theorem parse_append {first second third : List UInt8} (rest : List UInt8)
    (firstSize : first.length = 2) (secondSize : second.length = 2) (thirdSize : third.length = 4) :
    parse (first ++ second ++ third ++ rest) =
      .ok ⟨.ofNat (littleEndian first), .ofNat (littleEndian second),
        .ofNat (littleEndian third)⟩ := by
  have messageType := Reader.signed_append 0 first (second ++ (third ++ rest))
  have payloadType := Reader.signed_append 2 second (third ++ rest)
  have payloadLength := Reader.signed_append 4 third rest
  rw [firstSize] at messageType
  rw [secondSize] at payloadType
  rw [thirdSize] at payloadLength
  simp only [parse, Reader.ofBlob, reader, Cursor.ofBytes, bind, EStateM.bind, pure, EStateM.pure,
    List.append_assoc, messageType, payloadType, payloadLength, int16_ofInt_bmod, int32_ofInt_bmod]

theorem parse_toBytes_append (header : FrameHeader) (rest : List UInt8) :
    parse (header.toBytes ++ rest) = .ok header := by
  have messageType : littleEndian (littleEndianBytes 2 header.messageType.toUInt16.toNat) =
      header.messageType.toUInt16.toNat :=
    littleEndian_littleEndianBytes header.messageType.toUInt16.toNat_lt
  have payloadType : littleEndian (littleEndianBytes 2 header.payloadType.toUInt16.toNat) =
      header.payloadType.toUInt16.toNat :=
    littleEndian_littleEndianBytes header.payloadType.toUInt16.toNat_lt
  have payloadLength : littleEndian (littleEndianBytes 4 header.payloadLength.toUInt32.toNat) =
      header.payloadLength.toUInt32.toNat :=
    littleEndian_littleEndianBytes header.payloadLength.toUInt32.toNat_lt
  rw [toBytes, parse_append rest (littleEndianBytes_length 2 _) (littleEndianBytes_length 2 _)
    (littleEndianBytes_length 4 _), messageType, payloadType, payloadLength]
  simp only [← UInt16.toInt16_ofNat', ← UInt32.toInt32_ofNat', UInt16.ofNat_toNat,
    UInt32.ofNat_toNat, Int16.toInt16_toUInt16, Int32.toInt32_toUInt32]

theorem parse_toBytes (header : FrameHeader) : parse header.toBytes = .ok header := by
  rw [← header.parse_toBytes_append [], List.append_nil]

theorem toBytes_inj {header other : FrameHeader} :
    header.toBytes = other.toBytes ↔ header = other := by
  constructor
  · intro same
    have read := header.parse_toBytes
    rw [same, other.parse_toBytes] at read
    exact (Except.ok.inj read).symm
  · intro same
    rw [same]

theorem toBytes_ofNat {first second third : List UInt8}
    (firstSize : first.length = 2) (secondSize : second.length = 2) (thirdSize : third.length = 4) :
    toBytes ⟨.ofNat (littleEndian first), .ofNat (littleEndian second),
      .ofNat (littleEndian third)⟩ = first ++ second ++ third := by
  have firstRoom := littleEndian_lt first
  have secondRoom := littleEndian_lt second
  have thirdRoom := littleEndian_lt third
  rw [firstSize] at firstRoom
  rw [secondSize] at secondRoom
  rw [thirdSize] at thirdRoom
  have firstBytes := littleEndianBytes_littleEndian first
  have secondBytes := littleEndianBytes_littleEndian second
  have thirdBytes := littleEndianBytes_littleEndian third
  rw [firstSize] at firstBytes
  rw [secondSize] at secondBytes
  rw [thirdSize] at thirdBytes
  simp only [toBytes, Int16.toUInt16_ofNat', Int32.toUInt32_ofNat', UInt16.toNat_ofNat',
    UInt32.toNat_ofNat']
  rw [Nat.mod_eq_of_lt firstRoom, Nat.mod_eq_of_lt secondRoom, Nat.mod_eq_of_lt thirdRoom,
    firstBytes, secondBytes, thirdBytes]

/-- The announced length stands last. -/
theorem payloadLength_of_toBytes (header : FrameHeader) (rest : List UInt8) :
    Int32.ofNat (littleEndian (((header.toBytes ++ rest).drop 4).take 4)) =
      header.payloadLength := by
  have payloadLength : littleEndian (littleEndianBytes 4 header.payloadLength.toUInt32.toNat) =
      header.payloadLength.toUInt32.toNat :=
    littleEndian_littleEndianBytes header.payloadLength.toUInt32.toNat_lt
  have types : (littleEndianBytes 2 header.messageType.toUInt16.toNat ++
      littleEndianBytes 2 header.payloadType.toUInt16.toNat).length = 4 := by
    simp [littleEndianBytes_length]
  have size := littleEndianBytes_length 4 header.payloadLength.toUInt32.toNat
  rw [toBytes, List.append_assoc, List.drop_left' types, List.take_left' size, payloadLength,
    ← UInt32.toInt32_ofNat', UInt32.ofNat_toNat, Int32.toInt32_toUInt32]

/-- Any eight bytes are a header. -/
theorem exists_of_length {bytes : List UInt8} (size : bytes.length = Channel.headerSize) :
    ∃ header : FrameHeader, bytes = header.toBytes := by
  have eight : bytes.length = 8 := size
  have fields : bytes = bytes.take 2 ++ (bytes.drop 2).take 2 ++ (bytes.drop 2).drop 2 := by
    rw [List.append_assoc, List.take_append_drop, List.take_append_drop]
  refine ⟨_, fields.trans (toBytes_ofNat ?_ ?_ ?_).symm⟩
  · simp [eight]
  · simp [eight]
  · simp [eight]

end FrameHeader

end CallCapture
