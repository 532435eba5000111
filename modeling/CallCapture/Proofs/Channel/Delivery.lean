import CallCapture.Proofs.Channel.Layout

/-!
Pieces that deliver a byte string, cut anywhere and with interruptions anywhere. What is read from
them depends on the bytes alone.
-/

namespace CallCapture

/-- The number of bytes that wait to be read. -/
def ByteStream.unread (stream : ByteStream) : Nat :=
  stream.incoming.foldr (fun piece others => piece.size + others) 0

theorem ByteStream.unread_le_extent (stream : ByteStream) : stream.unread ≤ stream.extent := by
  unfold unread extent
  induction stream.incoming with
  | nil => exact Nat.le_refl _
  | cons piece rest ih =>
      rw [List.foldr_cons, List.foldr_cons]
      omega

/-- The pieces bring the bytes and then the end of the stream. -/
inductive Delivers : List Piece → List UInt8 → Prop where
  | done : Delivers [] []
  | interrupted {pieces : List Piece} {bytes : List UInt8} :
      Delivers pieces bytes → Delivers (.interrupted :: pieces) bytes
  | bytes {data : List UInt8} {pieces : List Piece} {bytes : List UInt8} :
      data ≠ [] → Delivers pieces bytes → Delivers (.bytes data :: pieces) (data ++ bytes)

namespace Delivers

variable {pieces : List Piece} {bytes : List UInt8}

theorem append {morePieces : List Piece} {moreBytes : List UInt8} (first : Delivers pieces bytes)
    (more : Delivers morePieces moreBytes) :
    Delivers (pieces ++ morePieces) (bytes ++ moreBytes) := by
  induction first with
  | done => exact more
  | interrupted _ ih => exact .interrupted ih
  | bytes some _ ih =>
      rw [List.append_assoc]
      exact .bytes some ih

/-- An attempt that the bytes suffice for takes just what it needs. -/
theorem fill_of_le (delivers : Delivers pieces bytes) (need : Nat) (enough : need ≤ bytes.length) :
    ∃ left, ByteStream.fill need pieces = (bytes.take need, .complete, left) ∧
      Delivers left (bytes.drop need) := by
  induction delivers generalizing need with
  | done =>
      have none : need = 0 := by simpa using enough
      subst none
      exact ⟨[], rfl, .done⟩
  | @interrupted pieces bytes rest ih =>
      by_cases none : need = 0
      · subst none
        exact ⟨_, rfl, .interrupted rest⟩
      · obtain ⟨left, filled, delivered⟩ := ih need enough
        exact ⟨left, by simp only [ByteStream.fill, none, if_false, filled], delivered⟩
  | @bytes data pieces bytes some rest ih =>
      by_cases none : need = 0
      · subst none
        exact ⟨_, rfl, .bytes some rest⟩
      · cases data with
        | nil => contradiction
        | cons first others =>
            by_cases within : need < (first :: others).length
            · refine ⟨.bytes ((first :: others).drop need) :: pieces, ?_, ?_⟩
              · rw [List.take_append_of_le_length (Nat.le_of_lt within)]
                simp only [ByteStream.fill, none, if_false, within, if_true]
              · rw [List.drop_append_of_le_length (Nat.le_of_lt within)]
                refine .bytes ?_ rest
                simpa using within
            · rw [List.length_append] at enough
              obtain ⟨left, filled, delivered⟩ :=
                ih (need - (first :: others).length) (by omega)
              refine ⟨left, ?_, ?_⟩
              · rw [List.take_append, List.take_of_length_le (by omega)]
                simp only [ByteStream.fill, none, if_false, within, filled]
              · rw [List.drop_append, List.drop_eq_nil_of_le (by omega), List.nil_append]
                exact delivered

/-- An attempt that the bytes do not suffice for takes them all and meets the end. -/
theorem fill_of_lt (delivers : Delivers pieces bytes) (need : Nat) (short : bytes.length < need) :
    ByteStream.fill need pieces = (bytes, .ended, []) := by
  induction delivers generalizing need with
  | done =>
      have some : need ≠ 0 := Nat.ne_of_gt short
      simp only [ByteStream.fill, some, if_false]
  | interrupted _ ih =>
      have some : need ≠ 0 := by omega
      simp only [ByteStream.fill, some, if_false, ih need short]
  | @bytes data pieces bytes nonempty rest ih =>
      rw [List.length_append] at short
      have some : need ≠ 0 := by omega
      have beyond : ¬ need < data.length := by omega
      have filled := ih (need - data.length) (by omega)
      cases data with
      | nil => contradiction
      | cons first others => simp only [ByteStream.fill, some, if_false, beyond, filled]

/-- An attempt to read what stands in front takes just that. -/
theorem fill_front {front rest : List UInt8} (delivers : Delivers pieces (front ++ rest)) {need : Nat}
    (size : front.length = need) :
    ∃ left, ByteStream.fill need pieces = (front, .complete, left) ∧ Delivers left rest := by
  subst size
  obtain ⟨left, filled, delivered⟩ := delivers.fill_of_le front.length (by simp)
  rw [List.take_left] at filled
  rw [List.drop_left] at delivered
  exact ⟨left, filled, delivered⟩

variable {stream : ByteStream} {rest : List UInt8}

theorem unread_eq (delivers : Delivers stream.incoming bytes) : stream.unread = bytes.length := by
  have summed : ∀ {pieces : List Piece} {bytes : List UInt8}, Delivers pieces bytes →
      pieces.foldr (fun piece others => piece.size + others) 0 = bytes.length := by
    intro pieces bytes delivers
    induction delivers with
    | done => rfl
    | interrupted _ ih =>
        rw [List.foldr_cons, ih]
        exact Nat.zero_add _
    | bytes _ _ ih =>
        rw [List.foldr_cons, ih, List.length_append]
        rfl
  exact summed delivers

theorem receive_header {header : FrameHeader}
    (delivers : Delivers stream.incoming (header.toBytes ++ rest)) :
    ∃ left, FrameHeader.receive stream = .ok (some header) { stream with incoming := left } ∧
      Delivers left rest := by
  obtain ⟨left, filled, delivered⟩ := delivers.fill_front header.toBytes_length
  refine ⟨left, ?_, delivered⟩
  simp only [FrameHeader.receive, ByteStream.read, filled, FrameHeader.parse_toBytes]

theorem receive_header_ended (delivers : Delivers stream.incoming []) :
    FrameHeader.receive stream = .ok none { stream with incoming := [] } := by
  have filled := delivers.fill_of_lt Channel.headerSize (by decide)
  simp only [FrameHeader.receive, ByteStream.read, filled]

theorem receive_header_truncated (delivers : Delivers stream.incoming bytes)
    (some : bytes ≠ []) (short : bytes.length < Channel.headerSize) :
    FrameHeader.receive stream =
      .error (.protocol (.headerTruncated bytes.length)) { stream with incoming := [] } := by
  have filled := delivers.fill_of_lt _ short
  cases bytes with
  | nil => contradiction
  | cons first others => simp only [FrameHeader.receive, ByteStream.read, filled]

theorem receive_payload {payload : List UInt8}
    (delivers : Delivers stream.incoming (payload ++ rest)) :
    ∃ left, Channel.payload payload.length stream = .ok payload { stream with incoming := left } ∧
      Delivers left rest := by
  obtain ⟨left, filled, delivered⟩ := delivers.fill_front rfl
  exact ⟨left, by simp only [Channel.payload, ByteStream.read, filled], delivered⟩

theorem receive_payload_truncated {length : Nat} (delivers : Delivers stream.incoming bytes)
    (short : bytes.length < length) :
    Channel.payload length stream =
      .error (.protocol .payloadTruncated) { stream with incoming := [] } := by
  have filled := delivers.fill_of_lt _ short
  simp only [Channel.payload, ByteStream.read, filled]

end Delivers

end CallCapture
