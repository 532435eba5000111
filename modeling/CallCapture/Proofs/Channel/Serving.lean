import CallCapture.Channel.Dispatcher
import CallCapture.Proofs.Channel.Delivery

/-!
What a dispatcher makes of a byte string, however it is delivered: the string is parsed greedily
into complete frames, each frame is answered by one status frame, and the bytes that are left over
decide only how serving ends.
-/

namespace CallCapture

/-- The header announces the payload that is there, and its length is allowed. -/
structure CommandFrame.Complete (frame : CommandFrame) : Prop where
  announced : frame.header.payloadLength.toInt = frame.payload.length
  bounded : frame.payload.length ≤ Channel.maxPayloadLength

/-- A byte string as complete frames, and a tail that does not begin with one. -/
structure CommandFrame.Parsed (bytes : List UInt8) (frames : List CommandFrame)
    (tail : List UInt8) : Prop where
  joined : bytes = frames.flatMap CommandFrame.toBytes ++ tail
  complete : ∀ frame ∈ frames, frame.Complete
  stuck : ∀ frame rest, CommandFrame.Complete frame → tail ≠ frame.toBytes ++ rest

namespace CommandFrame

theorem toBytes_length (frame : CommandFrame) :
    frame.toBytes.length = Channel.headerSize + frame.payload.length := by
  rw [toBytes, List.length_append, frame.header.toBytes_length]

theorem length_le_flatMap (frames : List CommandFrame) :
    frames.length ≤ (frames.flatMap toBytes).length := by
  induction frames with
  | nil => exact Nat.le_refl _
  | cons frame rest ih =>
      have header : Channel.headerSize = 8 := rfl
      rw [List.flatMap_cons, List.length_append, toBytes_length, List.length_cons]
      omega

theorem stuck_of_lt {tail : List UInt8} (short : tail.length < Channel.headerSize)
    (frame : CommandFrame) (rest : List UInt8) (_ : frame.Complete) :
    tail ≠ frame.toBytes ++ rest := by
  intro joined
  rw [joined, List.length_append, toBytes_length] at short
  omega

theorem parsed_exists (bytes : List UInt8) : ∃ frames tail, Parsed bytes frames tail := by
  induction size : bytes.length using Nat.strongRecOn generalizing bytes with
  | ind length ih =>
      by_cases starts : ∃ frame rest, CommandFrame.Complete frame ∧ bytes = frame.toBytes ++ rest
      · obtain ⟨frame, rest, complete, joined⟩ := starts
        have header : Channel.headerSize = 8 := rfl
        have shorter : rest.length < length := by
          rw [← size, joined, List.length_append, toBytes_length]
          omega
        obtain ⟨frames, tail, parsed⟩ := ih rest.length shorter rest rfl
        refine ⟨frame :: frames, tail, ?_, ?_, parsed.stuck⟩
        · rw [joined, List.flatMap_cons, List.append_assoc, ← parsed.joined]
        · exact List.forall_mem_cons.mpr ⟨complete, parsed.complete⟩
      · refine ⟨[], bytes, rfl, by simp, ?_⟩
        intro frame rest complete joined
        exact starts ⟨frame, rest, complete, joined⟩

theorem payloadSize_of_complete {frame : CommandFrame} (complete : frame.Complete) :
    frame.header.payloadSize = .ok frame.payload.length := by
  have bounded := complete.bounded
  have allowed : (0 : Int) ≤ frame.payload.length ∧
      (frame.payload.length : Int) ≤ Channel.maxPayloadLength := by omega
  simp only [FrameHeader.payloadSize, complete.announced]
  rw [if_pos allowed, Int.toNat_natCast]

variable {stream : ByteStream} {rest : List UInt8}

theorem receive_complete {frame : CommandFrame} (complete : frame.Complete)
    (delivers : Delivers stream.incoming (frame.toBytes ++ rest)) :
    ∃ left, receive stream = .ok (some frame) { stream with incoming := left } ∧
      Delivers left rest := by
  rw [toBytes, List.append_assoc] at delivers
  obtain ⟨afterHeader, header, delivers⟩ := delivers.receive_header
  have payloadDelivers : Delivers { stream with incoming := afterHeader }.incoming
      (frame.payload ++ rest) := delivers
  obtain ⟨left, payload, delivers⟩ := payloadDelivers.receive_payload
  refine ⟨left, ?_, delivers⟩
  simp only [receive, bind, EStateM.bind, header, payloadSize_of_complete complete, payload, pure,
    EStateM.pure]

end CommandFrame

theorem StatusFrame.toBytes_length (status : StatusFrame) : status.toBytes.length = 12 := by
  rw [toBytes, List.length_append, header.toBytes_length, littleEndianBytes_length]
  rfl

theorem MessageType.ofWire_error {wire : Int16} {error : Error}
    (refused : ofWire wire = .error error) : error = .protocol (.messageType wire) := by
  unfold ofWire at refused
  split at refused
  · contradiction
  · exact (Except.error.inj refused).symm

theorem PayloadType.ofWire_error {wire : Int16} {error : Error}
    (refused : ofWire wire = .error error) : error = .protocol (.payloadType wire) := by
  unfold ofWire at refused
  split at refused
  · contradiction
  · exact (Except.error.inj refused).symm

theorem Command.ofPayload_error {messageType : MessageType} {payloadType : PayloadType}
    {payload : List UInt8} {error : Error}
    (refused : ofPayload messageType payloadType payload = .error error) :
    error = .json ∨ ∃ fault, error = .protocol fault := by
  unfold ofPayload at refused
  split at refused
  · split at refused
    · contradiction
    · exact .inl (Except.error.inj refused).symm
  · split at refused
    · contradiction
    · exact .inr ⟨_, (Except.error.inj refused).symm⟩
  · exact .inr ⟨_, (Except.error.inj refused).symm⟩

namespace Dispatcher

/-- How serving ends at bytes that do not begin with a complete frame. -/
def tailOutcome (tail : List UInt8) : Except Error Unit :=
  if tail.isEmpty then .ok ()
  else if tail.length < Channel.headerSize then
    .error (.protocol (.headerTruncated tail.length))
  else
    let length := Int32.ofNat (littleEndian ((tail.drop 4).take 4))
    if 0 ≤ length.toInt ∧ length.toInt ≤ Channel.maxPayloadLength then
      .error (.protocol .payloadTruncated)
    else .error (.protocol (.payloadLength length))

variable {World : Type} (handler : CommandHandler World) {stream : ByteStream}

def replies (handler : CommandHandler World) : List CommandFrame → World → List Int32
  | [], _ => []
  | frame :: rest, world =>
      match Command.ofFrame frame with
      | .ok command =>
          let (code, after) := handler command world
          code :: replies handler rest after
      | .error _ => ResultCode.invalidArgument :: replies handler rest world

/-- The commands that the frames hold. -/
def commandsOf (frames : List CommandFrame) : List Command :=
  frames.filterMap fun frame => (Command.ofFrame frame).toOption

/-- The world after the handler obeyed commands one after another. -/
def obeyAll (handler : CommandHandler World) (commands : List Command) (world : World) : World :=
  commands.foldl (fun world command => (handler command world).2) world

theorem replies_length (frames : List CommandFrame) (world : World) :
    (replies handler frames world).length = frames.length := by
  induction frames generalizing world with
  | nil => rfl
  | cons frame rest ih =>
      simp only [replies]
      split
      · simp only [List.length_cons, ih]
      · simp only [List.length_cons, ih]

/-- A frame that holds no command is an invalid argument, whatever is wrong with it. -/
theorem ofError_of_ofFrame {frame : CommandFrame} {error : Error}
    (refused : Command.ofFrame frame = .error error) :
    ResultCode.ofError error = ResultCode.invalidArgument := by
  simp only [Command.ofFrame, bind, Except.bind] at refused
  cases messageType : MessageType.ofWire frame.header.messageType with
  | error fault =>
      rw [messageType] at refused
      cases refused
      rw [MessageType.ofWire_error messageType]
      rfl
  | ok message =>
      cases payloadType : PayloadType.ofWire frame.header.payloadType with
      | error fault =>
          rw [messageType, payloadType] at refused
          cases refused
          rw [PayloadType.ofWire_error payloadType]
          rfl
      | ok payload =>
          simp only [messageType, payloadType] at refused
          obtain same | ⟨fault, same⟩ := Command.ofPayload_error refused
          · rw [same]
            rfl
          · rw [same]
            rfl

theorem answer_eq (frame : CommandFrame) (rest : List CommandFrame) (world : World) :
    replies handler (frame :: rest) world = (answer handler frame world).1 ::
        replies handler rest (answer handler frame world).2 ∧
      obeyAll handler (commandsOf (frame :: rest)) world =
        obeyAll handler (commandsOf rest) (answer handler frame world).2 := by
  cases decoded : Command.ofFrame frame with
  | ok command =>
      simp only [replies, answer, decoded, obeyAll, commandsOf, List.filterMap_cons,
        Except.toOption, List.foldl_cons, and_self]
  | error error =>
      simp only [replies, answer, decoded, ofError_of_ofFrame decoded, obeyAll, commandsOf,
        List.filterMap_cons, Except.toOption, and_self]

theorem serveOne_complete {frame : CommandFrame} {rest : List UInt8} (world : World)
    (complete : frame.Complete) (unlimited : stream.writeLimit = none)
    (delivers : Delivers stream.incoming (frame.toBytes ++ rest)) :
    ∃ left, serveOne handler world stream =
        (.ok true, (answer handler frame world).2,
          ⟨left, stream.outgoing ++ StatusFrame.toBytes ⟨(answer handler frame world).1⟩, none⟩) ∧
      Delivers left rest := by
  obtain ⟨left, received, delivers⟩ := CommandFrame.receive_complete complete delivers
  refine ⟨left, ?_, delivers⟩
  simp only [serveOne, received, Channel.write, ByteStream.write, unlimited]

/-- A header after which the stream does not hold the payload that it announces. -/
theorem receive_incomplete {header : FrameHeader} {rest : List UInt8}
    (stuck : ∀ frame more, CommandFrame.Complete frame → header.toBytes ++ rest ≠
      frame.toBytes ++ more)
    (delivers : Delivers stream.incoming (header.toBytes ++ rest)) :
    ∃ left error, tailOutcome (header.toBytes ++ rest) = .error error ∧
      CommandFrame.receive stream = .error error { stream with incoming := left } := by
  obtain ⟨left, received, delivers⟩ := delivers.receive_header
  have size := header.toBytes_length
  have long : ¬ (header.toBytes ++ rest).length < Channel.headerSize := by
    rw [List.length_append, size]
    omega
  have some : (header.toBytes ++ rest).isEmpty = false := by
    cases empty : header.toBytes ++ rest with
    | nil =>
        rw [empty] at long
        contradiction
    | cons first others => rfl
  simp only [tailOutcome, some, long, header.payloadLength_of_toBytes, Bool.false_eq_true, if_false]
  by_cases allowed : 0 ≤ header.payloadLength.toInt ∧
      header.payloadLength.toInt ≤ Channel.maxPayloadLength
  · have payloadSize : header.payloadSize = .ok header.payloadLength.toInt.toNat := by
      simp only [FrameHeader.payloadSize, allowed, and_self, if_true]
    have short : rest.length < header.payloadLength.toInt.toNat := by
      apply Nat.lt_of_not_le
      intro enough
      apply stuck ⟨header, rest.take header.payloadLength.toInt.toNat⟩
        (rest.drop header.payloadLength.toInt.toNat)
      · constructor
        · simp only [List.length_take, Nat.min_eq_left enough]
          omega
        · simp only [List.length_take, Nat.min_eq_left enough]
          omega
      · simp only [CommandFrame.toBytes, List.append_assoc, List.take_append_drop]
    have payloadDelivers : Delivers { stream with incoming := left }.incoming rest := delivers
    have truncated := payloadDelivers.receive_payload_truncated short
    refine ⟨[], .protocol .payloadTruncated, by rw [if_pos allowed], ?_⟩
    simp only [CommandFrame.receive, bind, EStateM.bind, received, payloadSize, truncated]
  · have payloadSize : header.payloadSize =
        .error (.protocol (.payloadLength header.payloadLength)) := by
      simp only [FrameHeader.payloadSize, allowed, if_false]
    refine ⟨left, .protocol (.payloadLength header.payloadLength), by rw [if_neg allowed], ?_⟩
    simp only [CommandFrame.receive, bind, EStateM.bind, received, payloadSize]
    rfl

/-- At the tail nothing is obeyed and nothing written. -/
theorem serveOne_tail {tail : List UInt8} (world : World)
    (stuck : ∀ frame rest, CommandFrame.Complete frame → tail ≠ frame.toBytes ++ rest)
    (delivers : Delivers stream.incoming tail) :
    ∃ left, serveOne handler world stream =
      ((tailOutcome tail).map fun _ => false, world, { stream with incoming := left }) := by
  by_cases ended : tail = []
  · subst ended
    refine ⟨[], ?_⟩
    simp only [serveOne, CommandFrame.receive, bind, EStateM.bind, delivers.receive_header_ended]
    rfl
  · have some : tail.isEmpty = false := by simpa using ended
    by_cases short : tail.length < Channel.headerSize
    · refine ⟨[], ?_⟩
      simp only [serveOne, CommandFrame.receive, bind, EStateM.bind,
        delivers.receive_header_truncated ended short, tailOutcome, some, short, if_true]
      rfl
    · have size : (tail.take Channel.headerSize).length = Channel.headerSize := by
        rw [List.length_take]
        omega
      obtain ⟨header, front⟩ := FrameHeader.exists_of_length size
      have joined : tail = header.toBytes ++ tail.drop Channel.headerSize := by
        rw [← front, List.take_append_drop]
      rw [joined] at stuck delivers ⊢
      obtain ⟨left, error, outcome, received⟩ := receive_incomplete stuck delivers
      refine ⟨left, ?_⟩
      simp only [serveOne, received, outcome]
      rfl

theorem serveWithin_parsed {frames : List CommandFrame} {tail : List UInt8} {fuel : Nat}
    (world : World) (enough : frames.length < fuel)
    (complete : ∀ frame ∈ frames, frame.Complete)
    (stuck : ∀ frame rest, CommandFrame.Complete frame → tail ≠ frame.toBytes ++ rest)
    (unlimited : stream.writeLimit = none)
    (delivers : Delivers stream.incoming (frames.flatMap CommandFrame.toBytes ++ tail)) :
    ∃ left, serveWithin handler fuel world stream =
      (tailOutcome tail, obeyAll handler (commandsOf frames) world,
        ⟨left, stream.outgoing
          ++ (replies handler frames world).flatMap fun code => StatusFrame.toBytes ⟨code⟩,
          none⟩) := by
  induction frames generalizing fuel world stream with
  | nil =>
      cases fuel with
      | zero => contradiction
      | succ fuel =>
          obtain ⟨left, served⟩ := serveOne_tail handler world stuck delivers
          refine ⟨left, ?_⟩
          simp only [serveWithin, served, replies, commandsOf, obeyAll, List.filterMap_nil,
            List.foldl_nil, List.flatMap_nil, List.append_nil]
          cases tailOutcome tail with
          | ok done => simp only [Except.map, unlimited]
          | error error => simp only [Except.map, unlimited]
  | cons frame rest ih =>
      cases fuel with
      | zero => contradiction
      | succ fuel =>
          rw [List.flatMap_cons, List.append_assoc] at delivers
          obtain ⟨frameComplete, complete⟩ := List.forall_mem_cons.mp complete
          obtain ⟨left, served, delivers⟩ :=
            serveOne_complete handler world frameComplete unlimited delivers
          obtain ⟨codes, obeyed⟩ := answer_eq handler frame rest world
          cases answered : answer handler frame world with
          | mk code next =>
              rw [answered] at served codes obeyed
              have ahead : Delivers (ByteStream.mk left
                  (stream.outgoing ++ StatusFrame.toBytes ⟨code⟩) none).incoming
                  (rest.flatMap CommandFrame.toBytes ++ tail) := delivers
              obtain ⟨last, after⟩ :=
                ih next (Nat.lt_of_succ_lt_succ enough) complete rfl ahead
              refine ⟨last, ?_⟩
              simp only [serveWithin, served, after, codes, obeyed, List.flatMap_cons,
                List.append_assoc]

theorem serve_of_parsed (world : World) {bytes tail : List UInt8} {frames : List CommandFrame}
    (parsed : CommandFrame.Parsed bytes frames tail) (unlimited : stream.writeLimit = none)
    (delivers : Delivers stream.incoming bytes) :
    ∃ left, serve handler world stream =
      (tailOutcome tail, obeyAll handler (commandsOf frames) world,
        ⟨left, stream.outgoing
          ++ (replies handler frames world).flatMap fun code => StatusFrame.toBytes ⟨code⟩,
          none⟩) := by
  have count : frames.length < stream.extent + 1 := by
    have long := stream.unread_le_extent
    have short := CommandFrame.length_le_flatMap frames
    rw [delivers.unread_eq, parsed.joined, List.length_append] at long
    omega
  rw [parsed.joined] at delivers
  exact serveWithin_parsed handler world count parsed.complete parsed.stuck unlimited delivers

/-- Every byte string is complete frames and a tail. Serving it, however it is delivered, obeys the
commands that the frames hold, writes one status frame of twelve bytes for each frame, and ends as
the tail says, for which nothing is obeyed and nothing written. -/
theorem serve_parsed (handler : CommandHandler World) (world : World) {bytes : List UInt8}
    (unlimited : stream.writeLimit = none) (delivers : Delivers stream.incoming bytes) :
    (∃ frames tail, CommandFrame.Parsed bytes frames tail) ∧
      ∀ frames tail, CommandFrame.Parsed bytes frames tail →
        let codes := replies handler frames world
        ∃ left, serve handler world stream =
            (tailOutcome tail, obeyAll handler (commandsOf frames) world,
              ⟨left, stream.outgoing ++ codes.flatMap fun code => StatusFrame.toBytes ⟨code⟩,
                none⟩) ∧
          codes.length = frames.length ∧
          ∀ code, (StatusFrame.toBytes ⟨code⟩).length = 12 := by
  refine ⟨CommandFrame.parsed_exists bytes, ?_⟩
  intro frames tail parsed
  obtain ⟨left, served⟩ := serve_of_parsed handler world parsed unlimited delivers
  exact ⟨left, served, replies_length handler frames world, fun code => StatusFrame.toBytes_length ⟨code⟩⟩

/-- A command in pieces, a frame that holds none, and a header that breaks off. -/
theorem serve_parsed_pieces :
    let handler : CommandHandler (List Command) := fun command seen => (7, seen ++ [command])
    let stream : ByteStream := ⟨[.interrupted, .bytes [3, 0, 0], .interrupted,
      .bytes [0, 0, 0, 0, 0, 9], .bytes [0, 0, 0, 0, 0, 0, 0, 2], .bytes [0, 2], .interrupted],
      [], none⟩
    let bytes : List UInt8 := [3, 0, 0, 0, 0, 0, 0, 0, 9, 0, 0, 0, 0, 0, 0, 0, 2, 0, 2]
    stream.writeLimit = none ∧ Delivers stream.incoming bytes ∧
      ∃ left, serve handler [] stream = (.error (.protocol (.headerTruncated 3)), [.stop],
        ⟨left, StatusFrame.toBytes ⟨7⟩ ++ StatusFrame.toBytes ⟨ResultCode.invalidArgument⟩,
          none⟩) := by
  intro handler stream bytes
  have delivers : Delivers stream.incoming bytes :=
    .interrupted (.bytes (by decide) (.interrupted (.bytes (by decide) (.bytes (by decide)
      (.bytes (by decide) (.interrupted .done))))))
  have parsed : CommandFrame.Parsed bytes [⟨⟨3, 0, 0⟩, []⟩, ⟨⟨9, 0, 0⟩, []⟩] [2, 0, 2] := by
    refine ⟨by decide, ?_, ?_⟩
    · simp only [List.forall_mem_cons]
      exact ⟨⟨rfl, by decide⟩, ⟨rfl, by decide⟩, by simp⟩
    · exact CommandFrame.stuck_of_lt (by decide)
  obtain ⟨left, served, _⟩ := (serve_parsed handler [] rfl delivers).2 _ _ parsed
  exact ⟨rfl, delivers, left, served⟩

end Dispatcher

end CallCapture
