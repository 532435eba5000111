import CallCapture.Channel.Client
import CallCapture.Proofs.Channel.Framing
import CallCapture.Proofs.Channel.Statuses

/-!
A client and a dispatcher at the two ends of a reliable channel. The client does not send before it
has read its status, so the two take turns: a command is written, served and answered, and the
answer is read. Bytes may arrive in any pieces.
-/

namespace CallCapture

/-- How bytes arrive: all of them and in order, cut and interrupted anywhere, which may depend on
where on the channel they stand. -/
structure Pipe where
  arrive : Nat → List UInt8 → List Piece
  reliable : ∀ position bytes, Delivers (arrive position bytes) bytes

def Pipe.carry (pipe : Pipe) (before after reader : ByteStream) : ByteStream :=
  let written := after.outgoing.drop before.outgoing.length
  { reader with incoming := reader.incoming ++ pipe.arrive before.outgoing.length written }

theorem Pipe.carry_delivers (pipe : Pipe) (before after : ByteStream) {reader : ByteStream}
    {written : List UInt8} (nothing : Delivers reader.incoming [])
    (wrote : after.outgoing = before.outgoing ++ written) :
    Delivers (pipe.carry before after reader).incoming written := by
  have arrived := pipe.reliable before.outgoing.length written
  have carried := nothing.append arrived
  rw [Pipe.carry, wrote, List.drop_left]
  exact carried

/-- How one sending ended, and how many bytes it took off the channel. -/
structure Turn where
  result : Except Error Unit
  taken : Nat

namespace Command

/-- Sending up to the wait for the status. -/
def request (command : Command) : Channel Int16 := do
  match command.toFrame with
  | .error error => throw error
  | .ok frame =>
      Channel.write frame.toBytes
      return frame.header.messageType

/-- Sending from the wait for the status on. -/
def awaitStatus (messageType : Int16) : Channel Unit := do
  let status ← StatusFrame.receive
  if status.isSuccess then return ()
  throw (.commandFailed messageType status.resultCode)

theorem send_eq (command : Command) : command.send = (command.request >>= awaitStatus) := by
  funext stream
  simp only [send, request, bind, EStateM.bind]
  cases command.toFrame with
  | error error => rfl
  | ok frame =>
      cases written : Channel.write frame.toBytes stream with
      | error error next => simp only [EStateM.bind, written]
      | ok done next => simp only [EStateM.bind, written, pure, EStateM.pure, awaitStatus, bind]

variable {stream : ByteStream}

theorem request_of_fits {command : Command} (fits : command.Fits)
    (unlimited : stream.writeLimit = none) :
    ∃ asked, command.request stream = .ok command.messageType.wire asked ∧
      asked.incoming = stream.incoming ∧ asked.writeLimit = none ∧
      asked.outgoing = stream.outgoing ++ command.frame.toBytes := by
  refine ⟨⟨stream.incoming, stream.outgoing ++ command.frame.toBytes, none⟩, ?_, rfl, rfl, rfl⟩
  simp only [request, toFrame_of_fits fits, Channel.write, ByteStream.write, unlimited, bind,
    EStateM.bind, pure, EStateM.pure]
  rfl

def sendTurn (command : Command) (stream : ByteStream) : Turn × ByteStream :=
  match command.send stream with
  | .ok () next => (⟨.ok (), stream.unread - next.unread⟩, next)
  | .error error next => (⟨.error error, stream.unread - next.unread⟩, next)

/-- The turn of a command that is answered by a code: its status frame is read, and no more. -/
def turn (command : Command) (code : Int32) : Turn :=
  ⟨if code = 0 then .ok () else .error (.commandFailed command.messageType.wire code),
    (StatusFrame.toBytes ⟨code⟩).length⟩

/-- Just one status frame is taken, whatever follows it. -/
theorem sendTurn_of_fits {command : Command} {code : Int32} {rest : List UInt8}
    (fits : command.Fits) (unlimited : stream.writeLimit = none)
    (delivers : Delivers stream.incoming (StatusFrame.toBytes ⟨code⟩ ++ rest)) :
    ∃ next, command.sendTurn stream = (command.turn code, next) ∧
      next.outgoing = stream.outgoing ++ command.frame.toBytes ∧ next.writeLimit = none ∧
      Delivers next.incoming rest := by
  have before := delivers.unread_eq
  obtain ⟨asked, requested, sameIncoming, askedWrites, wrote⟩ := request_of_fits fits unlimited
  rw [← sameIncoming] at delivers
  obtain ⟨left, received, delivers⟩ := StatusFrame.receive_toBytes delivers
  have remaining : Delivers { asked with incoming := left }.incoming rest := delivers
  have taken : stream.unread - { asked with incoming := left }.unread =
      (StatusFrame.toBytes ⟨code⟩).length := by
    rw [before, remaining.unread_eq, List.length_append, Nat.add_sub_cancel]
  refine ⟨{ asked with incoming := left }, ?_, wrote, askedWrites, delivers⟩
  by_cases success : code = 0
  · subst success
    have sent : command.send stream = .ok () { asked with incoming := left } := by
      simp only [send_eq, awaitStatus, bind, EStateM.bind, requested, received]
      rfl
    simp only [sendTurn, sent, taken, turn, if_true]
  · have refused : (StatusFrame.mk code).isSuccess = false := beq_false_of_ne success
    have sent : command.send stream =
        .error (.commandFailed command.messageType.wire code) { asked with incoming := left } := by
      simp only [send_eq, awaitStatus, bind, EStateM.bind, requested, received, refused]
      rfl
    simp only [sendTurn, sent, taken, turn, success, if_false]

end Command

/-- The two ends, the world of the handler, and whether the dispatcher still serves. -/
structure Conversation (World : Type) where
  client : ByteStream
  dispatcher : ByteStream
  world : World
  serving : Except Error Bool

namespace Conversation

open Dispatcher

variable {World : Type}

def opened (world : World) : Conversation World :=
  ⟨⟨[], [], none⟩, ⟨[], [], none⟩, world, .ok true⟩

def attend (handler : CommandHandler World) (talk : Conversation World) (stream : ByteStream) :
    Except Error Bool × World × ByteStream :=
  match talk.serving with
  | .ok true => serveOne handler talk.world stream
  | ended => (ended, talk.world, stream)

/-- The dispatcher serves what the client sends up to its wait, and the client sends with the
answer on its way. -/
def exchange (handler : CommandHandler World) (requests replies : Pipe)
    (talk : Conversation World) (command : Command) : Turn × Conversation World :=
  match command.request talk.client with
  | .error error client => (⟨.error error, 0⟩, { talk with client := client })
  | .ok _ asked =>
      let (serving, world, answered) :=
        talk.attend handler (requests.carry talk.client asked talk.dispatcher)
      let (turn, client) := command.sendTurn (replies.carry talk.dispatcher answered talk.client)
      (turn, ⟨client, answered, world, serving⟩)

/-- Sends commands one after another, whether they succeed or not. -/
def converse (handler : CommandHandler World) (requests replies : Pipe) :
    List Command → Conversation World → List Turn × Conversation World
  | [], talk => ([], talk)
  | command :: rest, talk =>
      let (turn, next) := exchange handler requests replies talk command
      let (turns, last) := converse handler requests replies rest next
      (turn :: turns, last)

/-- Both ends can write and have nothing left to read, and the dispatcher serves. -/
structure Quiet (talk : Conversation World) : Prop where
  clientWrites : talk.client.writeLimit = none
  dispatcherWrites : talk.dispatcher.writeLimit = none
  clientRead : Delivers talk.client.incoming []
  dispatcherRead : Delivers talk.dispatcher.incoming []
  serves : talk.serving = .ok true

theorem opened_quiet (world : World) : (opened world).Quiet :=
  ⟨rfl, rfl, .done, .done, rfl⟩

variable (handler : CommandHandler World) (requests replies : Pipe)

theorem attend_of_quiet {talk : Conversation World} {stream : ByteStream} {command : Command}
    (quiet : talk.Quiet) (fits : command.Fits) (unlimited : stream.writeLimit = none)
    (delivers : Delivers stream.incoming command.frame.toBytes) :
    ∃ answered, talk.attend handler stream = (.ok true, (handler command talk.world).2, answered) ∧
      answered.outgoing = stream.outgoing
        ++ StatusFrame.toBytes ⟨(handler command talk.world).1⟩ ∧
      answered.writeLimit = none ∧ Delivers answered.incoming [] := by
  rw [← List.append_nil command.frame.toBytes] at delivers
  obtain ⟨left, served, delivers⟩ := serveOne_complete handler talk.world
    (Command.frame_complete fits) unlimited delivers
  simp only [answer, Command.ofFrame_frame] at served
  refine ⟨⟨left, stream.outgoing ++ StatusFrame.toBytes ⟨(handler command talk.world).1⟩, none⟩,
    ?_, rfl, rfl, delivers⟩
  simp only [attend, quiet.serves, served]

theorem exchange_of_quiet {talk : Conversation World} {command : Command} (quiet : talk.Quiet)
    (fits : command.Fits) :
    ∃ next, exchange handler requests replies talk command =
        (command.turn (handler command talk.world).1, next) ∧
      next.Quiet ∧ next.world = (handler command talk.world).2 ∧
      next.client.outgoing = talk.client.outgoing ++ command.frame.toBytes ∧
      next.dispatcher.outgoing = talk.dispatcher.outgoing
        ++ StatusFrame.toBytes ⟨(handler command talk.world).1⟩ := by
  obtain ⟨asked, requested, _, _, wrote⟩ := Command.request_of_fits fits quiet.clientWrites
  have requestArrives := requests.carry_delivers talk.client asked quiet.dispatcherRead wrote
  have requestWrites : (requests.carry talk.client asked talk.dispatcher).writeLimit = none :=
    quiet.dispatcherWrites
  obtain ⟨answered, attended, answer, answeredWrites, dispatcherRead⟩ :=
    attend_of_quiet handler quiet fits requestWrites requestArrives
  have replyArrives := replies.carry_delivers talk.dispatcher answered quiet.clientRead answer
  have replyWrites : (replies.carry talk.dispatcher answered talk.client).writeLimit = none :=
    quiet.clientWrites
  rw [← List.append_nil (StatusFrame.toBytes _)] at replyArrives
  obtain ⟨client, sent, clientWrote, clientWrites, clientRead⟩ :=
    Command.sendTurn_of_fits fits replyWrites replyArrives
  refine ⟨⟨client, answered, (handler command talk.world).2, .ok true⟩, ?_, ?_, rfl, clientWrote,
    answer⟩
  · simp only [exchange, requested, attended, sent]
  · exact ⟨clientWrites, answeredWrites, clientRead, dispatcherRead, rfl⟩

def codes (handler : CommandHandler World) : List Command → World → List Int32
  | [], _ => []
  | command :: rest, world =>
      let (code, after) := handler command world
      code :: codes handler rest after

theorem codes_length (commands : List Command) (world : World) :
    (codes handler commands world).length = commands.length := by
  induction commands generalizing world with
  | nil => rfl
  | cons command rest ih => simp only [codes, List.length_cons, ih]

theorem converse_of_quiet {commands : List Command} {talk : Conversation World}
    (quiet : talk.Quiet) (fit : ∀ command ∈ commands, command.Fits) :
    ∃ last, converse handler requests replies commands talk =
        (commands.zipWith Command.turn (codes handler commands talk.world), last) ∧
      last.Quiet ∧ last.world = obeyAll handler commands talk.world ∧
      last.client.outgoing = talk.client.outgoing
        ++ commands.flatMap (fun command => command.frame.toBytes) ∧
      last.dispatcher.outgoing = talk.dispatcher.outgoing
        ++ (codes handler commands talk.world).flatMap fun code => StatusFrame.toBytes ⟨code⟩ := by
  -- An exchange needs no more of the one before than that it left both ends quiet.
  induction commands generalizing talk with
  | nil => exact ⟨talk, rfl, quiet, rfl, by simp, by simp [codes]⟩
  | cons command rest ih =>
      obtain ⟨fits, others⟩ := List.forall_mem_cons.mp fit
      obtain ⟨next, exchanged, nextQuiet, world, requested, answered⟩ :=
        exchange_of_quiet handler requests replies quiet fits
      obtain ⟨last, conversed, lastQuiet, lastWorld, lastRequested, lastAnswered⟩ :=
        ih nextQuiet others
      rw [world] at conversed lastWorld lastAnswered
      refine ⟨last, ?_, lastQuiet, lastWorld, ?_, ?_⟩
      · simp only [converse, exchanged, conversed, codes, List.zipWith_cons_cons]
      · rw [lastRequested, requested, List.flatMap_cons, List.append_assoc]
      · simp only [lastAnswered, answered, codes, List.flatMap_cons, List.append_assoc]

theorem parsed_frames {commands : List Command} (fit : ∀ command ∈ commands, command.Fits) :
    CommandFrame.Parsed (commands.flatMap fun command => command.frame.toBytes)
      (commands.map Command.frame) [] := by
  refine ⟨?_, ?_, ?_⟩
  · rw [List.flatMap_map, List.append_nil]
  · intro frame member
    obtain ⟨command, sent, same⟩ := List.mem_map.mp member
    rw [← same]
    exact Command.frame_complete (fit command sent)
  · exact CommandFrame.stuck_of_lt (by decide)

theorem commandsOf_frames (commands : List Command) :
    commandsOf (commands.map Command.frame) = commands := by
  induction commands with
  | nil => rfl
  | cons command rest ih =>
      have first : (Command.ofFrame command.frame).toOption = some command := by
        rw [Command.ofFrame_frame]
        rfl
      rw [commandsOf] at ih
      simp only [commandsOf, List.map_cons, List.filterMap_cons, first, ih]

theorem replies_frames (commands : List Command) (world : World) :
    Dispatcher.replies handler (commands.map Command.frame) world = codes handler commands world := by
  induction commands generalizing world with
  | nil => rfl
  | cons command rest ih =>
      simp only [List.map_cons, Dispatcher.replies, Command.ofFrame_frame, codes, ih]

/-- Commands that fit are obeyed one after another, just as they were sent. Each sending ends well
if the handler's code is zero and otherwise with the command's message type and that code, and takes
just one status frame; nothing is left to read at either end, and the dispatcher serves on. Serving
all that the client wrote up to its end comes to the same. -/
theorem converse_agrees (handler : CommandHandler World) (requests replies : Pipe) (world : World)
    {commands : List Command} (fit : ∀ command ∈ commands, command.Fits) :
    let codes := codes handler commands world
    let sent := commands.flatMap fun command => command.frame.toBytes
    let answers := codes.flatMap fun code => StatusFrame.toBytes ⟨code⟩
    (∃ last, converse handler requests replies commands (opened world) =
        (commands.zipWith Command.turn codes, last) ∧
      last.world = obeyAll handler commands world ∧ codes.length = commands.length ∧
      last.client.outgoing = sent ∧ last.dispatcher.outgoing = answers ∧ last.Quiet) ∧
    ∀ stream : ByteStream, stream.writeLimit = none → stream.outgoing = [] →
      Delivers stream.incoming sent →
      ∃ left, serve handler world stream =
        (.ok (), obeyAll handler commands world, ⟨left, answers, none⟩) := by
  intro codes sent answers
  constructor
  · obtain ⟨last, conversed, quiet, obeyed, requested, answered⟩ :=
      converse_of_quiet handler requests replies (opened_quiet world) fit
    exact ⟨last, conversed, obeyed, codes_length handler commands world, requested, answered, quiet⟩
  · intro stream unlimited fresh delivers
    obtain ⟨left, served⟩ :=
      serve_of_parsed handler world (parsed_frames fit) unlimited delivers
    rw [commandsOf_frames, replies_frames, fresh] at served
    exact ⟨left, served⟩

def trickle : Pipe where
  arrive _ bytes := bytes.flatMap fun byte => [.interrupted, .bytes [byte]]
  reliable := by
    intro _ bytes
    induction bytes with
    | nil => exact .done
    | cons byte rest ih => exact .interrupted (.bytes (by simp) ih)

/-- A request that is obeyed, and a stop that is refused. -/
theorem converse_agrees_trickle :
    let handler : CommandHandler (List Command) := fun command obeyed =>
      (if command = .stop then 7 else 0, obeyed ++ [command])
    let request : Command := .start
      ⟨[⟨"Gr\u00fc\u00dfe", "\"T\"", "\n", true, some []⟩, .anyOverload "m" "T" "f"], some "PT1S"⟩
    (∀ command ∈ [request, .stop], command.Fits) ∧
      ∃ last, converse handler trickle trickle [request, .stop] (opened []) =
          ([⟨.ok (), 12⟩, ⟨.error (.commandFailed 3 7), 12⟩], last) ∧
        last.world = [request, .stop] := by
  intro handler request
  have fit : ∀ command ∈ [request, .stop], command.Fits := by
    simp only [List.forall_mem_cons]
    refine ⟨?_, Nat.zero_le _, by simp⟩
    rw [Command.Fits, Command.payload, JsonTree.print, Utf8.encode_ofList]
    decide +kernel
  obtain ⟨⟨last, conversed, obeyed, _⟩, _⟩ := converse_agrees handler trickle trickle [] fit
  exact ⟨fit, last, conversed, obeyed⟩

end Conversation

end CallCapture
