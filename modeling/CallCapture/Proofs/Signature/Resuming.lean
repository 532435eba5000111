import CallCapture.Proofs.Signature.Counting

/-!
A decoder after any reads. Whether or not they failed, it is inside of no type and stands somewhere
in its blob, and each further read does what it does in a decoder of the bytes that are left, but
for the spans, which count from the start of the decoder's own blob.
-/

namespace CallCapture

namespace Decoder

def Answer.moved (distance : Nat) : Answer → Answer
  | .type value => .type (value.moved distance)
  | .method signature => .method (signature.moved distance)
  | .localVariables locals => .localVariables (locals.map (LocalSig.moved distance))

theorem Answer.moved_zero : Answer.moved 0 = id := by
  funext answer
  cases answer with
  | type value => rw [Answer.moved, value.moved_zero, id]
  | method signature => rw [Answer.moved, signature.moved_zero, id]
  | localVariables locals => rw [Answer.moved, LocalSig.moved_zero, List.map_id, id]

/-- The decoder of a blob with `distance` more bytes in front of those it has read. -/
def moved (distance : Nat) (decoder : Decoder) : Decoder :=
  { decoder with cursor := decoder.cursor.moved distance }

def Read.reader (limit : Nat) : Read → Reader Answer
  | .type => return .type (← Reader.type limit)
  | .method => return .method (← Reader.method limit)
  | .localVariables => return .localVariables (← Reader.localVariables limit)

theorem Read.follows (read : Read) (distance limit : Nat) (excused : Error → Prop) :
    Follows (place distance 0 limit) excused (Answer.moved distance) read.decoding
      (read.reader limit) := by
  have answered (answer : Answer) : Follows (place distance 0 limit) excused
      (Answer.moved distance) (pure (answer.moved distance)) (pure answer) := .pure _ answer
  cases read with
  | type =>
      exact (type_follows (Nat.le_refl limit) (.inr rfl)).bind fun value => answered (.type value)
  | method => exact method_follows.bind fun signature => answered (.method signature)
  | localVariables => exact localVariables_follows.bind fun locals => answered (.localVariables locals)

/-- A read has one outcome, which decoders at all places give for the same unread bytes. -/
theorem perform_place (read : Read) (limit : Nat) (cursor : Cursor) :
    ∃ (outcome : Except Error Answer) (later : Cursor), cursor.Reaches later ∧
      ∀ distance, (place distance 0 limit cursor).perform read =
        (outcome.map (Answer.moved distance), place distance 0 limit later) := by
  have matched := fun distance => read.follows distance limit (fun _ => False) cursor
  generalize read.reader limit cursor = found at matched
  cases found with
  | ok answer later =>
      refine ⟨.ok answer, later, (matched 0).of_ok.1, fun distance => ?_⟩
      rw [perform, (matched distance).of_ok.2]
      rfl
  | error error later =>
      refine ⟨.error error, later, (matched 0).of_error.1, fun distance => ?_⟩
      rw [perform, (matched distance).of_error.2]
      rfl

theorem performAll_place (limit : Nat) (start : Cursor) (reads : List Read) :
    ∃ cursor, start.Reaches cursor ∧
      (place 0 0 limit start).performAll reads = place 0 0 limit cursor := by
  induction reads generalizing start with
  | nil => exact ⟨start, .refl start, rfl⟩
  | cons read reads ih =>
      obtain ⟨_, middle, reached, performed⟩ := perform_place read limit start
      obtain ⟨cursor, further, after⟩ := ih middle
      refine ⟨cursor, reached.trans further, ?_⟩
      rw [performAll, List.foldl_cons, performed 0]
      exact after

theorem performAll_ofBytes (limit : Nat) (blob : List UInt8) (reads : List Read) :
    ∃ position ≤ blob.length,
      (ofBytes limit blob).performAll reads = ⟨⟨position, blob.drop position⟩, 0, limit⟩ := by
  obtain ⟨⟨position, unread⟩, ⟨bytes, split, reached⟩, after⟩ :=
    performAll_place limit (.ofBytes blob) reads
  have blobSplit : blob = bytes ++ unread := split
  have positionIs : position = bytes.length := reached.trans (Nat.zero_add _)
  have remains : blob.drop position = unread := by rw [blobSplit, positionIs, List.drop_left]
  refine ⟨position, ?_, ?_⟩
  · rw [blobSplit, positionIs, List.length_append]
    exact Nat.le_add_right bytes.length unread.length
  · rw [remains]
    exact after

/-- One read further into a blob, beside the same read of the bytes that are left. -/
theorem perform_fresh (limit position : Nat) (unread : List UInt8) (read : Read) :
    perform ⟨⟨position, unread⟩, 0, limit⟩ read =
      (((ofBytes limit unread).perform read).1.map (Answer.moved position),
        ((ofBytes limit unread).perform read).2.moved position) := by
  obtain ⟨outcome, later, _, performed⟩ := perform_place read limit ⟨0, unread⟩
  have fresh : (ofBytes limit unread).perform read = (outcome, place 0 0 limit later) := by
    have answered : (ofBytes limit unread).perform read =
        (outcome.map (Answer.moved 0), place 0 0 limit later) := performed 0
    rw [Answer.moved_zero] at answered
    cases outcome <;> exact answered
  have further : perform ⟨⟨0 + position, unread⟩, 0, limit⟩ read =
      (outcome.map (Answer.moved position), place position 0 limit later) := performed position
  rw [Nat.zero_add] at further
  rw [further, fresh]
  rfl

theorem perform_resumed (limit : Nat) (blob : List UInt8) (earlier : List Read) (read : Read) :
    let used := (ofBytes limit blob).performAll earlier
    let fresh := (ofBytes limit used.cursor.rest).perform read
    used.cursor.pos ≤ blob.length ∧ used.cursor.rest = blob.drop used.cursor.pos ∧
      used.depth = 0 ∧ used.perform read =
        (fresh.1.map (Answer.moved used.cursor.pos), fresh.2.moved used.cursor.pos) := by
  intro used fresh
  obtain ⟨position, within, after⟩ := performAll_ofBytes limit blob earlier
  have usedAt : used = ⟨⟨position, blob.drop position⟩, 0, limit⟩ := after
  have freshAt : fresh = (ofBytes limit (blob.drop position)).perform read := by
    change (ofBytes limit used.cursor.rest).perform read = _
    rw [usedAt]
  rw [freshAt, usedAt]
  exact ⟨within, rfl, rfl, perform_fresh limit position (blob.drop position) read⟩

/-- A read fails inside of two arrays, as deep as the limit lets it, and the next one is fine. -/
example :
    let decoder := ofBytes 4 [0x1D, 0x1D, 0x40, 0x08]
    let used := decoder.performAll [.type]
    (decoder.perform .type).1 = .error (.malformed (.elementType 0x40)) ∧ used.cursor.pos = 3 ∧
      (used.perform .type).1 = .ok (.type (.leaf .i4)) :=
  ⟨rfl, rfl, rfl⟩

end Decoder

end CallCapture
