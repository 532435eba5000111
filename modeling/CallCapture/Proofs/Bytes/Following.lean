import CallCapture.Bytes.Cursor

/-!
Reading at another place. A process follows a reader if it does at its own place what the reader
does at a cursor: it moves over the same bytes, gives the same value, moved to its place, and fails
with the same error. It may be excused from going on by errors of its own.
-/

namespace CallCapture

def Cursor.moved (distance : Nat) (cursor : Cursor) : Cursor :=
  ⟨cursor.pos + distance, cursor.rest⟩

/-- The later cursor stands behind bytes that were unread at the first one. -/
def Cursor.Reaches (cursor later : Cursor) : Prop :=
  ∃ bytes, cursor.rest = bytes ++ later.rest ∧ later.pos = cursor.pos + bytes.length

theorem Cursor.Reaches.refl (cursor : Cursor) : cursor.Reaches cursor :=
  ⟨[], rfl, rfl⟩

theorem Cursor.Reaches.trans {first second third : Cursor} (reached : first.Reaches second)
    (further : second.Reaches third) : first.Reaches third := by
  obtain ⟨front, unread, place⟩ := reached
  obtain ⟨back, stillUnread, lastPlace⟩ := further
  refine ⟨front ++ back, ?_, ?_⟩
  · rw [unread, stillUnread, List.append_assoc]
  · rw [lastPlace, place, List.length_append, Nat.add_assoc]

section Follows

variable {σ α β : Type} (place : Cursor → σ) (excused : Error → Prop)

/-- An outcome of the process beside one of the reader that started at the cursor. -/
inductive Matches (move : α → α) (start : Cursor) :
    EStateM.Result Error σ α → EStateM.Result Error Cursor α → Prop where
  | ok {value : α} {after : Cursor} : start.Reaches after →
      Matches move start (.ok (move value) (place after)) (.ok value after)
  | error {error : Error} {after : Cursor} : start.Reaches after →
      Matches move start (.error error (place after)) (.error error after)
  | excused {error : Error} {state : σ} {outcome : EStateM.Result Error Cursor α} :
      excused error → Matches move start (.error error state) outcome

def Follows (move : α → α) (process : EStateM Error σ α) (reader : Reader α) : Prop :=
  ∀ cursor, Matches place excused move cursor (process (place cursor)) (reader cursor)

variable {place excused} {move : α → α} {moveNext : β → β}

theorem Matches.started {start middle : Cursor} {left : EStateM.Result Error σ α}
    {right : EStateM.Result Error Cursor α} (reached : start.Reaches middle)
    (matched : Matches place excused move middle left right) :
    Matches place excused move start left right := by
  cases matched with
  | ok further => exact .ok (reached.trans further)
  | error further => exact .error (reached.trans further)
  | excused allowed => exact .excused allowed

/-- Without an excuse, the process succeeds where the reader does. -/
theorem Matches.of_ok {start after : Cursor} {left : EStateM.Result Error σ α} {value : α}
    (matched : Matches place (fun _ => False) move start left (.ok value after)) :
    start.Reaches after ∧ left = .ok (move value) (place after) := by
  cases matched with
  | ok reached => exact ⟨reached, rfl⟩
  | excused impossible => exact impossible.elim

theorem Matches.of_error {start after : Cursor} {left : EStateM.Result Error σ α} {error : Error}
    (matched : Matches place (fun _ => False) move start left (.error error after)) :
    start.Reaches after ∧ left = .error error (place after) := by
  cases matched with
  | error reached => exact ⟨reached, rfl⟩
  | excused impossible => exact impossible.elim

namespace Follows

protected theorem pure (move : α → α) (value : α) :
    Follows place excused move (pure (move value)) (pure value) :=
  fun cursor => .ok (.refl cursor)

protected theorem throw (error : Error) :
    Follows place excused move (throw error) (throw error) :=
  fun cursor => .error (.refl cursor)

protected theorem bind {process : EStateM Error σ α} {reader : Reader α}
    {processNext : α → EStateM Error σ β} {readerNext : α → Reader β}
    (first : Follows place excused move process reader)
    (next : ∀ value, Follows place excused moveNext (processNext (move value)) (readerNext value)) :
    Follows place excused moveNext (process >>= processNext) (reader >>= readerNext) := by
  intro cursor
  have matched := first cursor
  simp only [bind, EStateM.bind]
  generalize process (place cursor) = left at matched
  generalize reader cursor = right at matched
  cases matched with
  | @ok value after reached => exact (next value after).started reached
  | error reached => exact .error reached
  | excused allowed => exact .excused allowed

protected theorem ite {condition : Prop} [Decidable condition]
    {process otherProcess : EStateM Error σ α} {reader otherReader : Reader α}
    (holds : Follows place excused move process reader)
    (fails : Follows place excused move otherProcess otherReader) :
    Follows place excused move (if condition then process else otherProcess)
      (if condition then reader else otherReader) := by
  by_cases decided : condition
  · simpa only [decided, if_true] using holds
  · simpa only [decided, if_false] using fails

end Follows

end Follows

/-! Readers of bytes do the same wherever they stand. -/

namespace Reader

/-- What is read does not depend on the place. -/
def Steady {α : Type} (reader : Reader α) : Prop :=
  ∀ distance excused, Follows (Cursor.moved distance) excused id reader reader

variable {α β : Type}

theorem Steady.bind {reader : Reader α} {next : α → Reader β} (first : reader.Steady)
    (steady : ∀ value, (next value).Steady) : (reader >>= next).Steady :=
  fun distance excused => (first distance excused).bind fun value => steady value distance excused

theorem pure_steady (value : α) : (pure value : Reader α).Steady :=
  fun _ _ => .pure id value

theorem throw_steady (error : Error) : (throw error : Reader α).Steady :=
  fun _ _ => .throw error

theorem Steady.ite {condition : Prop} [Decidable condition] {reader other : Reader α}
    (holds : reader.Steady) (fails : other.Steady) :
    (if condition then reader else other).Steady :=
  fun distance excused => .ite (holds distance excused) (fails distance excused)

theorem pos_follows (distance : Nat) (excused : Error → Prop) :
    Follows (Cursor.moved distance) excused (· + distance) pos pos :=
  fun cursor => .ok (.refl cursor)

theorem remaining_steady : remaining.Steady :=
  fun _ _ cursor => .ok (.refl cursor)

theorem peek_steady : peek.Steady := by
  intro distance excused cursor
  obtain ⟨position, unread⟩ := cursor
  cases unread with
  | nil => exact .error (.refl _)
  | cons first rest => exact .ok (.refl _)

theorem take_steady (count : Nat) : (take count).Steady := by
  intro distance excused cursor
  by_cases short : cursor.rest.length < count
  · simp only [take, Cursor.remaining, Cursor.moved, short, if_true]
    exact .error (.refl _)
  · have enough : (cursor.rest.take count).length = count := by
      rw [List.length_take]
      omega
    simp only [take, Cursor.remaining, Cursor.moved, short, if_false, Nat.add_right_comm _ distance]
    have reached : cursor.Reaches ⟨cursor.pos + count, cursor.rest.drop count⟩ := by
      refine ⟨cursor.rest.take count, (List.take_append_drop count cursor.rest).symm, ?_⟩
      rw [enough]
    exact .ok reached

theorem byte_steady : byte.Steady := by
  intro distance excused cursor
  obtain ⟨position, unread⟩ := cursor
  cases unread with
  | nil => exact .error (.refl _)
  | cons first rest =>
      simp only [byte, Cursor.moved, Nat.add_right_comm _ distance]
      have reached : Cursor.Reaches ⟨position, first :: rest⟩ ⟨position + 1, rest⟩ :=
        ⟨[first], rfl, rfl⟩
      exact .ok reached

theorem skip_steady (count : Nat) : (skip count).Steady :=
  (take_steady count).bind fun _ => pure_steady ()

theorem compressed_steady : compressed.Steady := by
  refine byte_steady.bind fun lead => ?_
  have joined : ∀ count high : Nat,
      (do return (← take count).foldl compressed.join high : Reader Nat).Steady :=
    fun count high => (take_steady count).bind fun _ => pure_steady _
  exact .ite (pure_steady _) (.ite (joined 1 _) (.ite (joined 3 _) (throw_steady _)))

theorem token_steady : token.Steady := by
  refine compressed_steady.bind fun encoded => ?_
  split
  · exact pure_steady _
  · exact throw_steady _

end Reader

end CallCapture
