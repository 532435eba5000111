import CallCapture.Bytes.Cursor

/-!
What a reader accepts. A form relates the position where bytes stand, the bytes, and the value they
stand for; a reader is exact for a form if it succeeds on just the inputs that start with such bytes,
and stops right after them.
-/

namespace CallCapture

/-- A position, bytes from there on, and what they stand for. -/
abbrev Form (α : Type) := Nat → List UInt8 → α → Prop

/-- Items one right after another. -/
inductive Sequence {α : Type} (item : Form α) : Form (List α) where
  | nil (start : Nat) : Sequence item start [] []
  | cons {start : Nat} {first rest : List UInt8} {value : α} {others : List α} :
      item start first value → Sequence item (start + first.length) rest others →
      Sequence item start (first ++ rest) (value :: others)

namespace Sequence

variable {α : Type} {item other : Form α} {start : Nat} {bytes : List UInt8} {values : List α}

/-- Items that take a byte at least are no more than their bytes. -/
theorem length_le (sequence : Sequence item start bytes values)
    (nonempty : ∀ start bytes value, item start bytes value → bytes ≠ []) :
    values.length ≤ bytes.length := by
  induction sequence with
  | nil start => exact Nat.le_refl _
  | cons first _ ih =>
      have some := List.length_pos_iff.mpr (nonempty _ _ _ first)
      rw [List.length_cons, List.length_append]
      omega

theorem restrict_iff {Allowed : α → Prop} :
    Sequence (fun start bytes value => item start bytes value ∧ Allowed value) start bytes values ↔
      Sequence item start bytes values ∧ ∀ value ∈ values, Allowed value := by
  constructor
  · intro sequence
    induction sequence with
    | nil start => exact ⟨.nil start, by simp⟩
    | cons first _ ih => exact ⟨.cons first.1 ih.1, List.forall_mem_cons.mpr ⟨first.2, ih.2⟩⟩
  · rintro ⟨sequence, allowed⟩
    induction sequence with
    | nil start => exact .nil start
    | cons first _ ih =>
        obtain ⟨firstAllowed, othersAllowed⟩ := List.forall_mem_cons.mp allowed
        exact .cons ⟨first, firstAllowed⟩ (ih othersAllowed)

theorem congr (same : ∀ start bytes value, item start bytes value ↔ other start bytes value) :
    Sequence item start bytes values ↔ Sequence other start bytes values := by
  have equal : item = other := by
    funext start bytes value
    exact propext (same start bytes value)
  rw [equal]

end Sequence

namespace Reader

variable {α β : Type}

/-- The reader succeeds on bytes of the form, if what comes after them is as `ahead` says. -/
def Looks (reader : Reader α) (form : Form α) (ahead : α → List UInt8 → Prop) : Prop :=
  ∀ start input value after, reader ⟨start, input⟩ = .ok value after ↔
    ∃ bytes, input = bytes ++ after.rest ∧ after.pos = start + bytes.length ∧
      form start bytes value ∧ ahead value after.rest

/-- The reader succeeds on bytes of the form, whatever comes after them. -/
def Exact (reader : Reader α) (form : Form α) : Prop :=
  ∀ start input value after, reader ⟨start, input⟩ = .ok value after ↔
    ∃ bytes, input = bytes ++ after.rest ∧ after.pos = start + bytes.length ∧
      form start bytes value

theorem bind_eq_ok {reader : Reader α} {next : α → Reader β} {cursor after : Cursor} {value : β} :
    (reader >>= next) cursor = .ok value after ↔
      ∃ first middle, reader cursor = .ok first middle ∧ next first middle = .ok value after := by
  simp only [bind, EStateM.bind]
  cases reader cursor with
  | ok first middle =>
      constructor
      · intro read
        exact ⟨first, middle, rfl, read⟩
      · rintro ⟨_, _, same, read⟩
        cases same
        exact read
  | error error middle => simp

/-- What looks ahead is decided as soon as what comes next is known to decide it. -/
theorem Looks.bind {reader : Reader α} {next : α → Reader β} {form : Form α}
    {ahead : α → List UInt8 → Prop} {after : α → Form β} (looks : reader.Looks form ahead)
    (exact : ∀ value, (next value).Exact (after value))
    (decided : ∀ value start bytes result rest, after value start bytes result →
      (ahead value (bytes ++ rest) ↔ ahead value bytes)) :
    (reader >>= next).Exact fun start bytes result =>
      ∃ value front back, bytes = front ++ back ∧ form start front value ∧ ahead value back ∧
        after value (start + front.length) back result := by
  intro start input result last
  rw [bind_eq_ok]
  constructor
  · rintro ⟨value, ⟨position, rest⟩, first, second⟩
    obtain ⟨front, rfl, rfl, formed, seen⟩ := (looks _ _ _ _).mp first
    obtain ⟨back, rfl, place, followed⟩ := (exact value _ _ _ _).mp second
    refine ⟨front ++ back, (List.append_assoc ..).symm, ?_, value, front, back, rfl, formed, ?_,
      followed⟩
    · rw [place, List.length_append, Nat.add_assoc]
    · exact (decided _ _ _ _ _ followed).mp seen
  · rintro ⟨bytes, rfl, place, value, front, back, rfl, formed, seen, followed⟩
    refine ⟨value, ⟨start + front.length, back ++ last.rest⟩, ?_, ?_⟩
    · exact (looks _ _ _ _).mpr ⟨front, List.append_assoc .., rfl, formed,
        (decided _ _ _ _ _ followed).mpr seen⟩
    · refine (exact value _ _ _ _).mpr ⟨back, rfl, ?_, followed⟩
      rw [place, List.length_append, Nat.add_assoc]

namespace Exact

variable {reader : Reader α} {form other : Form α}

theorem looks (exact : reader.Exact form) : reader.Looks form fun _ _ => True := by
  intro start input value after
  simpa only [and_true] using exact start input value after

theorem congr (exact : reader.Exact form)
    (same : ∀ start bytes value, form start bytes value ↔ other start bytes value) :
    reader.Exact other := by
  intro start input value after
  simp only [exact start input value after, same]

theorem whole_iff (exact : reader.Exact form) {start : Nat} {bytes : List UInt8} {value : α} :
    reader ⟨start, bytes⟩ = .ok value ⟨start + bytes.length, []⟩ ↔ form start bytes value := by
  rw [exact]
  constructor
  · intro read
    obtain ⟨whole, split, _, formed⟩ := read
    rw [split, List.append_nil]
    exact formed
  · intro formed
    exact ⟨bytes, (List.append_nil bytes).symm, rfl, formed⟩

/-- The same bytes at the same place stand for one value only. -/
theorem unique (exact : reader.Exact form) {start : Nat} {bytes : List UInt8} {left right : α}
    (first : form start bytes left) (second : form start bytes right) : left = right := by
  rw [← exact.whole_iff] at first second
  rw [first] at second
  exact (EStateM.Result.ok.inj second).1

/-- A blob is read to what its first bytes stand for. -/
theorem ofBlob_eq_ok_iff (exact : reader.Exact form) {blob : List UInt8} {value : α} :
    reader.ofBlob blob = .ok value ↔ ∃ bytes rest, blob = bytes ++ rest ∧ form 0 bytes value := by
  have outcome : reader.ofBlob blob = .ok value ↔
      ∃ after, reader ⟨0, blob⟩ = .ok value after := by
    unfold ofBlob Cursor.ofBytes
    cases reader ⟨0, blob⟩ <;> simp
  rw [outcome]
  constructor
  · rintro ⟨after, read⟩
    obtain ⟨bytes, split, _, formed⟩ := (exact 0 blob value after).mp read
    exact ⟨bytes, after.rest, split, formed⟩
  · rintro ⟨bytes, rest, split, formed⟩
    exact ⟨⟨0 + bytes.length, rest⟩, (exact 0 blob value _).mpr ⟨bytes, split, rfl, formed⟩⟩

protected theorem bind {next : α → Reader β} {after : α → Form β} (first : reader.Exact form)
    (exact : ∀ value, (next value).Exact (after value)) :
    (reader >>= next).Exact fun start bytes result =>
      ∃ value front back, bytes = front ++ back ∧ form start front value ∧
        after value (start + front.length) back result := by
  refine (first.looks.bind exact fun _ _ _ _ _ _ => Iff.rfl).congr ?_
  simp only [true_and, implies_true]

end Exact

theorem pure_exact (result : α) :
    (pure result : Reader α).Exact fun _ bytes value => bytes = [] ∧ value = result := by
  intro start input value after
  constructor
  · intro read
    obtain ⟨rfl, rfl⟩ := EStateM.Result.ok.inj read
    exact ⟨[], rfl, rfl, rfl, rfl⟩
  · rintro ⟨bytes, rfl, place, rfl, rfl⟩
    obtain ⟨position, rest⟩ := after
    simp only at place
    subst place
    rfl

/-- What is read becomes part of a result. -/
theorem Exact.map {reader : Reader α} {form : Form α} (exact : reader.Exact form)
    (build : α → β) : (do return build (← reader) : Reader β).Exact fun start bytes result =>
      ∃ value, form start bytes value ∧ result = build value := by
  refine (exact.bind fun value => pure_exact (build value)).congr ?_
  intro start bytes result
  constructor
  · rintro ⟨value, front, _, rfl, formed, rfl, rfl⟩
    rw [List.append_nil]
    exact ⟨value, formed, rfl⟩
  · rintro ⟨value, formed, rfl⟩
    exact ⟨value, bytes, [], (List.append_nil bytes).symm, formed, rfl, rfl⟩

theorem throw_exact (error : Error) : (throw error : Reader α).Exact fun _ _ _ => False := by
  intro start input value after
  constructor
  · intro read
    cases read
  · rintro ⟨_, _, _, impossible⟩
    exact impossible.elim

end Reader

end CallCapture
