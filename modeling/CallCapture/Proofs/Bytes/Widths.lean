import CallCapture.Proofs.Bytes.Compressed
import CallCapture.Proofs.Channel.Layout

/-!
The widths of compressed integers. The first bits of the first byte tell the width, and the bits
after them are the number, the most significant byte first. What starts with no such number is
refused: the cursor has then passed the first byte at most.
-/

namespace CallCapture

/-- The number whose base 256 digits are the bytes, most significant first. -/
def bigEndian (bytes : List UInt8) : Nat :=
  littleEndian bytes.reverse

theorem littleEndian_eq_foldr (bytes : List UInt8) :
    littleEndian bytes = bytes.foldr (fun byte value => Reader.compressed.join value byte) 0 := by
  induction bytes with
  | nil => rfl
  | cons first rest ih =>
      rw [littleEndian, List.foldr_cons, ← ih, Reader.compressed.join, Nat.add_comm]

/-- The reader's loop, started at zero. -/
theorem bigEndian_eq_foldl (bytes : List UInt8) :
    bigEndian bytes = bytes.foldl Reader.compressed.join 0 := by
  rw [bigEndian, littleEndian_eq_foldr, List.foldr_reverse]

inductive CompressedWidth where
  | oneByte
  | twoBytes
  | fourBytes
deriving DecidableEq, Repr

namespace CompressedWidth

def bytes : CompressedWidth → Nat
  | .oneByte => 1
  | .twoBytes => 2
  | .fourBytes => 4

/-- Numbers of 7, 14 and 29 bits have room. -/
def bound : CompressedWidth → Nat
  | .oneByte => 0x80
  | .twoBytes => 0x4000
  | .fourBytes => 0x20000000

/-- The bits in front of the number, `0`, `10` or `110`, at their place above it. -/
def mark : CompressedWidth → Nat
  | .oneByte => 0
  | .twoBytes => 0x8000
  | .fourBytes => 0xC0000000

def Starts : CompressedWidth → UInt8 → Prop
  | .oneByte, lead => lead.toNat < 0x80
  | .twoBytes, lead => 0x80 ≤ lead.toNat ∧ lead.toNat < 0xC0
  | .fourBytes, lead => 0xC0 ≤ lead.toNat ∧ lead.toNat < 0xE0

instance (width : CompressedWidth) (lead : UInt8) : Decidable (width.Starts lead) :=
  match width with
  | .oneByte => inferInstanceAs (Decidable (_ < _))
  | .twoBytes | .fourBytes => inferInstanceAs (Decidable (_ ∧ _))

def encode (width : CompressedWidth) (number : Nat) : List UInt8 :=
  (littleEndianBytes width.bytes (width.mark + number)).reverse

/-- The bytes are the number in this width. -/
structure Spells (width : CompressedWidth) (bytes : List UInt8) (number : Nat) : Prop where
  lead : ∃ first ∈ bytes.head?, width.Starts first
  length : bytes.length = width.bytes
  room : number < width.bound
  payload : bigEndian bytes = width.mark + number

variable {width : CompressedWidth} {number : Nat} {bytes : List UInt8}

theorem bound_le (width : CompressedWidth) : width.bound ≤ 0x20000000 := by
  cases width <;> decide

theorem encode_length (width : CompressedWidth) (number : Nat) :
    (width.encode number).length = width.bytes := by
  rw [encode, List.length_reverse, littleEndianBytes_length]

theorem bigEndian_encode (room : number < width.bound) :
    bigEndian (width.encode number) = width.mark + number := by
  have fits : width.mark + number < Nat.pow 256 width.bytes := by
    cases width <;> simp only [mark, bound, bytes, Nat.pow_eq] at room ⊢ <;> omega
  rw [bigEndian, encode, List.reverse_reverse, littleEndian_littleEndianBytes fits]

theorem encode_starts (room : number < width.bound) :
    ∃ first ∈ (width.encode number).head?, width.Starts first := by
  cases width with
  | oneByte =>
      refine ⟨.ofNat (0 + number), rfl, ?_⟩
      simp only [Starts, bound, UInt8.toNat_ofNat'] at room ⊢
      omega
  | twoBytes =>
      refine ⟨.ofNat ((0x8000 + number) / 256), rfl, ?_⟩
      simp only [Starts, bound, UInt8.toNat_ofNat'] at room ⊢
      omega
  | fourBytes =>
      refine ⟨.ofNat ((0xC0000000 + number) / 256 / 256 / 256), rfl, ?_⟩
      simp only [Starts, bound, UInt8.toNat_ofNat'] at room ⊢
      omega

/-- A number can be written in every width that has room for it. -/
theorem spells_encode (room : number < width.bound) :
    width.Spells (width.encode number) number where
  lead := encode_starts room
  length := width.encode_length number
  room := room
  payload := bigEndian_encode room

theorem exists_spells (form : CompressedForm bytes number) :
    ∃ width : CompressedWidth, width.Spells bytes number := by
  obtain ⟨lead, tail, rfl, ⟨small, rfl, value⟩ | ⟨low, high, second, rfl, value⟩ |
    ⟨low, high, second, third, fourth, rfl, value⟩⟩ := Reader.compressedForm_iff.mp form
  · refine ⟨.oneByte, ⟨lead, rfl, small⟩, rfl, ?_, ?_⟩
    · simp only [bound]
      omega
    · simp only [bigEndian_eq_foldl, List.foldl_cons, List.foldl_nil, Reader.compressed.join, mark]
      omega
  · have digit := second.toNat_lt
    refine ⟨.twoBytes, ⟨lead, rfl, low, high⟩, rfl, ?_, ?_⟩
    · simp only [bound]
      omega
    · simp only [bigEndian_eq_foldl, List.foldl_cons, List.foldl_nil, Reader.compressed.join, mark]
      omega
  · have secondDigit := second.toNat_lt
    have thirdDigit := third.toNat_lt
    have fourthDigit := fourth.toNat_lt
    refine ⟨.fourBytes, ⟨lead, rfl, low, high⟩, rfl, ?_, ?_⟩
    · simp only [bound]
      omega
    · simp only [bigEndian_eq_foldl, List.foldl_cons, List.foldl_nil, Reader.compressed.join, mark]
      omega

theorem Spells.form (spells : width.Spells bytes number) : CompressedForm bytes number := by
  obtain ⟨⟨lead, first, starts⟩, length, _, payload⟩ := spells
  apply Reader.compressedForm_iff.mpr
  obtain ⟨tail, rfl⟩ := List.head?_eq_some_iff.mp first
  have following : tail.length = width.bytes - 1 := Nat.eq_sub_of_add_eq length
  cases width with
  | oneByte =>
      obtain rfl := List.eq_nil_of_length_eq_zero following
      simp only [bigEndian_eq_foldl, List.foldl_cons, List.foldl_nil, Reader.compressed.join,
        mark] at payload
      exact ⟨lead, [], rfl, .inl ⟨starts, rfl, by omega⟩⟩
  | twoBytes =>
      obtain ⟨second, rfl⟩ := List.length_eq_one_iff.mp following
      simp only [bigEndian_eq_foldl, List.foldl_cons, List.foldl_nil, Reader.compressed.join,
        mark] at payload
      obtain ⟨low, high⟩ := starts
      exact ⟨lead, [second], rfl, .inr (.inl ⟨low, high, second, rfl, by omega⟩)⟩
  | fourBytes =>
      obtain ⟨second, rest, rfl⟩ := List.exists_cons_of_length_eq_add_one following
      obtain ⟨third, last, rfl⟩ :=
        List.exists_cons_of_length_eq_add_one (Nat.succ.inj following)
      obtain ⟨fourth, rfl⟩ :=
        List.length_eq_one_iff.mp (Nat.succ.inj (Nat.succ.inj following))
      simp only [bigEndian_eq_foldl, List.foldl_cons, List.foldl_nil, Reader.compressed.join,
        mark] at payload
      obtain ⟨low, high⟩ := starts
      exact ⟨lead, [second, third, fourth], rfl,
        .inr (.inr ⟨low, high, second, third, fourth, rfl, by omega⟩)⟩

/-- The bytes of the forms are those of the widths. -/
theorem compressedForm_iff_spells :
    CompressedForm bytes number ↔ ∃ width : CompressedWidth, width.Spells bytes number :=
  ⟨exists_spells, fun ⟨_, spells⟩ => spells.form⟩

/-- Every byte below `0xE0` starts a width. -/
theorem starts_or_not (lead : UInt8) :
    (∃ width : CompressedWidth, width.Starts lead) ∨ 0xE0 ≤ lead.toNat := by
  by_cases oneByte : lead.toNat < 0x80
  · exact .inl ⟨.oneByte, oneByte⟩
  · by_cases twoBytes : lead.toNat < 0xC0
    · exact .inl ⟨.twoBytes, Nat.le_of_not_lt oneByte, twoBytes⟩
    · by_cases fourBytes : lead.toNat < 0xE0
      · exact .inl ⟨.fourBytes, Nat.le_of_not_lt twoBytes, fourBytes⟩
      · exact .inr (Nat.le_of_not_lt fourBytes)

end CompressedWidth

/-- Inputs that start with no number, and the error that says so. -/
inductive CompressedRefusal : List UInt8 → Error → Prop where
  | ended : CompressedRefusal [] .outOfBounds
  | unmarked {lead : UInt8} {tail : List UInt8} :
      0xE0 ≤ lead.toNat → CompressedRefusal (lead :: tail) (.malformed (.compressedInteger lead))
  | truncated {width : CompressedWidth} {lead : UInt8} {tail : List UInt8} :
      width.Starts lead → (lead :: tail).length < width.bytes →
      CompressedRefusal (lead :: tail) .outOfBounds

namespace Reader

variable {start : Nat} {input tail : List UInt8} {lead : UInt8} {error : Error}
variable {width : CompressedWidth}

/-- The bytes after the first one, joined below its bits. -/
def joined (count high : Nat) : Reader Nat := do
  return (← take count).foldl compressed.join high

theorem joined_short {count : Nat} (short : input.length < count) (high : Nat) :
    joined count high ⟨start, input⟩ = .error .outOfBounds ⟨start, input⟩ := by
  simp only [joined, bind, EStateM.bind, take, Cursor.remaining, short, if_true]

theorem joined_enough {count : Nat} (enough : count ≤ input.length) (high : Nat) :
    joined count high ⟨start, input⟩ =
      .ok ((input.take count).foldl compressed.join high) ⟨start + count, input.drop count⟩ := by
  simp only [joined, bind, EStateM.bind, take, Cursor.remaining, Nat.not_lt.mpr enough, if_false,
    pure, EStateM.pure]

theorem compressed_cons (start : Nat) (lead : UInt8) (tail : List UInt8) :
    compressed ⟨start, lead :: tail⟩ =
      (if lead.toNat < 0x80 then pure lead.toNat
      else if lead.toNat < 0xC0 then joined 1 (lead.toNat - 0x80)
      else if lead.toNat < 0xE0 then joined 3 (lead.toNat - 0xC0)
      else throw (.malformed (.compressedInteger lead)) : Reader Nat) ⟨start + 1, tail⟩ :=
  rfl

theorem compressed_of_starts (starts : width.Starts lead) (start : Nat) (tail : List UInt8) :
    ∃ high, compressed ⟨start, lead :: tail⟩ = joined (width.bytes - 1) high ⟨start + 1, tail⟩ := by
  rw [compressed_cons]
  cases width with
  | oneByte =>
      have small : lead.toNat < 0x80 := starts
      refine ⟨lead.toNat, ?_⟩
      rw [if_pos small, CompressedWidth.bytes, joined_enough (Nat.zero_le _)]
      rfl
  | twoBytes =>
      obtain ⟨low, high⟩ := starts
      refine ⟨lead.toNat - 0x80, ?_⟩
      rw [if_neg (Nat.not_lt.mpr low), if_pos high, CompressedWidth.bytes]
  | fourBytes =>
      obtain ⟨low, high⟩ := starts
      have notOne : ¬ lead.toNat < 0x80 := by omega
      refine ⟨lead.toNat - 0xC0, ?_⟩
      rw [if_neg notOne, if_neg (Nat.not_lt.mpr low), if_pos high, CompressedWidth.bytes]

/-- A refusal leaves the cursor behind the first byte, if there is one. -/
theorem compressed_of_refusal (refusal : CompressedRefusal input error) (start : Nat) :
    compressed ⟨start, input⟩ = .error error ⟨start + (input.take 1).length, input.drop 1⟩ := by
  cases refusal with
  | ended => rfl
  | unmarked unmarked =>
      rw [compressed_cons, if_neg (by omega), if_neg (by omega), if_neg (Nat.not_lt.mpr unmarked)]
      rfl
  | truncated starts short =>
      obtain ⟨high, read⟩ := compressed_of_starts starts start _
      rw [List.length_cons] at short
      rw [read, joined_short (Nat.lt_sub_of_add_lt short)]
      rfl

theorem refusal_of_compressed {after : Cursor}
    (refused : compressed ⟨start, input⟩ = .error error after) :
    ∃ error, CompressedRefusal input error := by
  cases input with
  | nil => exact ⟨_, .ended⟩
  | cons lead tail =>
      rcases CompressedWidth.starts_or_not lead with ⟨width, starts⟩ | unmarked
      · by_cases short : (lead :: tail).length < width.bytes
        · exact ⟨_, .truncated starts short⟩
        · obtain ⟨high, read⟩ := compressed_of_starts starts start tail
          rw [List.length_cons] at short
          rw [read, joined_enough (by omega)] at refused
          contradiction
      · exact ⟨_, .unmarked unmarked⟩

theorem compressed_eq_error_iff {after : Cursor} :
    compressed ⟨start, input⟩ = .error error after ↔
      CompressedRefusal input error ∧ after = ⟨start + (input.take 1).length, input.drop 1⟩ := by
  constructor
  · intro refused
    obtain ⟨found, refusal⟩ := refusal_of_compressed refused
    rw [compressed_of_refusal refusal] at refused
    cases refused
    exact ⟨refusal, rfl⟩
  · rintro ⟨refusal, rfl⟩
    exact compressed_of_refusal refusal start

theorem compressed_eq_ok_iff {number : Nat} {after : Cursor} :
    compressed ⟨start, input⟩ = .ok number after ↔
      ∃ (width : CompressedWidth) (bytes : List UInt8), width.Spells bytes number ∧
        input = bytes ++ after.rest ∧ after.pos = start + width.bytes := by
  rw [compressed_exact start input number after]
  constructor
  · rintro ⟨bytes, split, place, form⟩
    obtain ⟨width, spells⟩ := CompressedWidth.compressedForm_iff_spells.mp form
    rw [spells.length] at place
    exact ⟨width, bytes, spells, split, place⟩
  · rintro ⟨width, bytes, spells, split, place⟩
    rw [← spells.length] at place
    exact ⟨bytes, split, place, CompressedWidth.compressedForm_iff_spells.mpr ⟨width, spells⟩⟩

/--
A number is read back from each width that has room for it, whatever follows, and what is read is
the number that the bytes passed over are in their width. Anything else is refused, with the cursor
no further than the first byte.
-/
theorem compressed_reads_widths (start : Nat) :
    (∀ (width : CompressedWidth) (number : Nat) (rest : List UInt8), number < width.bound →
      compressed ⟨start, width.encode number ++ rest⟩ =
        .ok number ⟨start + width.bytes, rest⟩) ∧
    (∀ (input : List UInt8) (number : Nat) (after : Cursor),
      compressed ⟨start, input⟩ = .ok number after →
        number < 0x20000000 ∧ ∃ (width : CompressedWidth) (bytes : List UInt8),
          width.Spells bytes number ∧ input = bytes ++ after.rest ∧
            after.pos = start + width.bytes) ∧
    ∀ (input : List UInt8) (error : Error) (after : Cursor),
      compressed ⟨start, input⟩ = .error error after ↔
        CompressedRefusal input error ∧
          after = ⟨start + (input.take 1).length, input.drop 1⟩ := by
  refine ⟨?_, ?_, fun _ _ _ => compressed_eq_error_iff⟩
  · intro width number rest room
    exact compressed_eq_ok_iff.mpr ⟨width, _, CompressedWidth.spells_encode room, rfl, rfl⟩
  · intro input number after read
    obtain ⟨width, bytes, spells, split, place⟩ := compressed_eq_ok_iff.mp read
    exact ⟨Nat.lt_of_lt_of_le spells.room width.bound_le, width, bytes, spells, split, place⟩

/--
The greatest number of two bytes in the two widths that hold it; it is refused without its second
byte, and so is a first byte that starts no width.
-/
theorem compressed_reads_widths_boundary :
    CompressedWidth.twoBytes.encode 0x3FFF = [0xBF, 0xFF] ∧
      CompressedWidth.fourBytes.encode 0x3FFF = [0xC0, 0x00, 0x3F, 0xFF] ∧
      compressed ⟨5, [0xBF, 0xFF, 0x2A]⟩ = .ok 0x3FFF ⟨7, [0x2A]⟩ ∧
      compressed ⟨5, [0xC0, 0x00, 0x3F, 0xFF, 0x2A]⟩ = .ok 0x3FFF ⟨9, [0x2A]⟩ ∧
      compressed ⟨5, [0xBF]⟩ = .error .outOfBounds ⟨6, []⟩ ∧
      compressed ⟨5, [0xE0, 0x2A]⟩ =
        .error (.malformed (.compressedInteger 0xE0)) ⟨6, [0x2A]⟩ := by
  obtain ⟨reads, _, refuses⟩ := compressed_reads_widths 5
  refine ⟨rfl, rfl, reads .twoBytes 0x3FFF [0x2A] (by decide),
    reads .fourBytes 0x3FFF [0x2A] (by decide), ?_, ?_⟩
  · have starts : CompressedWidth.twoBytes.Starts 0xBF := by decide
    exact (refuses _ _ _).mpr ⟨.truncated starts (by decide), rfl⟩
  · exact (refuses _ _ _).mpr ⟨.unmarked (by decide), rfl⟩

end Reader

end CallCapture
