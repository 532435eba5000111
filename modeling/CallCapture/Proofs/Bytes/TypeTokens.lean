import CallCapture.Proofs.Bytes.Widths

/-!
Tokens of types as they are read. An encoding has 27 bits for the row and a token has 24: a row that
needs more of them runs into the number of the table, and the token names another row, and maybe
another table.
-/

namespace CallCapture

/-- The tables whose rows are types. -/
inductive TypeTable where
  | typeDef
  | typeRef
  | typeSpec
deriving DecidableEq, Repr

namespace TypeTable

/-- The two low bits of an encoding that select the table. -/
def tag : TypeTable → Nat
  | .typeDef => 0
  | .typeRef => 1
  | .typeSpec => 2

def number : TypeTable → Nat
  | .typeDef => 0x02
  | .typeRef => 0x01
  | .typeSpec => 0x1B

/-- The number in the high byte of a token. -/
def word : TypeTable → UInt32
  | .typeDef => Token.typeDefs
  | .typeRef => Token.typeRefs
  | .typeSpec => Token.typeSpecs

variable {table : TypeTable} {row : Nat}

theorem word_toNat (table : TypeTable) : table.word.toNat = table.number * 0x1000000 := by
  cases table <;> rfl

theorem tag_lt (table : TypeTable) : table.tag < 4 := by
  cases table <;> decide

theorem tag_injective {left right : TypeTable} (same : left.tag = right.tag) : left = right := by
  cases left <;> cases right <;> first | rfl | contradiction

theorem number_injective {left right : TypeTable} (same : left.number = right.number) :
    left = right := by
  cases left <;> cases right <;> first | rfl | contradiction

theorem tokenTable?_eq_some_iff {selector : Nat} {word : UInt32} :
    Reader.tokenTable? selector = some word ↔
      ∃ table : TypeTable, selector = table.tag ∧ word = table.word := by
  constructor
  · intro selected
    match selector, selected with
    | 0, rfl => exact ⟨.typeDef, rfl, rfl⟩
    | 1, rfl => exact ⟨.typeRef, rfl, rfl⟩
    | 2, rfl => exact ⟨.typeSpec, rfl, rfl⟩
  · rintro ⟨table, rfl, rfl⟩
    cases table <;> rfl

/-- The token that is made of a row, whatever bits the row has. -/
def joined (table : TypeTable) (row : Nat) : Token :=
  ⟨table.word ||| .ofNat row⟩

theorem joined_toNat (small : row < 0x8000000) :
    (table.joined row).value.toNat = table.number * 0x1000000 ||| row := by
  have fits : row < UInt32.size := Nat.lt_trans small (by decide)
  rw [joined, UInt32.toNat_or, word_toNat, UInt32.toNat_ofNat_of_lt' fits]

/-- The bits of the row above the low 24 are joined to the number of the table. -/
theorem joined_table (small : row < 0x8000000) :
    (table.joined row).table = table.number ||| row / 0x1000000 := by
  have split : (table.number * 0x1000000 ||| row) / 0x1000000 =
      table.number * 0x1000000 / 0x1000000 ||| row / 0x1000000 := Nat.or_div_two_pow (n := 24)
  rw [Nat.mul_div_cancel table.number (by decide)] at split
  rw [Token.table, joined_toNat small]
  exact split

theorem joined_row (small : row < 0x8000000) : (table.joined row).row = row % 0x1000000 := by
  have split : (table.number * 0x1000000 ||| row) % 0x1000000 =
      table.number * 0x1000000 % 0x1000000 ||| row % 0x1000000 := Nat.or_mod_two_pow (n := 24)
  rw [Nat.mul_mod_left, Nat.zero_or] at split
  rw [Token.row, joined_toNat small]
  exact split

theorem joined_kept_iff (small : row < 0x8000000) :
    (table.joined row).table = table.number ∧ (table.joined row).row = row ↔ row < 0x1000000 := by
  rw [joined_table small, joined_row small]
  constructor
  · rintro ⟨-, kept⟩
    omega
  · intro fits
    rw [Nat.div_eq_of_lt fits, Nat.or_zero, Nat.mod_eq_of_lt fits]
    exact ⟨rfl, rfl⟩

end TypeTable

theorem Token.eq_of_parts {left right : Token} (table : left.table = right.table)
    (row : left.row = right.row) : left = right := by
  obtain ⟨left⟩ := left
  obtain ⟨right⟩ := right
  simp only [Token.table, Token.row] at table row
  have same : left.toNat = right.toNat := by omega
  rw [UInt32.toNat_inj.mp same]

namespace TypeTable

variable {table : TypeTable} {row : Nat} {token : Token}

/-- A bit of the table's number, which is lost in a token when a row has it too. -/
def hidden : TypeTable → Nat
  | .typeDef => 2
  | .typeRef => 1
  | .typeSpec => 1

/-- The row with the hidden bit the other way. -/
def twin (table : TypeTable) (row : Nat) : Nat :=
  (row / 0x1000000 ^^^ table.hidden) * 0x1000000 + row % 0x1000000

theorem hidden_cases (table : TypeTable) {high : Nat} (small : high < 8) :
    high ^^^ table.hidden < 8 ∧ high ^^^ table.hidden ≠ high ∧
      table.number ||| (high ^^^ table.hidden) = table.number ||| high := by
  cases table
  all_goals
    revert high
    decide

theorem twin_spec (table : TypeTable) (small : row < 0x8000000) :
    table.twin row < 0x8000000 ∧ table.twin row ≠ row ∧
      table.joined (table.twin row) = table.joined row := by
  have high : row / 0x1000000 < 8 := by omega
  obtain ⟨below, other, hides⟩ := table.hidden_cases high
  have quotient : table.twin row / 0x1000000 = row / 0x1000000 ^^^ table.hidden := by
    unfold twin
    omega
  have remainder : table.twin row % 0x1000000 = row % 0x1000000 := by
    unfold twin
    omega
  have room : table.twin row < 0x8000000 := by omega
  refine ⟨room, ?_, Token.eq_of_parts ?_ ?_⟩
  · intro same
    rw [same] at quotient
    exact other quotient.symm
  · rw [joined_table room, joined_table small, quotient, hides]
  · rw [joined_row room, joined_row small, remainder]

end TypeTable

namespace Reader

variable {start : Nat} {input : List UInt8} {token : Token} {after : Cursor}
variable {table : TypeTable} {row : Nat}

theorem token_eq_ok_iff :
    Reader.token ⟨start, input⟩ = .ok token after ↔
      ∃ (table : TypeTable) (row : Nat),
        compressed ⟨start, input⟩ = .ok (4 * row + table.tag) after ∧ token = table.joined row := by
  unfold Reader.token
  rw [bind_eq_ok]
  constructor
  · rintro ⟨encoded, middle, read, made⟩
    cases selected : tokenTable? (encoded % 4) with
    | none =>
        rw [selected] at made
        contradiction
    | some word =>
        obtain ⟨table, tag, rfl⟩ := TypeTable.tokenTable?_eq_some_iff.mp selected
        rw [selected] at made
        obtain ⟨rfl, rfl⟩ := EStateM.Result.ok.inj made
        refine ⟨table, encoded / 4, ?_, rfl⟩
        rw [← tag, Nat.div_add_mod]
        exact read
  · rintro ⟨table, row, read, rfl⟩
    have small := table.tag_lt
    have tag : (4 * row + table.tag) % 4 = table.tag := by omega
    have rest : (4 * row + table.tag) / 4 = row := by omega
    refine ⟨_, after, read, ?_⟩
    rw [tag, rest, TypeTable.tokenTable?_eq_some_iff.mpr ⟨table, rfl, rfl⟩]
    rfl

theorem row_lt (read : compressed ⟨start, input⟩ = .ok (4 * row + table.tag) after) :
    row < 0x8000000 := by
  obtain ⟨width, _, spells, _⟩ := compressed_eq_ok_iff.mp read
  have room := Nat.lt_of_lt_of_le spells.room width.bound_le
  omega

end Reader

namespace TypeTable

variable {table : TypeTable} {row : Nat} {token : Token}

/-- Somewhere the row of the table stands encoded, and is read to the token. -/
def ReadsAs (table : TypeTable) (row : Nat) (token : Token) : Prop :=
  ∃ start input after, Reader.compressed ⟨start, input⟩ = .ok (4 * row + table.tag) after ∧
    Reader.token ⟨start, input⟩ = .ok token after

/-- Where it stands does not matter. -/
theorem readsAs_iff : table.ReadsAs row token ↔ row < 0x8000000 ∧ token = table.joined row := by
  constructor
  · rintro ⟨start, input, after, encoded, read⟩
    obtain ⟨found, other, again, made⟩ := Reader.token_eq_ok_iff.mp read
    rw [encoded] at again
    have same := (EStateM.Result.ok.inj again).1
    have tagLow := table.tag_lt
    have foundLow := found.tag_lt
    obtain rfl : table = found := tag_injective (by omega)
    obtain rfl : row = other := by omega
    exact ⟨Reader.row_lt encoded, made⟩
  · rintro ⟨small, rfl⟩
    have tagLow := table.tag_lt
    have room : 4 * row + table.tag < CompressedWidth.fourBytes.bound := by
      rw [CompressedWidth.bound]
      omega
    have encoded : Reader.compressed ⟨0, CompressedWidth.fourBytes.encode (4 * row + table.tag)⟩ =
        .ok (4 * row + table.tag) ⟨4, []⟩ :=
      Reader.compressed_eq_ok_iff.mpr ⟨.fourBytes, _, CompressedWidth.spells_encode room,
        (List.append_nil _).symm, rfl⟩
    exact ⟨0, _, _, encoded, Reader.token_eq_ok_iff.mpr ⟨table, row, encoded, rfl⟩⟩

theorem ReadsAs.apart {other : TypeTable} {otherRow : Nat} (readsAs : table.ReadsAs row token)
    (otherReadsAs : other.ReadsAs otherRow token) (fits : row < 0x1000000)
    (otherFits : otherRow < 0x1000000) : table = other ∧ row = otherRow := by
  obtain ⟨small, made⟩ := readsAs_iff.mp readsAs
  obtain ⟨otherSmall, rfl⟩ := readsAs_iff.mp otherReadsAs
  obtain ⟨named, numbered⟩ := (joined_kept_iff small).mpr fits
  obtain ⟨otherNamed, otherNumbered⟩ := (joined_kept_iff otherSmall).mpr otherFits
  rw [made] at otherNamed otherNumbered
  exact ⟨number_injective (named.symm.trans otherNamed), numbered.symm.trans otherNumbered⟩

theorem ReadsAs.shared (readsAs : table.ReadsAs row token) :
    ∃ otherRow, otherRow ≠ row ∧ table.ReadsAs otherRow token := by
  obtain ⟨small, rfl⟩ := readsAs_iff.mp readsAs
  obtain ⟨room, other, same⟩ := table.twin_spec small
  exact ⟨table.twin row, other, readsAs_iff.mpr ⟨room, same.symm⟩⟩

end TypeTable

namespace Reader

open TypeTable

variable {start : Nat} {input : List UInt8} {token : Token} {after : Cursor}

/--
A token is made of a row and a table as they stand encoded, and names them exactly if the row has at
most 24 bits: such rows are told apart, and the tables with them. Above that, bits of the row are
joined to the number of the table; and some of them are lost, so that no row is the only one that is
read as its token.
-/
theorem token_keeps_row_iff (read : Reader.token ⟨start, input⟩ = .ok token after) :
    ∃ (table : TypeTable) (row : Nat),
      compressed ⟨start, input⟩ = .ok (4 * row + table.tag) after ∧
      token.table = table.number ||| row / 0x1000000 ∧ token.row = row % 0x1000000 ∧
      (token.table = table.number ∧ token.row = row ↔ row < 0x1000000) ∧
      (∀ (other : TypeTable) (otherRow : Nat), other.ReadsAs otherRow token →
        row < 0x1000000 → otherRow < 0x1000000 → table = other ∧ row = otherRow) ∧
      ∃ otherRow, otherRow ≠ row ∧ table.ReadsAs otherRow token := by
  obtain ⟨table, row, encoded, rfl⟩ := token_eq_ok_iff.mp read
  have small := row_lt encoded
  have readsAs : table.ReadsAs row (table.joined row) := ⟨start, input, after, encoded, read⟩
  exact ⟨table, row, encoded, joined_table small, joined_row small, joined_kept_iff small,
    fun _ _ => readsAs.apart, readsAs.shared⟩

/-- Row `13` of the type references is kept, and yet not the only row that is read as its token. -/
theorem token_keeps_row_iff_thirteen :
    Reader.token ⟨0, [0x35]⟩ = .ok ⟨0x0100000D⟩ ⟨1, []⟩ ∧
      (⟨0x0100000D⟩ : Token).table = TypeTable.typeRef.number ∧ (⟨0x0100000D⟩ : Token).row = 13 ∧
      ∃ otherRow, otherRow ≠ 13 ∧ TypeTable.typeRef.ReadsAs otherRow ⟨0x0100000D⟩ := by
  have read : Reader.token ⟨0, [0x35]⟩ = .ok ⟨0x0100000D⟩ ⟨1, []⟩ := rfl
  obtain ⟨table, row, encoded, _, _, kept, _, shared⟩ := token_keeps_row_iff read
  have number : 0x35 = 4 * row + table.tag := (EStateM.Result.ok.inj encoded).1
  have low := table.tag_lt
  obtain rfl : row = 13 := by omega
  obtain rfl : table = .typeRef := tag_injective (by simp only [TypeTable.tag] at number ⊢; omega)
  obtain ⟨named, numbered⟩ := kept.mpr (by decide)
  exact ⟨read, named, numbered, shared⟩

/--
Row `0x1000005` of the type specifications is read as row `5` is, and row `0x1000000` of the type
definitions as row `0` of a table that has no types.
-/
theorem token_row_overflows :
    compressed ⟨0, [0xC4, 0x00, 0x00, 0x16]⟩ =
        .ok (4 * 0x1000005 + TypeTable.typeSpec.tag) ⟨4, []⟩ ∧
      Reader.token ⟨0, [0xC4, 0x00, 0x00, 0x16]⟩ = .ok ⟨0x1B000005⟩ ⟨4, []⟩ ∧
      compressed ⟨0, [0x16]⟩ = .ok (4 * 5 + TypeTable.typeSpec.tag) ⟨1, []⟩ ∧
      Reader.token ⟨0, [0x16]⟩ = .ok ⟨0x1B000005⟩ ⟨1, []⟩ ∧
      (⟨0x1B000005⟩ : Token).row = 5 ∧
      compressed ⟨0, [0xC4, 0x00, 0x00, 0x00]⟩ =
        .ok (4 * 0x1000000 + TypeTable.typeDef.tag) ⟨4, []⟩ ∧
      Reader.token ⟨0, [0xC4, 0x00, 0x00, 0x00]⟩ = .ok ⟨0x03000000⟩ ⟨4, []⟩ ∧
      (⟨0x03000000⟩ : Token).table = 0x03 :=
  ⟨rfl, rfl, rfl, rfl, rfl, rfl, rfl, rfl⟩

end Reader

end CallCapture
