import CallCapture.Proofs.Bytes.Exact

/-!
Compressed integers and tokens as they are written: an integer in any of the three widths that has
room for it, the most significant byte first, and a token as its row above two bits for its table.
-/

namespace CallCapture

inductive CompressedForm : List UInt8 → Nat → Prop where
  | oneByte {number : Nat} : number < 0x80 → CompressedForm [.ofNat number] number
  | twoBytes {number : Nat} : number < 0x4000 →
      CompressedForm [.ofNat (0x80 + number / 0x100), .ofNat number] number
  | fourBytes {number : Nat} : number < 0x20000000 →
      CompressedForm [.ofNat (0xC0 + number / 0x1000000), .ofNat (number / 0x10000),
        .ofNat (number / 0x100), .ofNat number] number

inductive TokenForm : List UInt8 → Token → Prop where
  | typeDef {bytes : List UInt8} {row : Nat} :
      CompressedForm bytes (4 * row) → TokenForm bytes ⟨Token.typeDefs ||| .ofNat row⟩
  | typeRef {bytes : List UInt8} {row : Nat} :
      CompressedForm bytes (4 * row + 1) → TokenForm bytes ⟨Token.typeRefs ||| .ofNat row⟩
  | typeSpec {bytes : List UInt8} {row : Nat} :
      CompressedForm bytes (4 * row + 2) → TokenForm bytes ⟨Token.typeSpecs ||| .ofNat row⟩

namespace Reader

theorem byte_exact : byte.Exact fun _ bytes value => bytes = [value] := by
  intro start input value after
  cases input with
  | nil => simp [byte]
  | cons first rest =>
      simp only [byte, EStateM.Result.ok.injEq]
      constructor
      · rintro ⟨rfl, rfl⟩
        exact ⟨[first], rfl, rfl, rfl⟩
      · rintro ⟨bytes, split, place, rfl⟩
        obtain ⟨position, left⟩ := after
        obtain ⟨rfl, rfl⟩ := List.cons.inj split
        simp only at place
        subst place
        exact ⟨rfl, rfl⟩

theorem take_exact (count : Nat) :
    (take count).Exact fun _ bytes value => bytes = value ∧ value.length = count := by
  intro start input value after
  obtain ⟨position, left⟩ := after
  by_cases short : input.length < count
  · simp only [take, Cursor.remaining, short, if_true, reduceCtorEq, false_iff]
    rintro ⟨bytes, rfl, -, rfl, rfl⟩
    rw [List.length_append] at short
    omega
  · simp only [take, Cursor.remaining, short, if_false, EStateM.Result.ok.injEq, Cursor.mk.injEq]
    constructor
    · rintro ⟨rfl, rfl, rfl⟩
      refine ⟨_, (List.take_append_drop ..).symm, ?_, rfl, ?_⟩
      · simp only [List.length_take]
        omega
      · simp only [List.length_take]
        omega
    · rintro ⟨bytes, rfl, place, rfl, rfl⟩
      exact ⟨List.take_left, place.symm, List.drop_left⟩

/-- What follows the first byte of a compressed integer, and the number that comes of it. -/
def CompressedTail (lead : UInt8) (tail : List UInt8) (number : Nat) : Prop :=
  (lead.toNat < 0x80 ∧ tail = [] ∧ number = lead.toNat) ∨
    (0x80 ≤ lead.toNat ∧ lead.toNat < 0xC0 ∧
      ∃ second : UInt8, tail = [second] ∧
        number = 0x100 * (lead.toNat - 0x80) + second.toNat) ∨
    (0xC0 ≤ lead.toNat ∧ lead.toNat < 0xE0 ∧
      ∃ second third fourth : UInt8, tail = [second, third, fourth] ∧
        number = 0x100 * (0x100 * (0x100 * (lead.toNat - 0xC0) + second.toNat) + third.toNat)
          + fourth.toNat)

theorem byte_eq_ofNat (byte : UInt8) (number : Nat) (digit : number % 0x100 = byte.toNat) :
    byte = .ofNat number := by
  apply UInt8.toNat_inj.mp
  rw [UInt8.toNat_ofNat']
  exact digit.symm

theorem compressedForm_iff {bytes : List UInt8} {number : Nat} :
    CompressedForm bytes number ↔
      ∃ lead tail, bytes = lead :: tail ∧ CompressedTail lead tail number := by
  constructor
  · intro form
    cases form with
    | oneByte room =>
        refine ⟨_, _, rfl, .inl ⟨?_, rfl, ?_⟩⟩
        · rw [UInt8.toNat_ofNat']
          omega
        · rw [UInt8.toNat_ofNat']
          omega
    | twoBytes room =>
        refine ⟨_, _, rfl, .inr (.inl ⟨?_, ?_, _, rfl, ?_⟩)⟩
        all_goals simp only [UInt8.toNat_ofNat']
        all_goals omega
    | fourBytes room =>
        refine ⟨_, _, rfl, .inr (.inr ⟨?_, ?_, _, _, _, rfl, ?_⟩)⟩
        all_goals simp only [UInt8.toNat_ofNat']
        all_goals omega
  · rintro ⟨lead, tail, rfl, ⟨small, rfl, value⟩ | ⟨low, high, second, rfl, value⟩ |
      ⟨low, high, second, third, fourth, rfl, value⟩⟩
    · rw [byte_eq_ofNat lead number (by omega)]
      exact .oneByte (by omega)
    · have digit := second.toNat_lt
      rw [byte_eq_ofNat lead (0x80 + number / 0x100) (by omega),
        byte_eq_ofNat second number (by omega)]
      exact .twoBytes (by omega)
    · have secondDigit := second.toNat_lt
      have thirdDigit := third.toNat_lt
      have fourthDigit := fourth.toNat_lt
      rw [byte_eq_ofNat lead (0xC0 + number / 0x1000000) (by omega),
        byte_eq_ofNat second (number / 0x10000) (by omega),
        byte_eq_ofNat third (number / 0x100) (by omega),
        byte_eq_ofNat fourth number (by omega)]
      exact .fourBytes (by omega)

/-- Bytes that are taken and joined below the bits of the first one. -/
theorem joined_exact (count high : Nat) :
    (do return (← take count).foldl compressed.join high : Reader Nat).Exact
      fun _ bytes number => bytes.length = count ∧ number = bytes.foldl compressed.join high := by
  refine ((take_exact count).map _).congr ?_
  intro start bytes number
  constructor
  · rintro ⟨taken, ⟨rfl, size⟩, rfl⟩
    exact ⟨size, rfl⟩
  · rintro ⟨size, rfl⟩
    exact ⟨bytes, ⟨rfl, size⟩, rfl⟩

theorem compressed_exact : compressed.Exact fun _ => CompressedForm := by
  have tail : ∀ lead : UInt8, Exact (
      let first := lead.toNat
      if first < 0x80 then return first
      else if first < 0xC0 then return (← take 1).foldl compressed.join (first - 0x80)
      else if first < 0xE0 then return (← take 3).foldl compressed.join (first - 0xC0)
      else throw (.malformed (.compressedInteger lead))) fun _ => CompressedTail lead := by
    intro lead
    by_cases oneByte : lead.toNat < 0x80
    · simp only [oneByte, if_true]
      refine (pure_exact _).congr ?_
      intro start bytes number
      constructor
      · rintro ⟨rfl, rfl⟩
        exact .inl ⟨oneByte, rfl, rfl⟩
      · rintro (⟨-, rfl, rfl⟩ | ⟨medium, -⟩ | ⟨large, -⟩)
        · exact ⟨rfl, rfl⟩
        · omega
        · omega
    · by_cases twoBytes : lead.toNat < 0xC0
      · simp only [oneByte, twoBytes, if_true, if_false]
        refine (joined_exact 1 _).congr ?_
        intro start bytes number
        constructor
        · rintro ⟨size, rfl⟩
          obtain ⟨second, rfl⟩ := List.length_eq_one_iff.mp size
          exact .inr (.inl ⟨Nat.le_of_not_lt oneByte, twoBytes, second, rfl, rfl⟩)
        · rintro (⟨small, -⟩ | ⟨-, -, second, rfl, rfl⟩ | ⟨large, -⟩)
          · omega
          · exact ⟨rfl, rfl⟩
          · omega
      · by_cases fourBytes : lead.toNat < 0xE0
        · simp only [oneByte, twoBytes, fourBytes, if_true, if_false]
          refine (joined_exact 3 _).congr ?_
          intro start bytes number
          constructor
          · rintro ⟨size, rfl⟩
            match bytes, size with
            | [second, third, fourth], _ =>
                exact .inr (.inr ⟨Nat.le_of_not_lt twoBytes, fourBytes, second, third, fourth, rfl,
                  rfl⟩)
          · rintro (⟨small, -⟩ | ⟨-, medium, -⟩ | ⟨-, -, second, third, fourth, rfl, rfl⟩)
            · omega
            · omega
            · exact ⟨rfl, rfl⟩
        · simp only [oneByte, twoBytes, fourBytes, if_false]
          refine (throw_exact _).congr ?_
          intro start bytes number
          refine ⟨False.elim, ?_⟩
          rintro (⟨small, -⟩ | ⟨-, medium, -⟩ | ⟨-, large, -⟩)
          · omega
          · omega
          · omega
  refine (byte_exact.bind tail).congr ?_
  intro start bytes number
  rw [compressedForm_iff]
  constructor
  · rintro ⟨lead, front, tail, rfl, rfl, rest⟩
    exact ⟨lead, tail, rfl, rest⟩
  · rintro ⟨lead, tail, rfl, rest⟩
    exact ⟨lead, [lead], tail, rfl, rfl, rest⟩

theorem tokenForm_iff {bytes : List UInt8} {token : Token} :
    TokenForm bytes token ↔ ∃ encoded, CompressedForm bytes encoded ∧
      ∃ table, tokenTable? (encoded % 4) = some table ∧
        token = ⟨table ||| .ofNat (encoded / 4)⟩ := by
  constructor
  · intro form
    cases form with
    | @typeDef row form =>
        have row : 4 * row / 4 = row ∧ 4 * row % 4 = 0 := by omega
        exact ⟨_, form, Token.typeDefs, by rw [row.2]; rfl, by rw [row.1]⟩
    | @typeRef row form =>
        have row : (4 * row + 1) / 4 = row ∧ (4 * row + 1) % 4 = 1 := by omega
        exact ⟨_, form, Token.typeRefs, by rw [row.2]; rfl, by rw [row.1]⟩
    | @typeSpec row form =>
        have row : (4 * row + 2) / 4 = row ∧ (4 * row + 2) % 4 = 2 := by omega
        exact ⟨_, form, Token.typeSpecs, by rw [row.2]; rfl, by rw [row.1]⟩
  · rintro ⟨encoded, form, table, selected, rfl⟩
    have split := Nat.div_add_mod encoded 4
    have tables : encoded % 4 = 0 ∨ encoded % 4 = 1 ∨ encoded % 4 = 2 ∨ encoded % 4 = 3 := by
      omega
    rcases tables with low | low | low | low
    all_goals
      rw [low] at split selected
      rw [← split] at form
      cases selected
    · exact .typeDef form
    · exact .typeRef form
    · exact .typeSpec form

theorem token_exact : token.Exact fun _ => TokenForm := by
  refine Exact.congr (compressed_exact.bind fun encoded => (?_ : Exact _ fun _ bytes token =>
    bytes = [] ∧ ∃ table, tokenTable? (encoded % 4) = some table ∧
      token = ⟨table ||| UInt32.ofNat (encoded / 4)⟩)) ?_
  · cases selected : tokenTable? (encoded % 4) with
    | none => exact (throw_exact _).congr (by simp)
    | some table => exact (pure_exact _).congr (by simp)
  · intro start bytes token
    rw [tokenForm_iff]
    constructor
    · rintro ⟨encoded, front, back, rfl, form, rfl, selected⟩
      rw [List.append_nil]
      exact ⟨encoded, form, selected⟩
    · rintro ⟨encoded, form, selected⟩
      exact ⟨encoded, bytes, [], (List.append_nil bytes).symm, form, rfl, selected⟩

end Reader

end CallCapture
