import CallCapture.Boxing.Instruction
import CallCapture.Proofs.Channel.Layout

/-!
Bytes in words of four. The last word of a blob may hold less than four bytes of it, and what the
other bytes of that word are makes no difference when the blob is taken out again.
-/

namespace CallCapture

/-- The lower digits do not depend on how many digits are written. -/
theorem take_littleEndianBytes {width wider : Nat} (fits : width ≤ wider) (number : Nat) :
    (littleEndianBytes wider number).take width = littleEndianBytes width number := by
  induction width generalizing wider number with
  | zero => simp [littleEndianBytes]
  | succ width ih =>
      cases wider with
      | zero => omega
      | succ wider =>
          have narrower : width ≤ wider := by omega
          simp only [littleEndianBytes, List.take_succ_cons, ih narrower]

namespace Boxing

/-- The bytes of a word, the least significant first. -/
def wordBytes (word : UInt32) : List UInt8 :=
  littleEndianBytes 4 word.toNat

theorem wordBytes_length (word : UInt32) : (wordBytes word).length = 4 :=
  littleEndianBytes_length 4 _

theorem littleEndian_wordBytes (word : UInt32) : littleEndian (wordBytes word) = word.toNat :=
  littleEndian_littleEndianBytes word.toNat_lt

theorem wordBytes_inj {word other : UInt32} : wordBytes word = wordBytes other ↔ word = other := by
  constructor
  · intro same
    apply UInt32.toNat_inj.mp
    rw [← littleEndian_wordBytes word, ← littleEndian_wordBytes other, same]
  · intro same
    rw [same]

/-- Up to four bytes come back out of the word they were put in. -/
theorem take_wordBytes_ofNat (bytes : List UInt8) (few : bytes.length ≤ 4) :
    (wordBytes (.ofNat (littleEndian bytes))).take bytes.length = bytes := by
  have bound := littleEndian_lt bytes
  have wider : Nat.pow 256 bytes.length ≤ Nat.pow 256 4 := Nat.pow_le_pow_right (by decide) few
  have room : littleEndian bytes < UInt32.size := Nat.lt_of_lt_of_le bound wider
  rw [wordBytes, UInt32.toNat_ofNat_of_lt' room, take_littleEndianBytes few]
  exact littleEndianBytes_littleEndian bytes

/-- How many bytes of a blob each of its words holds. -/
def wordSizes : Nat → List Nat
  | 0 => []
  | count + 4 => 4 :: wordSizes count
  | short => [short]

/--
Two streams that are the same word for word, as far as the bytes of each word that count: as many of
its low bytes as the list of numbers says.
-/
inductive Agree : List Nat → List UInt32 → List UInt32 → Prop where
  | nil : Agree [] [] []
  | cons {size : Nat} {sizes : List Nat} {word other : UInt32} {words others : List UInt32}
      (same : (wordBytes word).take size = (wordBytes other).take size)
      (rest : Agree sizes words others) :
      Agree (size :: sizes) (word :: words) (other :: others)

namespace Agree

variable {sizes moreSizes : List Nat} {words others moreWords moreOthers : List UInt32}

theorem cons_iff {size : Nat} {word other : UInt32} :
    Agree (size :: sizes) (word :: words) (other :: others) ↔
      (wordBytes word).take size = (wordBytes other).take size ∧ Agree sizes words others := by
  constructor
  · intro agree
    cases agree with
    | cons same rest => exact ⟨same, rest⟩
  · intro agree
    exact .cons agree.1 agree.2

/-- A word all of whose bytes count is the same word. -/
theorem full_iff {word other : UInt32} :
    Agree (4 :: sizes) (word :: words) (other :: others) ↔
      word = other ∧ Agree sizes words others := by
  rw [cons_iff, List.take_of_length_le (Nat.le_of_eq (wordBytes_length word)),
    List.take_of_length_le (Nat.le_of_eq (wordBytes_length other)), wordBytes_inj]

theorem refl (long : sizes.length = words.length) : Agree sizes words words := by
  induction sizes generalizing words with
  | nil =>
      have empty : words = [] := List.eq_nil_of_length_eq_zero long.symm
      subst empty
      exact .nil
  | cons size sizes ih =>
      cases words with
      | nil => simp at long
      | cons word words => exact .cons rfl (ih (by simpa using long))

theorem length_eq (agree : Agree sizes words others) : words.length = others.length := by
  induction agree with
  | nil => rfl
  | cons _ _ ih => simp [ih]

theorem append (agree : Agree sizes words others) (more : Agree moreSizes moreWords moreOthers) :
    Agree (sizes ++ moreSizes) (words ++ moreWords) (others ++ moreOthers) := by
  induction agree with
  | nil => exact more
  | cons same _ ih => exact .cons same ih

/-- A stream that agrees with one stream after another can be cut where the first of them ends. -/
theorem of_append {stream : List UInt32} (long : sizes.length = others.length)
    (agree : Agree (sizes ++ moreSizes) stream (others ++ moreOthers)) :
    ∃ first rest, stream = first ++ rest ∧ Agree sizes first others ∧
      Agree moreSizes rest moreOthers := by
  induction sizes generalizing stream others with
  | nil =>
      have empty : others = [] := List.eq_nil_of_length_eq_zero long.symm
      subst empty
      exact ⟨[], stream, rfl, .nil, agree⟩
  | cons size sizes ih =>
      cases others with
      | nil => simp at long
      | cons other others =>
          cases agree with
          | cons same rest =>
              have shorter : sizes.length = others.length := by simpa using long
              obtain ⟨first, last, cut, head, tail⟩ := ih shorter rest
              subst cut
              exact ⟨_ :: first, last, rfl, .cons same head, tail⟩

end Agree

theorem unpackWords_cons (word : UInt32) (words : List UInt32) :
    unpackWords (word :: words) = wordBytes word ++ unpackWords words := by
  rfl

theorem unpackWords_length (words : List UInt32) :
    (unpackWords words).length = 4 * words.length := by
  induction words with
  | nil => rfl
  | cons word words ih =>
      rw [unpackWords_cons, List.length_append, wordBytes_length, ih, List.length_cons]
      omega

/-- The first four bytes that are unpacked are those of the first word. -/
theorem take_unpackWords_cons_iff (word : UInt32) (words : List UInt32) (a b c d : UInt8)
    (rest : List UInt8) :
    (unpackWords (word :: words)).take (rest.length + 4) = a :: b :: c :: d :: rest ↔
      wordBytes word = [a, b, c, d] ∧ (unpackWords words).take rest.length = rest := by
  have first : wordBytes word = (wordBytes word).take (rest.length + 4) := by
    rw [List.take_of_length_le]
    rw [wordBytes_length]
    omega
  have front : (unpackWords (word :: words)).take (rest.length + 4) =
      wordBytes word ++ (unpackWords words).take rest.length := by
    rw [unpackWords_cons, List.take_append, ← first, wordBytes_length, Nat.add_sub_cancel]
  have blob : a :: b :: c :: d :: rest = [a, b, c, d] ++ rest := rfl
  rw [front, blob]
  constructor
  · intro same
    exact List.append_inj same (wordBytes_length word)
  · intro parts
    rw [parts.1, parts.2]

/-- A blob is no bytes, a few of them, or four bytes before another blob. -/
theorem fours_induction {motive : List UInt8 → Prop} (nil : motive [])
    (short : ∀ bytes, 0 < bytes.length → bytes.length < 4 → motive bytes)
    (four : ∀ a b c d rest, motive rest → motive (a :: b :: c :: d :: rest)) :
    ∀ bytes, motive bytes
  | [] => nil
  | [a] => short [a] (by simp) (by simp)
  | [a, b] => short [a, b] (by simp) (by simp)
  | [a, b, c] => short [a, b, c] (by simp) (by simp)
  | a :: b :: c :: d :: rest => four a b c d rest (fours_induction nil short four rest)

/-- Less than four bytes, and at least one, are a word by themselves. -/
theorem pack_short {bytes : List UInt8} (some : 0 < bytes.length) (few : bytes.length < 4) :
    packWords bytes = [.ofNat (littleEndian bytes)] ∧ wordSizes bytes.length = [bytes.length] := by
  match bytes with
  | [] => exact absurd some (by simp)
  | [_] | [_, _] | [_, _, _] => exact ⟨rfl, rfl⟩
  | _ :: _ :: _ :: _ :: _ => exact absurd few (by simp)

theorem wordSizes_length (bytes : List UInt8) :
    (wordSizes bytes.length).length = (packWords bytes).length := by
  induction bytes using fours_induction with
  | nil => rfl
  | short bytes some few =>
      obtain ⟨packed, sizes⟩ := pack_short some few
      rw [packed, sizes]
      rfl
  | four a b c d rest ih => simp [packWords, wordSizes, ih]

/--
The words that hold a blob of a given length: as many as it needs, and with the blob in front when
they are unpacked.
-/
theorem agree_packWords_iff (bytes : List UInt8) (words : List UInt32) :
    Agree (wordSizes bytes.length) words (packWords bytes) ↔
      words.length = (bytes.length + 3) / 4 ∧
        (unpackWords words).take bytes.length = bytes := by
  induction bytes using fours_induction generalizing words with
  | nil =>
      cases words with
      | nil => exact iff_of_true .nil ⟨rfl, rfl⟩
      | cons word words =>
          exact iff_of_false (fun agree => absurd agree.length_eq (by simp [packWords]))
            (fun holds => absurd holds.1 (by simp))
  | short bytes some few =>
      obtain ⟨packed, sizes⟩ := pack_short some few
      have one : (bytes.length + 3) / 4 = 1 := by omega
      rw [packed, sizes, one]
      by_cases alone : words.length = 1
      · obtain ⟨word, single⟩ := List.length_eq_one_iff.mp alone
        subst single
        have back := take_wordBytes_ofNat bytes (Nat.le_of_lt few)
        have unpacked : unpackWords [word] = wordBytes word := by simp [unpackWords, wordBytes]
        rw [Agree.cons_iff, back, unpacked]
        exact ⟨fun agree => ⟨rfl, agree.1⟩, fun holds => ⟨holds.2, .nil⟩⟩
      · exact iff_of_false (fun agree => alone agree.length_eq) (fun holds => alone holds.1)
  | four a b c d rest ih =>
      cases words with
      | nil =>
          exact iff_of_false (fun agree => absurd agree.length_eq (by simp [packWords]))
            (fun holds => absurd holds.2 (by simp [unpackWords]))
      | cons word words =>
          have back : wordBytes (.ofNat (littleEndian [a, b, c, d])) = [a, b, c, d] :=
            take_wordBytes_ofNat [a, b, c, d] (Nat.le_refl 4)
          have more : (rest.length + 4 + 3) / 4 = (rest.length + 3) / 4 + 1 := by omega
          simp only [packWords, wordSizes, List.length_cons]
          rw [Agree.full_iff, ih, ← wordBytes_inj, back, more, take_unpackWords_cons_iff,
            Nat.add_right_cancel_iff]
          exact and_left_comm

end Boxing

end CallCapture
