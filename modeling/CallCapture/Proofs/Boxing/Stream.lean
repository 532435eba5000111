import CallCapture.Proofs.Boxing.Packing

/-!
The stream of boxing instructions. A list of them can be told from the stream it is written to, if
its tokens name types and its blobs are short enough for their lengths to fit in a word; and a
stream that can be decoded is the one its instructions are written to, the filling of the last word
of each blob apart.
-/

namespace CallCapture

namespace Token

/-- No token of a type looks like a code with a meaning of its own. -/
theorem toNat_of_isType {named : Token} (type : named.isType) :
    0x1000000 < named.value.toNat ∧ named.value.toNat < 0x1C000000 := by
  simp only [isType, row, table, List.contains_cons, List.contains_nil, Bool.and_eq_true,
    bne_iff_ne, Bool.or_eq_true, beq_iff_eq, Bool.or_false] at type
  omega

end Token

namespace Primitive

theorem code_of_ofCode? {code : UInt32} {scalar : Primitive} (found : ofCode? code = some scalar) :
    scalar.code = code := by
  simpa using List.find?_some found

end Primitive

namespace Boxing

/-- What a stream can carry: tokens of types, and blobs whose length fits in a word. -/
def Streamable : Boxing → Prop
  | .token named => named.isType
  | .blob bytes => bytes.length < 0x100000000
  | _ => True

instance (instruction : Boxing) : Decidable instruction.Streamable := by
  cases instruction <;> unfold Streamable <;> infer_instance

/-- How many bytes of each word of an instruction's encoding count. -/
def sizes : Boxing → List Nat
  | .blob bytes => 4 :: 4 :: wordSizes bytes.length
  | _ => [4]

/-- All instructions but blobs are one word, all of which counts. -/
theorem blob_or_word (instruction : Boxing) :
    (∃ bytes, instruction = .blob bytes) ∨
      ∃ code, instruction.encode = [code] ∧ instruction.sizes = [4] := by
  cases instruction with
  | blob bytes => exact .inl ⟨bytes, rfl⟩
  | _ => exact .inr ⟨_, rfl, rfl⟩

theorem sizes_length (instruction : Boxing) :
    instruction.sizes.length = instruction.encode.length := by
  cases instruction with
  | blob bytes => simp [sizes, encode, wordSizes_length]
  | _ => rfl

theorem ofCode_token {named : Token} (type : named.isType) :
    ofCode named.value = .ok (.token named) := by
  have bounds := Token.toNat_of_isType type
  have notUnsupported : named.value ≠ unsupportedCode := by
    intro same
    rw [same] at bounds
    exact absurd bounds.2 (by decide)
  have notNull : named.value ≠ passThroughCode := by
    intro same
    rw [same] at bounds
    exact absurd bounds.1 (by decide)
  simp only [ofCode, notUnsupported, notNull, if_false]
  exact if_pos type

/-- The words that stand for an instruction by themselves. -/
theorem ofCode_eq_ok_iff (code : UInt32) (instruction : Boxing) :
    ofCode code = .ok instruction ↔
      instruction.Streamable ∧ instruction.encode = [code] := by
  constructor
  · intro decoded
    unfold ofCode at decoded
    split at decoded
    · cases decoded
      subst code
      exact ⟨trivial, rfl⟩
    · split at decoded
      · cases decoded
        subst code
        exact ⟨trivial, rfl⟩
      · split at decoded
        · rename_i type
          cases decoded
          exact ⟨type, rfl⟩
        · split at decoded
          · rename_i scalar found
            cases decoded
            exact ⟨trivial, congrArg ([·]) (Primitive.code_of_ofCode? found)⟩
          · cases decoded
  · intro word
    obtain ⟨streamable, encoded⟩ := word
    cases instruction with
    | unsupported => cases encoded; rfl
    | passThrough => cases encoded; rfl
    | primitive scalar => cases encoded; cases scalar <;> rfl
    | token named => cases encoded; exact ofCode_token streamable
    | blob bytes => cases encoded

/-- The words from which the decoder takes one instruction. -/
inductive Front : Boxing → List UInt32 → Prop where
  | word {code : UInt32} {instruction : Boxing} (decoded : ofCode code = .ok instruction) :
      Front instruction [code]
  | blob {announced : UInt32} {packed : List UInt32}
      (long : packed.length = (announced.toNat + 3) / 4) :
      Front (.blob ((unpackWords packed).take announced.toNat)) (blobCode :: announced :: packed)

theorem Front.carried {instruction : Boxing} {first : List UInt32} (front : Front instruction first) :
    instruction.Streamable ∧ Agree instruction.sizes first instruction.encode := by
  cases front with
  | @word code _ decoded =>
      obtain ⟨streamable, encoded⟩ := (ofCode_eq_ok_iff code instruction).mp decoded
      refine ⟨streamable, ?_⟩
      rw [← encoded]
      exact .refl (sizes_length instruction)
  | @blob announced packed long =>
      have all : ((unpackWords packed).take announced.toNat).length = announced.toNat := by
        rw [List.length_take, unpackWords_length]
        omega
      refine ⟨?_, ?_⟩
      · exact Nat.lt_of_le_of_lt (Nat.le_of_eq all) announced.toNat_lt
      · rw [sizes, encode, Agree.full_iff, Agree.full_iff, agree_packWords_iff, all,
          UInt32.ofNat_toNat]
        exact ⟨rfl, rfl, long, rfl⟩

/-- A blob stands behind its code and its length, so it has two words at least. -/
theorem front_blob {bytes : List UInt8} {first : List UInt32}
    (short : bytes.length < 0x100000000)
    (agree : Agree (sizes (.blob bytes)) first (encode (.blob bytes))) :
    Front (.blob bytes) first := by
  match first with
  | [] => cases agree
  | [_] => cases agree with | cons _ rest => cases rest
  | code :: announced :: packed =>
      have number : (UInt32.ofNat bytes.length).toNat = bytes.length :=
        UInt32.toNat_ofNat_of_lt' short
      rw [sizes, encode, Agree.full_iff, Agree.full_iff, agree_packWords_iff] at agree
      obtain ⟨marked, counted, long, unpacked⟩ := agree
      subst marked counted
      rw [← number] at long
      have front : Front _ (blobCode :: .ofNat bytes.length :: packed) := .blob long
      rwa [number, unpacked] at front

/-- The decoder takes an instruction from the words it is written to, and from no others. -/
theorem front_iff (instruction : Boxing) (first : List UInt32) :
    Front instruction first ↔
      instruction.Streamable ∧ Agree instruction.sizes first instruction.encode := by
  constructor
  · exact Front.carried
  · intro carried
    obtain ⟨streamable, agree⟩ := carried
    rcases blob_or_word instruction with ⟨bytes, blob⟩ | ⟨code, encoded, size⟩
    · subst blob
      exact front_blob streamable agree
    · rw [encoded, size] at agree
      cases first with
      | nil => cases agree
      | cons word words =>
          obtain ⟨same, rest⟩ := Agree.full_iff.mp agree
          cases rest
          subst same
          exact .word ((ofCode_eq_ok_iff word instruction).mpr ⟨streamable, encoded⟩)

theorem decodeAll_append {instruction : Boxing} {first : List UInt32}
    (front : Front instruction first) (rest : List UInt32) :
    decodeAll (first ++ rest) = (decodeAll rest).map (instruction :: ·) := by
  cases front with
  | @word code _ decoded =>
      have notBlob : code ≠ blobCode := by
        intro same
        rw [same] at decoded
        cases decoded
      rw [List.singleton_append, decodeAll.eq_def]
      simp only [notBlob, decoded, if_false]
  | @blob announced packed long =>
      have enough : ¬ (packed ++ rest).length < packed.length := by simp
      simp only [List.cons_append, decodeAll, if_true, ← long, if_neg enough, List.take_left,
        List.drop_left]

/-- A stream that can be decoded has words of an instruction in front, unless it is empty. -/
theorem exists_front {code : UInt32} {words : List UInt32} {instructions : List Boxing}
    (decoded : decodeAll (code :: words) = .ok instructions) :
    ∃ instruction first rest, Front instruction first ∧ code :: words = first ++ rest := by
  rw [decodeAll.eq_def] at decoded
  simp only at decoded
  split at decoded
  · rename_i blob
    subst blob
    split at decoded
    · cases decoded
    · rename_i announced packed
      split at decoded
      · cases decoded
      · rename_i enough
        have long : (packed.take ((announced.toNat + 3) / 4)).length =
            (announced.toNat + 3) / 4 := by
          rw [List.length_take]
          omega
        refine ⟨_, _, packed.drop ((announced.toNat + 3) / 4), .blob long, ?_⟩
        rw [List.cons_append, List.cons_append, List.take_append_drop]
  · split at decoded
    · cases decoded
    · rename_i instruction word
      exact ⟨instruction, [code], words, .word word, rfl⟩

/-- What is in front of the stream comes first in the list. -/
theorem exists_cons_of_decodeAll {code : UInt32} {words : List UInt32} {instructions : List Boxing}
    (decoded : decodeAll (code :: words) = .ok instructions) :
    ∃ instruction others first rest, instructions = instruction :: others ∧
      code :: words = first ++ rest ∧ Front instruction first ∧ decodeAll rest = .ok others := by
  obtain ⟨instruction, first, rest, front, cut⟩ := exists_front decoded
  rw [cut, decodeAll_append front] at decoded
  cases after : decodeAll rest with
  | error _ => rw [after] at decoded; cases decoded
  | ok others =>
      rw [after] at decoded
      cases decoded
      exact ⟨instruction, others, first, rest, rfl, cut, front, after⟩

/-- An instruction is decoded from the front of a stream, and the others from what comes after. -/
theorem decodeAll_eq_ok_cons_iff (words : List UInt32) (instruction : Boxing)
    (instructions : List Boxing) :
    decodeAll words = .ok (instruction :: instructions) ↔
      ∃ first rest, words = first ++ rest ∧ Front instruction first ∧
        decodeAll rest = .ok instructions := by
  constructor
  · intro decoded
    cases words with
    | nil => rw [decodeAll] at decoded; cases decoded
    | cons code words =>
        obtain ⟨_, _, first, rest, same, cut, front, others⟩ := exists_cons_of_decodeAll decoded
        cases same
        exact ⟨first, rest, cut, front, others⟩
  · intro parts
    obtain ⟨first, rest, cut, front, others⟩ := parts
    rw [cut, decodeAll_append front, others]
    rfl

/-- A stream is decoded to no instructions only if it is empty. -/
theorem decodeAll_eq_ok_nil_iff (words : List UInt32) : decodeAll words = .ok [] ↔ words = [] := by
  constructor
  · intro decoded
    cases words with
    | nil => rfl
    | cons code words =>
        obtain ⟨_, _, _, _, same, _⟩ := exists_cons_of_decodeAll decoded
        cases same
  · intro empty
    rw [empty, decodeAll]

/-- How many bytes of each word of a stream count. -/
def sizesAll (instructions : List Boxing) : List Nat :=
  instructions.flatMap sizes

theorem sizesAll_length (instructions : List Boxing) :
    (sizesAll instructions).length = (encodeAll instructions).length := by
  induction instructions with
  | nil => rfl
  | cons instruction instructions ih =>
      simp only [sizesAll, encodeAll, List.flatMap_cons, List.length_append] at ih ⊢
      rw [sizes_length, ih]

/--
The streams that are decoded to a list of instructions: if a stream can carry these, the stream they
are written to and those that differ from it only in bytes that do not count.
-/
theorem decodeAll_eq_ok_iff (words : List UInt32) (instructions : List Boxing) :
    decodeAll words = .ok instructions ↔
      (∀ instruction ∈ instructions, instruction.Streamable) ∧
        Agree (sizesAll instructions) words (encodeAll instructions) := by
  induction instructions generalizing words with
  | nil =>
      rw [decodeAll_eq_ok_nil_iff]
      constructor
      · intro empty
        subst empty
        exact ⟨by simp, .nil⟩
      · intro carried
        obtain ⟨_, agree⟩ := carried
        cases agree
        rfl
  | cons instruction instructions ih =>
      rw [decodeAll_eq_ok_cons_iff, List.forall_mem_cons]
      simp only [sizesAll, encodeAll, List.flatMap_cons, front_iff, ih]
      constructor
      · intro parts
        obtain ⟨first, rest, cut, ⟨streamable, front⟩, others, back⟩ := parts
        rw [cut]
        exact ⟨⟨streamable, others⟩, front.append back⟩
      · intro carried
        obtain ⟨⟨streamable, others⟩, agree⟩ := carried
        obtain ⟨first, rest, cut, front, back⟩ := agree.of_append (sizes_length instruction)
        exact ⟨first, rest, cut, ⟨streamable, front⟩, others, back⟩

/-- The stream of a list is decoded to this list just if a stream can carry it. -/
theorem decodeAll_encodeAll_iff (instructions : List Boxing) :
    decodeAll (encodeAll instructions) = .ok instructions ↔
      ∀ instruction ∈ instructions, instruction.Streamable := by
  rw [decodeAll_eq_ok_iff]
  exact and_iff_left (.refl (sizesAll_length instructions))

/--
A list that a stream can carry is decoded from the stream it is written to. A stream is decoded to a
list just if the list can be carried and the stream is as long as the one it is written to, and the
same word for word up to the bytes that fill up the last word of a blob.
-/
theorem stream_round_trip :
    (∀ instructions : List Boxing, (∀ instruction ∈ instructions, instruction.Streamable) →
      decodeAll (encodeAll instructions) = .ok instructions) ∧
    ∀ (words : List UInt32) (instructions : List Boxing),
      decodeAll words = .ok instructions ↔
        (∀ instruction ∈ instructions, instruction.Streamable) ∧
        words.length = (encodeAll instructions).length ∧
        Agree (sizesAll instructions) words (encodeAll instructions) := by
  refine ⟨?_, ?_⟩
  · intro instructions streamable
    exact (decodeAll_encodeAll_iff instructions).mpr streamable
  · intro words instructions
    rw [decodeAll_eq_ok_iff]
    constructor
    · intro carried
      obtain ⟨streamable, agree⟩ := carried
      exact ⟨streamable, agree.length_eq, agree⟩
    · intro carried
      obtain ⟨streamable, _, agree⟩ := carried
      exact ⟨streamable, agree⟩

/-- One instruction of every kind, and a blob whose second word is filled up with other bytes. -/
theorem stream_round_trip_every_kind :
    decodeAll (encodeAll [.primitive .int32, .unsupported, .token ⟨0x02000003⟩,
      .blob [0x15, 0x11, 0x35, 0x01, 0x08], .passThrough]) =
        .ok [.primitive .int32, .unsupported, .token ⟨0x02000003⟩,
          .blob [0x15, 0x11, 0x35, 0x01, 0x08], .passThrough] ∧
    decodeAll [7, 0xFFFFFFFF, 0x02000003, 0xFFFFFFFE, 5, 0x01351115, 0xFFFFFF08, 0] =
        .ok [.primitive .int32, .unsupported, .token ⟨0x02000003⟩,
          .blob [0x15, 0x11, 0x35, 0x01, 0x08], .passThrough] := by
  refine ⟨stream_round_trip.1 _ (by decide), (stream_round_trip.2 _ _).mpr ⟨by decide, rfl, ?_⟩⟩
  exact .cons rfl (.cons rfl (.cons rfl (.cons rfl (.cons rfl (.cons rfl (.cons rfl
    (.cons rfl .nil)))))))

end Boxing

end CallCapture
