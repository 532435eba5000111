import CallCapture.Text.Utf8

/-!
Text as bytes and back: feeding the bytes of a text to a step feeds its characters, and no gaps.
-/

namespace CallCapture.Utf8

theorem toList_loop (bytes : ByteArray) (index : Nat) (read : List UInt8) :
    ByteArray.toList.loop bytes index read = read.reverse ++ bytes.data.toList.drop index := by
  fun_induction ByteArray.toList.loop bytes index read with
  | case1 index read within ih =>
      have inside : index < bytes.data.toList.length := within
      have next : bytes.get! index = bytes.data.toList[index] := getElem!_pos bytes.data index within
      rw [ih, List.drop_eq_getElem_cons inside, next, List.reverse_cons, List.append_assoc]
      rfl
  | case2 index read beyond =>
      have none : bytes.data.toList.drop index = [] := by
        apply List.drop_eq_nil_of_le
        exact Nat.le_of_not_lt beyond
      rw [none, List.append_nil]

theorem encode_ofList (text : List Char) :
    encode (String.ofList text) = text.flatMap String.utf8EncodeChar := by
  rw [encode, String.toUTF8_eq_toByteArray, String.toByteArray_ofList, List.utf8Encode,
    ByteArray.toList, toList_loop, List.toList_data_toByteArray]
  rfl

theorem encode_eq (text : String) : encode text = text.toList.flatMap String.utf8EncodeChar := by
  rw [← encode_ofList, String.ofList_toList]

theorem encode_append (first second : String) :
    encode (first ++ second) = encode first ++ encode second := by
  rw [encode_eq, encode_eq, encode_eq, String.toList_append, List.flatMap_append]

/-- A character that is no control character has no byte below the space. -/
theorem visible_bytes {c : Char} (visible : 0x20 ≤ c.toNat) :
    ∀ byte ∈ String.utf8EncodeChar c, 0x20 ≤ byte.toNat := by
  have bound : c.val.toNat < 0x110000 := by
    have valid := c.valid
    simp only [UInt32.isValidChar, Nat.isValidChar] at valid
    omega
  have same : c.toNat = c.val.toNat := rfl
  intro byte among
  simp only [String.utf8EncodeChar] at among
  split at among
  · rw [List.mem_singleton] at among
    rw [among, UInt8.toNat_ofNat']
    omega
  · split at among
    · simp only [List.mem_cons, List.not_mem_nil, or_false] at among
      rcases among with rfl | rfl <;> rw [UInt8.toNat_ofNat'] <;> omega
    · split at among
      · simp only [List.mem_cons, List.not_mem_nil, or_false] at among
        rcases among with rfl | rfl | rfl <;> rw [UInt8.toNat_ofNat'] <;> omega
      · simp only [List.mem_cons, List.not_mem_nil, or_false] at among
        rcases among with rfl | rfl | rfl | rfl <;> rw [UInt8.toNat_ofNat'] <;> omega

/-- The bytes of a character are read as that character, whatever follows. -/
theorem firstChar?_append (c : Char) (rest : List UInt8) :
    firstChar? (String.utf8EncodeChar c ++ rest) = some c := by
  have size : (String.utf8EncodeChar c).length ≤ 4 := by
    rw [String.length_utf8EncodeChar]
    exact c.utf8Size_le_four
  have bytes : ByteArray.mk ((String.utf8EncodeChar c ++ rest).take 4).toArray =
      (String.utf8EncodeChar c).toByteArray
        ++ (rest.take (4 - (String.utf8EncodeChar c).length)).toByteArray := by
    rw [List.take_append, List.take_of_length_le size, ← List.toByteArray_append]
    apply ByteArray.ext
    rw [List.data_toByteArray]
  rw [firstChar?, bytes, ByteArray.utf8DecodeChar?_utf8EncodeChar_append]

variable {State : Type} {step : State → Option Char → Option State}

theorem foldM?_append (state : State) (c : Char) (rest : List UInt8) :
    foldM? step state (String.utf8EncodeChar c ++ rest) =
      (step state (some c)).bind fun next => foldM? step next rest := by
  have first := firstChar?_append c rest
  have size := String.length_utf8EncodeChar c
  cases encoded : String.utf8EncodeChar c with
  | nil => exact absurd encoded String.utf8EncodeChar_ne_nil
  | cons byte others =>
      rw [encoded] at first size
      have dropped : (others ++ rest).drop (c.utf8Size - 1) = rest := by
        rw [← size, List.length_cons, Nat.add_sub_cancel, List.drop_left]
      rw [List.cons_append] at first ⊢
      rw [foldM?, first]
      simp only [dropped]

/-- Feeding the bytes of a text feeds its characters. -/
theorem foldM?_encode (state : State) (text : List Char) :
    foldM? step state (encode (String.ofList text)) =
      (text.map some).foldlM step state := by
  rw [encode_ofList]
  induction text generalizing state with
  | nil => simp [foldM?]
  | cons c rest ih =>
      rw [List.flatMap_cons, foldM?_append, List.map_cons, List.foldlM_cons]
      cases step state (some c) with
      | none => rfl
      | some next => exact ih next

end CallCapture.Utf8
