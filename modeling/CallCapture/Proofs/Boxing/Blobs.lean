import CallCapture.Proofs.Boxing.Instantiation
import CallCapture.Proofs.Boxing.Isolation

/-!
Where the blobs among the instructions of a method come from. The native side decodes a blob on its
own, so it has to be all of an encoded type and nothing else, and the module has to have that type.
-/

namespace CallCapture

namespace Boxing

variable {limit : Nat} {module : LoadedModule} {method : Method} {encoded : List UInt8}

theorem ofReceiver_ne_blob (declaringType : Option RuntimeType) :
    ofReceiver declaringType ≠ .blob encoded := by
  unfold ofReceiver
  split <;> nofun

theorem decodedParameters?_eq_some {parameters : List ParameterSig}
    (decoded : decodedParameters? limit method = some parameters) :
    ∃ signature, (Reader.method limit).ofBlob method.signature = .ok signature ∧
      signature.parameters = parameters := by
  unfold decodedParameters? at decoded
  split at decoded
  · rename_i signature read
    split at decoded
    · exact ⟨signature, read, Option.some.inj decoded⟩
    · contradiction
  · contradiction

/-- A blob is what the signature decides where introspection decides nothing. -/
theorem ofDeclared_eq_blob {decoded : Option (List ParameterSig)} {declared : Parameter}
    {index : Nat} (given : ofDeclared limit module method decoded declared index = .blob encoded) :
    Undecided module declared.type ∧ ∃ parameters parameter, decoded = some parameters ∧
      parameters[index]? = some parameter ∧
      ofParameter limit module method.signature parameter = .blob encoded := by
  unfold ofDeclared at given
  cases introspected : ofType? module declared.type with
  | some instruction =>
      simp only [introspected] at given
      rw [given] at introspected
      exact absurd introspected (ofType?_ne_blob module declared.type encoded)
  | none =>
      refine ⟨ofType?_eq_none_iff.mp introspected, ?_⟩
      simp only [introspected] at given
      cases decoded with
      | none => simp at given
      | some parameters =>
          rw [Option.bind_some] at given
          cases found : parameters[index]? with
          | none => simp [found] at given
          | some parameter =>
              rw [found] at given
              exact ⟨parameters, parameter, rfl, found, given⟩

/-- A blob stands at a declared parameter, and was cut out for the decoded one of the same index. -/
theorem classify_eq_blob {position : Nat}
    (given : (classify limit module method)[position]? = some (.blob encoded)) :
    ∃ index declared signature parameter, position = (if method.hasThis then 1 else 0) + index ∧
      method.parameters[index]? = some declared ∧ Undecided module declared.type ∧
      (Reader.method limit).ofBlob method.signature = .ok signature ∧
      signature.parameters[index]? = some parameter ∧
      ofParameter limit module method.signature parameter = .blob encoded := by
  rw [classify_at] at given
  by_cases receiver : position < if method.hasThis then 1 else 0
  · rw [if_pos receiver] at given
    exact absurd (Option.some.inj given) (ofReceiver_ne_blob method.declaringType)
  · rw [if_neg receiver] at given
    obtain ⟨declared, listed, made⟩ := Option.map_eq_some_iff.mp given
    obtain ⟨undecided, parameters, parameter, decoded, found, cut⟩ := ofDeclared_eq_blob made
    obtain ⟨signature, read, same⟩ := decodedParameters?_eq_some decoded
    rw [← same] at found
    exact ⟨_, declared, signature, parameter, by omega, listed, undecided, read, found, cut⟩

theorem ofParameter_eq_blob {blob : List UInt8} {parameter : ParameterSig}
    (cut : ofParameter limit module blob parameter = .blob encoded) :
    encoded = parameter.span.slice blob ∧ parameter.byRef = false ∧
      (∃ named arguments, parameter.type = .instantiation (.named .valueType named) arguments) ∧
      instantiates limit module parameter.type = true := by
  obtain ⟨_, given, _⟩ | ⟨named, arguments, given, byValue, shape, found⟩ | ⟨given, _⟩ :=
    ofParameter_cases limit module blob parameter
  · cases given.symm.trans cut
  · cases given.symm.trans cut
    exact ⟨rfl, byValue, ⟨named, arguments, shape⟩, found⟩
  · cases given.symm.trans cut

/--
A blob among the instructions of a method stands at a parameter that is declared as a value type or
an enumeration. It is the part of the method's signature that encodes the type of this parameter:
decoded alone it is used up and gives an instantiation of a value type. This is the parameter's type,
and that of a local variable of the module, not by reference, but for the spans in function pointers,
which count from the start of what is decoded.
-/
theorem classify_blob_sound {position : Nat}
    (given : (classify limit module method)[position]? = some (.blob encoded)) :
    ∃ index declared signature parameter front back named arguments,
      let type : TypeSig := .instantiation (.named .valueType named) arguments
      position = (if method.hasThis then 1 else 0) + index ∧
      method.parameters[index]? = some declared ∧
      (declared.type.kind = .valueType ∨ declared.type.kind = .enum) ∧
      method.signature = front ++ (encoded ++ back) ∧
      Reader.type limit (.ofBytes encoded) = .ok type ⟨encoded.length, []⟩ ∧
      (Reader.method limit).ofBlob method.signature = .ok signature ∧
      signature.parameters[index]? = some parameter ∧ parameter.byRef = false ∧
      parameter.type = type.moved front.length ∧
      ∃ slot place bytes, module.Declares limit slot place bytes ∧ slot.byRef = false ∧
        slot.type = type.moved front.length := by
  obtain ⟨index, declared, signature, parameter, reached, listed, undecided, read, found, cut⟩ :=
    classify_eq_blob given
  obtain ⟨rfl, byValue, ⟨named, arguments, shape⟩, instantiated⟩ := ofParameter_eq_blob cut
  have among : parameter ∈ signature.returnType :: (signature.parameters ++ signature.varargs) :=
    List.mem_cons_of_mem _ (List.mem_append_left _ (List.mem_of_getElem? found))
  have spanned := Reader.parameters_spanned read parameter among
  obtain ⟨front, back, split, start⟩ := spanned.split
  have within := spanned.slice
  obtain ⟨alone, form, moved⟩ := within.alone
  rw [start] at moved
  -- The blob is decoded at the start of nothing but itself, so its spans count from there.
  have decoded := (Reader.typeWithin_exact limit limit).whole_iff.mpr form
  rw [Nat.zero_add] at decoded
  obtain ⟨others, same⟩ : ∃ others, alone = .instantiation (.named .valueType named) others :=
    TypeSig.moved_eq_instantiation (moved.symm.trans shape)
  have admits : 1 < limit := Nat.lt_of_le_of_lt parameter.type.nesting_pos within.2
  obtain ⟨slot, place, bytes, declares, slotByValue, slotType⟩ :=
    (instantiates_iff admits).mp instantiated
  refine ⟨index, declared, signature, parameter, front, back, named, others, reached, listed,
    undecided.1, split, ?_, read, found, byValue, ?_, slot, place, bytes, declares, slotByValue, ?_⟩
  · exact same ▸ decoded
  · exact same ▸ moved
  · exact same ▸ slotType.trans moved

/-- A blob with a function pointer inside: alone its spans count from 0, in the signatures from 3. -/
theorem classify_blob_sound_pinned :
    let module := moduleWith [[0x07, 0x01, 0x45] ++ pointersEncoding]
    (classify 50 module pointersMethod)[0]? = some (.blob pointersEncoding) ∧
      pointersParameter.type.kind = .valueType ∧
      Reader.type 50 (.ofBytes pointersEncoding) = .ok (pointersType 0) ⟨9, []⟩ ∧
      ∃ front back slot place bytes,
        pointersMethod.signature = front ++ (pointersEncoding ++ back) ∧
        module.Declares 50 slot place bytes ∧ slot.byRef = false ∧
        slot.type = (pointersType 0).moved front.length := by
  intro module
  have given : (classify 50 module pointersMethod)[0]? = some (.blob pointersEncoding) := by
    decide +kernel
  have alone : Reader.type 50 (.ofBytes pointersEncoding) = .ok (pointersType 0) ⟨9, []⟩ := rfl
  obtain ⟨_, _, _, _, front, back, _, _, _, _, _, split, decoded, _, _, _, _, slot, place, bytes,
    declares, byValue, same⟩ := classify_blob_sound given
  rw [alone] at decoded
  cases decoded
  exact ⟨given, rfl, alone, front, back, slot, place, bytes, split, declares, byValue, same⟩

end Boxing

end CallCapture
