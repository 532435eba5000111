import CallCapture.Proofs.Boxing.Classified
import CallCapture.Proofs.Signature.Relocation
import CallCapture.Proofs.Signature.Spans

/-!
Generic instantiations of value types, which introspection cannot name. Their encoding is taken from
the signature of the method if a local variable of the module has the same type. Types that the same
bytes encode at different places are not the same if they have a function pointer inside: such an
instantiation is missed although the module has it.
-/

namespace CallCapture

/--
A local variable of the module has its type encoded by the bytes, which stand at a place of the
signature that declares it. Signatures that do not decode declare nothing.
-/
def LoadedModule.Declares (module : LoadedModule) (limit : Nat) (slot : LocalSig) (place : Nat)
    (encoded : List UInt8) : Prop :=
  ∃ blob ∈ module.localSignatures, ∃ locals,
    (Reader.localVariables limit).ofBlob blob = .ok locals ∧ slot ∈ locals ∧
    ∃ front back, blob = front ++ (encoded ++ back) ∧ front.length = place ∧
      Within limit place encoded slot.type

namespace Boxing

variable {limit : Nat} {module : LoadedModule}

theorem instantiates_iff (admits : 1 < limit) {type : TypeSig} :
    instantiates limit module type = true ↔ ∃ slot place encoded,
      module.Declares limit slot place encoded ∧ slot.byRef = false ∧ slot.type = type := by
  simp only [instantiates, List.any_eq_true]
  constructor
  · rintro ⟨blob, among, holds⟩
    cases decoded : (Reader.localVariables limit).ofBlob blob with
    | error error => simp [decoded] at holds
    | ok locals =>
        simp only [decoded, List.any_eq_true, Bool.and_eq_true, Bool.not_eq_true',
          TypeSig.same_iff] at holds
        obtain ⟨slot, declared, byValue, same⟩ := holds
        obtain ⟨front, encoded, back, split, form⟩ :=
          Reader.locals_typed admits decoded slot declared
        rw [Nat.zero_add] at form
        exact ⟨slot, front.length, encoded,
          ⟨blob, among, locals, decoded, declared, front, back, split, rfl, form⟩, byValue, same⟩
  · rintro ⟨slot, place, encoded, ⟨blob, among, locals, decoded, declared, _⟩, byValue, same⟩
    refine ⟨blob, among, ?_⟩
    simp only [decoded, List.any_eq_true, Bool.and_eq_true, Bool.not_eq_true', TypeSig.same_iff]
    exact ⟨slot, declared, byValue, same⟩

theorem ofParameter_instantiation {parameter : ParameterSig} {named : Token}
    {arguments : List TypeSig} (byValue : parameter.byRef = false)
    (shape : parameter.type = .instantiation (.named .valueType named) arguments)
    (limit : Nat) (module : LoadedModule) (blob : List UInt8) :
    ofParameter limit module blob parameter =
      if instantiates limit module parameter.type then .blob (parameter.span.slice blob)
      else .unsupported := by
  obtain ⟨modifiers, byRef, type, span⟩ := parameter
  obtain rfl := byValue
  obtain rfl := shape
  rfl

/--
An instantiation of a value type is given the bytes that encode it exactly if a local variable of
the module, not by reference, has the same type; else it is not captured. A local variable encoded by
the very same bytes has the same type exactly if the bytes stand at the same place in both
signatures or no function pointer is in the type.
-/
theorem classify_instantiation_iff {method : Method} {index : Nat} {declared : Parameter}
    {signature : MethodSig} {parameter : ParameterSig} {named : Token} {arguments : List TypeSig}
    (listed : method.parameters[index]? = some declared)
    (undecided : ofType? module declared.type = none)
    (decoded : (Reader.method limit).ofBlob method.signature = .ok signature)
    (counted : signature.parameters.length = method.parameters.length)
    (found : signature.parameters[index]? = some parameter)
    (byValue : parameter.byRef = false)
    (shape : parameter.type = .instantiation (.named .valueType named) arguments) :
    let encoded := parameter.span.slice method.signature
    let instruction :=
      (classify limit module method)[(if method.hasThis then 1 else 0) + index]?
    (instruction = some (.blob encoded) ↔ ∃ slot place bytes,
        module.Declares limit slot place bytes ∧ slot.byRef = false ∧
          slot.type = parameter.type) ∧
      (instruction = some (.blob encoded) ∨ instruction = some .unsupported) ∧
      ∀ slot place, module.Declares limit slot place encoded →
        (slot.type = parameter.type ↔
          place = parameter.span.start ∨ parameter.type.hasFunctionPointer = false) := by
  intro encoded instruction
  have among : parameter ∈ signature.parameters := List.mem_of_getElem? found
  have within : Within limit parameter.span.start encoded parameter.type :=
    Reader.spans_cover decoded parameter
      (List.mem_cons_of_mem _ (List.mem_append_left _ among))
  have admits : 1 < limit := Nat.lt_of_le_of_lt parameter.type.nesting_pos within.2
  have decided : instruction = some (if instantiates limit module parameter.type
      then .blob encoded else .unsupported) := by
    rw [← ofParameter_instantiation byValue shape]
    exact classify_undecided listed undecided decoded counted found
  refine ⟨?_, ?_, ?_⟩
  · rw [decided, ← instantiates_iff admits]
    simp
  · rw [decided]
    split
    · exact .inl rfl
    · exact .inr rfl
  · rintro slot place ⟨_, _, _, _, _, _, _, _, _, form⟩
    exact form.eq_iff_of_same_bytes within

/-! A value type applied to an array of function pointers. -/

def pointersEncoding : List UInt8 := [0x15, 0x11, 0x05, 0x01, 0x1D, 0x1B, 0x00, 0x00, 0x01]

/-- What the encoding is decoded to where it stands. -/
def pointersType (start : Nat) : TypeSig :=
  .instantiation (.named .valueType ⟨0x01000001⟩) [.wrapped .szArray (.functionPointer
    ⟨.ofHeader 0, 0, ⟨[], false, .leaf .void, ⟨start + 8, start + 9⟩⟩, [], []⟩)]

theorem pointers_within (start : Nat) : Within 50 start pointersEncoding (pointersType start) := by
  rw [← (Reader.typeWithin_exact 50 50).whole_iff]
  rfl

def pointersParameter : Parameter :=
  ⟨"p", ⟨"Holder", "App", .valueType, none, none,
    [.around (.ofKind "" "" .functionPointer) .szArray], none⟩, .byValue⟩

def pointersMethod : Method :=
  ⟨⟨0x06000001⟩, "Bar", none, false, [], [pointersParameter],
    [0x00, 0x01, 0x01] ++ pointersEncoding⟩

def moduleWith (localSignatures : List (List UInt8)) : LoadedModule :=
  ⟨1, "App.dll", false, false, [], localSignatures, [pointersMethod]⟩

theorem pointersMethod_decoded : (Reader.method 50).ofBlob pointersMethod.signature =
    .ok ⟨.ofHeader 0, 0, ⟨[], false, .leaf .void, ⟨2, 3⟩⟩,
      [⟨[], false, pointersType 3, ⟨3, 12⟩⟩], []⟩ := rfl

/-- After the mark of a pinned local the bytes stand where those of the parameter do. -/
theorem classify_instantiation_iff_pinned :
    let module := moduleWith [[0x07, 0x01, 0x15], [0x07, 0x01, 0x45] ++ pointersEncoding]
    pointersMethod.parameters[0]? = some pointersParameter ∧
      ofType? module pointersParameter.type = none ∧
      (∃ signature parameter named arguments,
        (Reader.method 50).ofBlob pointersMethod.signature = .ok signature ∧
        signature.parameters.length = pointersMethod.parameters.length ∧
        signature.parameters[0]? = some parameter ∧ parameter.byRef = false ∧
        parameter.type = .instantiation (.named .valueType named) arguments) ∧
      (classify 50 module pointersMethod)[0]? = some (.blob pointersEncoding) := by
  intro module
  have undecided : ofType? module pointersParameter.type = none := by decide +kernel
  have declares : module.Declares 50 ⟨[], false, true, pointersType 3⟩ 3 pointersEncoding :=
    ⟨_, by simp [module, moduleWith], _, rfl, List.mem_singleton.mpr rfl, [0x07, 0x01, 0x45], [],
      rfl, rfl, pointers_within 3⟩
  obtain ⟨exactly, _, _⟩ := @classify_instantiation_iff 50 module pointersMethod 0 _ _ _ _ _ rfl
    undecided pointersMethod_decoded rfl rfl rfl rfl
  exact ⟨rfl, undecided, ⟨_, _, _, _, pointersMethod_decoded, rfl, rfl, rfl, rfl⟩,
    exactly.mpr ⟨_, _, _, declares, rfl, rfl⟩⟩

/-- Not every instantiation that a local variable of the module has is found. -/
theorem instantiation_missed :
    ¬ ∀ (limit : Nat) (module : LoadedModule) (method : Method) (index : Nat)
      (declared : Parameter) (signature : MethodSig) (parameter : ParameterSig) (named : Token)
      (arguments : List TypeSig) (slot : LocalSig) (place : Nat),
      method.parameters[index]? = some declared → ofType? module declared.type = none →
      (Reader.method limit).ofBlob method.signature = .ok signature →
      signature.parameters.length = method.parameters.length →
      signature.parameters[index]? = some parameter → parameter.byRef = false →
      parameter.type = .instantiation (.named .valueType named) arguments →
      module.Declares limit slot place (parameter.span.slice method.signature) →
      slot.byRef = false →
      (classify limit module method)[(if method.hasThis then 1 else 0) + index]? =
        some (.blob (parameter.span.slice method.signature)) := by
  intro always
  let module := moduleWith [[0x07, 0x01] ++ pointersEncoding]
  have undecided : ofType? module pointersParameter.type = none := by decide +kernel
  have declares : module.Declares 50 ⟨[], false, false, pointersType 2⟩ 2 pointersEncoding :=
    ⟨_, List.mem_singleton.mpr rfl, _, rfl, List.mem_singleton.mpr rfl, [0x07, 0x01], [], rfl, rfl,
      pointers_within 2⟩
  have found := always 50 module pointersMethod 0 _ _ _ _ _ _ _ rfl undecided
    pointersMethod_decoded rfl rfl rfl rfl declares rfl
  have missed : classify 50 module pointersMethod = [.unsupported] := by decide +kernel
  rw [missed] at found
  cases found

end Boxing

end CallCapture
