import CallCapture.Proofs.Boxing.Isolation
import CallCapture.Proofs.Signature.Spans

/-!
What introspection leaves undecided falls back on the signature: the shape of a parameter decides
there. Custom modifiers at the front are passed over, so a parameter is captured by the shape that
comes after them although its own is that of a modified type.
-/

namespace CallCapture

/-- The bytes encode the parameter where they stand in the blob, all before its type included. -/
def ParameterSig.WrittenIn (limit : Nat) (blob : List UInt8) (parameter : ParameterSig)
    (bytes : List UInt8) : Prop :=
  ∃ front back, blob = front ++ (bytes ++ back) ∧
    ParameterForm (Within limit) front.length bytes parameter

/-- The bytes are the code of a value type and the token that names it. -/
def NamesValueType (bytes : List UInt8) (named : Token) : Prop :=
  ∃ rest, bytes = (Element.named .valueType).code :: rest ∧ TokenForm rest named

/-- The bytes begin with an instantiation of a value type. -/
def AppliesValueType (bytes : List UInt8) : Prop :=
  ∃ rest, bytes = Element.instantiation.code :: (Element.named .valueType).code :: rest

variable {limit start : Nat} {bytes : List UInt8} {type : TypeSig}

theorem TokenForm.unique {left right : Token} (first : TokenForm bytes left)
    (second : TokenForm bytes right) : left = right :=
  @Reader.Exact.unique _ _ _ Reader.token_exact 0 _ _ _ first second

theorem TypeForm.namesValueType_iff (form : TypeForm start bytes type) {named : Token} :
    NamesValueType bytes named ↔ type = .named .valueType named := by
  cases form with
  | intro element contents =>
      constructor
      · intro names
        obtain ⟨rest, split, tokenForm⟩ := names
        obtain ⟨code, rfl⟩ := List.cons.inj split
        obtain rfl := Element.code_inj.mp code
        cases contents with
        | named _ _ form => rw [form.unique tokenForm]
      · intro same
        subst same
        cases contents with
        | named _ _ form => exact ⟨_, rfl, form⟩

theorem TypeForm.appliesValueType_iff (form : TypeForm start bytes type) :
    AppliesValueType bytes ↔
      ∃ named arguments, type = .instantiation (.named .valueType named) arguments := by
  cases form with
  | intro element contents =>
      constructor
      · intro applies
        obtain ⟨rest, split⟩ := applies
        obtain ⟨code, after⟩ := List.cons.inj split
        obtain rfl := Element.code_inj.mp code
        cases contents with
        | instantiation generic _ _ =>
            cases generic with
            | intro _ contents =>
                cases contents with
                | named =>
                    cases Element.code_inj.mp (List.cons.inj after).1
                    exact ⟨_, _, rfl⟩
      · intro same
        obtain ⟨named, arguments, rfl⟩ := same
        cases contents with
        | instantiation generic _ _ =>
            cases generic with
            | intro _ contents =>
              cases contents with
              | named => exact ⟨_, rfl⟩

theorem NamesValueType.noModifier {named : Token} (names : NamesValueType bytes named) :
    NoModifier bytes := by
  obtain ⟨rest, rfl, _⟩ := names
  intro required announced
  cases announces_cons.mp announced

theorem AppliesValueType.noModifier (applies : AppliesValueType bytes) : NoModifier bytes := by
  obtain ⟨rest, rfl⟩ := applies
  intro required announced
  cases announces_cons.mp announced

theorem ModifierRun.eq_nil {run rest : List UInt8} {modifiers : List Modifier}
    (found : ModifierRun run modifiers) (none : NoModifier (run ++ rest)) : run = [] := by
  cases found with
  | nil => rfl
  | cons required => exact absurd rfl (none required)

namespace Boxing

variable {module : LoadedModule} {method : Method} {instruction : Boxing}

/-- The instruction is the one for the shape of a parameter that is encoded by just the bytes. -/
structure FollowsShape (instruction : Boxing) (bytes : List UInt8) : Prop where
  named : ∀ named, instruction = .token named ↔ NamesValueType bytes named ∧ named.isType
  applied : ∀ encoded, instruction = .blob encoded → AppliesValueType bytes
  other : (∀ named, ¬ (NamesValueType bytes named ∧ named.isType)) → ¬ AppliesValueType bytes →
    instruction = .unsupported

theorem FollowsShape.unsupported
    (unnamed : ∀ named, ¬ (NamesValueType bytes named ∧ named.isType)) :
    FollowsShape .unsupported bytes where
  named := fun named => iff_of_false nofun (unnamed named)
  applied := nofun
  other := fun _ _ => rfl

theorem FollowsShape.ofParameter {parameter : ParameterSig}
    (form : TypeForm start bytes parameter.type) (byValue : parameter.byRef = false)
    (limit : Nat) (module : LoadedModule) (blob : List UInt8) :
    FollowsShape (ofParameter limit module blob parameter) bytes := by
  rcases ofParameter_cases limit module blob parameter with
    ⟨named, given, _, shape, isType⟩ | ⟨named, arguments, given, _, shape, _⟩ |
      ⟨given, unnamed⟩
  · rw [given]
    refine ⟨?_, nofun, fun unnamed _ => ?_⟩
    · intro other
      rw [form.namesValueType_iff, shape]
      constructor
      · intro same
        cases same
        exact ⟨rfl, isType⟩
      · intro same
        cases same.1
        rfl
    · exact absurd ⟨form.namesValueType_iff.mpr shape, isType⟩ (unnamed named)
  · rw [given]
    have applies := form.appliesValueType_iff.mpr ⟨named, arguments, shape⟩
    refine ⟨?_, fun _ _ => applies, fun _ other => absurd applies other⟩
    intro other
    rw [form.namesValueType_iff, shape]
    exact iff_of_false nofun nofun
  · rw [given]
    apply FollowsShape.unsupported
    intro named names
    exact unnamed named names.2 byValue (form.namesValueType_iff.mp names.1)

/-- The fallback goes by what comes after the modifiers. -/
theorem followsShape_after_modifiers {parameter : ParameterSig}
    (form : ParameterForm (Within limit) start bytes parameter) (module : LoadedModule)
    (blob : List UInt8) :
    ∃ run modifiers rest, bytes = run ++ rest ∧ ModifierRun run modifiers ∧ NoModifier rest ∧
      FollowsShape (ofParameter limit module blob parameter) rest := by
  cases form with
  | @byValue _ run rest modifiers _ found ended _ within =>
      exact ⟨run, modifiers, rest, rfl, found, ended, .ofParameter within.1 rfl limit module blob⟩
  | @byReference _ run rest modifiers _ found within =>
      refine ⟨run, modifiers, _, rfl, found, ?_, ?_⟩
      · intro required announced
        cases announces_cons.mp announced
      · apply FollowsShape.unsupported
        intro named names
        obtain ⟨⟨_, split, _⟩, _⟩ := names
        cases Element.code_inj.mp (List.cons.inj split).1

/-- With modifiers at the front only a parameter that is not captured follows its shape. -/
theorem followsShape_iff {run rest : List UInt8} {modifiers : List Modifier}
    (found : ModifierRun run modifiers) (follows : FollowsShape instruction rest)
    (isFallback : instruction.IsFallback) :
    FollowsShape instruction (run ++ rest) ↔
      NoModifier (run ++ rest) ∨ instruction = .unsupported := by
  constructor
  · -- An instruction of a shape tells the first byte, which is none of a modifier.
    intro whole
    rcases isFallback with given | ⟨named, given⟩ | ⟨encoded, given⟩
    · exact .inr given
    · exact .inl ((whole.named named).mp given).1.noModifier
    · exact .inl (whole.applied encoded given).noModifier
  · intro either
    by_cases none : NoModifier (run ++ rest)
    · rw [found.eq_nil none]
      exact follows
    · obtain rfl := either.resolve_left none
      apply FollowsShape.unsupported
      intro named names
      exact none names.1.noModifier

/--
A parameter that introspection leaves undecided gets the instruction for the shape of what comes
after its modifiers. This is the one for its own shape exactly if it has no modifiers or is not
captured.
-/
theorem classify_shape_iff {index : Nat} {declared : Parameter} {signature : MethodSig}
    {parameter : ParameterSig} (listed : method.parameters[index]? = some declared)
    (undecided : Undecided module declared.type)
    (decoded : (Reader.method limit).ofBlob method.signature = .ok signature)
    (counted : signature.parameters.length = method.parameters.length)
    (found : signature.parameters[index]? = some parameter) :
    ∃ instruction, (classify limit module method)[(if method.hasThis then 1 else 0) + index]? =
        some instruction ∧
      (∃ bytes, parameter.WrittenIn limit method.signature bytes) ∧
      ∀ bytes, parameter.WrittenIn limit method.signature bytes →
        (∃ run modifiers rest, bytes = run ++ rest ∧ ModifierRun run modifiers ∧
          NoModifier rest ∧ FollowsShape instruction rest) ∧
        (FollowsShape instruction bytes ↔ NoModifier bytes ∨ instruction = .unsupported) := by
  have among : parameter ∈ signature.parameters := List.mem_of_getElem? found
  obtain ⟨front, bytes, back, split, form⟩ := Reader.parameters_inside decoded parameter
    (List.mem_cons_of_mem _ (List.mem_append_left _ among))
  rw [Nat.zero_add] at form
  refine ⟨_, classify_undecided listed (ofType?_eq_none_iff.mpr undecided) decoded counted found,
    ⟨bytes, front, back, split, form⟩, ?_⟩
  intro bytes written
  obtain ⟨front, back, _, form⟩ := written
  obtain ⟨run, modifiers, rest, rfl, marks, ended, follows⟩ :=
    followsShape_after_modifiers form module method.signature
  have isFallback := ofParameter_isFallback limit module method.signature parameter
  exact ⟨⟨run, modifiers, rest, rfl, marks, ended, follows⟩,
    followsShape_iff marks follows isFallback⟩

/-! The value type of elsewhere as the only parameter, without and with a modifier. -/

def pointMethod (signature : List UInt8) : Method :=
  ⟨⟨0x06000001⟩, "Bar", none, false, [], [⟨"p", foreignPoint, .byValue⟩], signature⟩

def bareSignature : List UInt8 := [0x00, 0x01, 0x01, 0x11, 0x05]

def modifiedSignature : List UInt8 := [0x00, 0x01, 0x01, 0x1F, 0x05, 0x11, 0x05]

theorem writtenIn_of_read {blob : List UInt8} {parameter : ParameterSig}
    (front back : List UInt8) (split : blob = front ++ (bytes ++ back))
    (read : Reader.parameter (Reader.typeWithin limit limit) ⟨front.length, bytes⟩ =
      .ok parameter ⟨front.length + bytes.length, []⟩) :
    parameter.WrittenIn limit blob bytes :=
  ⟨front, back, split,
    (Reader.parameter_exact (Reader.typeWithin_exact limit limit)).whole_iff.mp read⟩

theorem bareSignature_decoded : (Reader.method 50).ofBlob bareSignature =
    .ok ⟨.ofHeader 0, 0, ⟨[], false, .leaf .void, ⟨2, 3⟩⟩,
      [⟨[], false, .named .valueType ⟨0x01000001⟩, ⟨3, 5⟩⟩], []⟩ := rfl

theorem modifiedSignature_decoded : (Reader.method 50).ofBlob modifiedSignature =
    .ok ⟨.ofHeader 0, 0, ⟨[], false, .leaf .void, ⟨2, 3⟩⟩,
      [⟨[⟨0x01000001⟩], false, .named .valueType ⟨0x01000001⟩, ⟨5, 7⟩⟩], []⟩ := rfl

theorem classify_shape_iff_bare :
    let method := pointMethod bareSignature
    method.parameters[0]? = some ⟨"p", foreignPoint, .byValue⟩ ∧
      Undecided plainModule foreignPoint ∧
      (∃ signature parameter, (Reader.method 50).ofBlob method.signature = .ok signature ∧
        signature.parameters.length = method.parameters.length ∧
        signature.parameters[0]? = some parameter ∧
        parameter.WrittenIn 50 method.signature [0x11, 0x05]) ∧
      (classify 50 plainModule method)[0]? = some (.token ⟨0x01000001⟩) ∧
      FollowsShape (.token ⟨0x01000001⟩) [0x11, 0x05] := by
  intro method
  have written : ParameterSig.WrittenIn 50 method.signature
      ⟨[], false, .named .valueType ⟨0x01000001⟩, ⟨3, 5⟩⟩ [0x11, 0x05] :=
    writtenIn_of_read [0x00, 0x01, 0x01] [] rfl rfl
  have given : (classify 50 plainModule method)[0]? = some (.token ⟨0x01000001⟩) := by
    decide +kernel
  obtain ⟨instruction, found, _, shape⟩ := @classify_shape_iff 50 plainModule method 0 _ _ _ rfl
    foreignPoint_undecided bareSignature_decoded rfl rfl
  obtain rfl : Boxing.token ⟨0x01000001⟩ = instruction := Option.some.inj (given.symm.trans found)
  refine ⟨rfl, foreignPoint_undecided, ⟨_, _, bareSignature_decoded, rfl, rfl, written⟩, given, ?_⟩
  apply (shape _ written).2.mpr
  left
  intro required announced
  cases required <;> cases announced

/-- A required modifier does not keep a parameter from being captured. -/
theorem modified_captured :
    ¬ ∀ (limit : Nat) (module : LoadedModule) (method : Method) (index : Nat)
      (declared : Parameter) (signature : MethodSig) (parameter : ParameterSig)
      (bytes : List UInt8),
      method.parameters[index]? = some declared → Undecided module declared.type →
      (Reader.method limit).ofBlob method.signature = .ok signature →
      signature.parameters.length = method.parameters.length →
      signature.parameters[index]? = some parameter →
      parameter.WrittenIn limit method.signature bytes →
      ∃ instruction, (classify limit module method)[(if method.hasThis then 1 else 0) + index]? =
        some instruction ∧ FollowsShape instruction bytes := by
  intro always
  let method := pointMethod modifiedSignature
  have written : ParameterSig.WrittenIn 50 method.signature
      ⟨[⟨0x01000001⟩], false, .named .valueType ⟨0x01000001⟩, ⟨5, 7⟩⟩ [0x1F, 0x05, 0x11, 0x05] :=
    writtenIn_of_read [0x00, 0x01, 0x01] [] rfl rfl
  have given : (classify 50 plainModule method)[0]? = some (.token ⟨0x01000001⟩) := by
    decide +kernel
  obtain ⟨instruction, found, follows⟩ := always 50 plainModule method 0 _ _ _ _ rfl
    foreignPoint_undecided modifiedSignature_decoded rfl rfl written
  obtain rfl : Boxing.token ⟨0x01000001⟩ = instruction := Option.some.inj (given.symm.trans found)
  obtain ⟨⟨rest, split, _⟩, _⟩ := (follows.named _).mp rfl
  cases (List.cons.inj split).1

end Boxing

end CallCapture
