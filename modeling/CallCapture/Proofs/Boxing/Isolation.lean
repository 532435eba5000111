import CallCapture.Proofs.Boxing.Classified
import CallCapture.Proofs.Managed.OpenTypes

/-!
What the signatures of a module can change in the classification of a method. They are bytes from
outside and may be corrupt. Only value types that introspection has no token for depend on them, and
no byte shifts or overwrites the instruction of another argument.
-/

namespace CallCapture

namespace Boxing

variable {limit : Nat} {module : LoadedModule} {method : Method}

/-- A value type that the module has no single token for. -/
def Unnamed (module : LoadedModule) (type : RuntimeType) : Prop :=
  type.arguments ≠ [] ∨
    if type.module.any (Name.sameIgnoringCase · module.name) then type.token = none
    else module.findTypeRef? type.namespace type.name = none

/-- What introspection leaves to the signature. -/
def Undecided (module : LoadedModule) (type : RuntimeType) : Prop :=
  (type.kind = .valueType ∨ type.kind = .enum) ∧ ¬ type.MentionsParameter ∧ Unnamed module type

theorem valueTypeToken?_eq_none_iff {type : RuntimeType} :
    valueTypeToken? module type = none ↔ Unnamed module type := by
  unfold valueTypeToken? Unnamed
  cases type.arguments with
  | nil => cases type.module.any (Name.sameIgnoringCase · module.name) <;> simp
  | cons argument arguments => simp

theorem ofType?_eq_none_iff {type : RuntimeType} :
    ofType? module type = none ↔ Undecided module type := by
  unfold ofType? Undecided
  rw [← RuntimeType.isOpen_iff, ← valueTypeToken?_eq_none_iff]
  cases type.isOpen with
  | true => simp
  | false => cases type.kind <;> simp

theorem ofType?_of_mentionsParameter {type : RuntimeType} (mentions : type.MentionsParameter) :
    ofType? module type = some .unsupported := by
  rw [ofType?, if_pos (RuntimeType.isOpen_iff.mpr mentions)]

/-- The instructions that a signature can decide. -/
def IsFallback (instruction : Boxing) : Prop :=
  instruction = .unsupported ∨ (∃ named, instruction = .token named) ∨
    ∃ encoded, instruction = .blob encoded

/-- All that a decoded parameter can come to. -/
theorem ofParameter_cases (limit : Nat) (module : LoadedModule) (blob : List UInt8)
    (parameter : ParameterSig) :
    (∃ named, ofParameter limit module blob parameter = .token named ∧ parameter.byRef = false ∧
      parameter.type = .named .valueType named ∧ named.isType) ∨
    (∃ named arguments,
      ofParameter limit module blob parameter = .blob (parameter.span.slice blob) ∧
      parameter.byRef = false ∧
      parameter.type = .instantiation (.named .valueType named) arguments ∧
      instantiates limit module parameter.type = true) ∨
    (ofParameter limit module blob parameter = .unsupported ∧ ∀ named, named.isType →
      parameter.byRef = false → parameter.type ≠ .named .valueType named) := by
  unfold ofParameter
  cases byRef : parameter.byRef with
  | true => exact .inr (.inr ⟨rfl, nofun⟩)
  | false =>
      rw [if_neg Bool.false_ne_true]
      split
      · rename_i named shape
        by_cases isType : named.isType = true
        · exact .inl ⟨named, if_pos isType, rfl, shape, isType⟩
        · refine .inr (.inr ⟨if_neg isType, ?_⟩)
          intro other otherIsType _ same
          cases shape.symm.trans same
          exact isType otherIsType
      · rename_i named arguments shape
        cases instantiates limit module parameter.type with
        | true => exact .inr (.inl ⟨named, arguments, rfl, rfl, shape, rfl⟩)
        | false => exact .inr (.inr ⟨rfl, fun other _ _ same => by cases shape.symm.trans same⟩)
      · rename_i shape _
        exact .inr (.inr ⟨rfl, fun named _ _ => shape named⟩)

theorem ofParameter_isFallback (limit : Nat) (module : LoadedModule) (blob : List UInt8)
    (parameter : ParameterSig) : (ofParameter limit module blob parameter).IsFallback := by
  rcases ofParameter_cases limit module blob parameter with
    ⟨named, given, _⟩ | ⟨_, _, given, _⟩ | ⟨given, _⟩
  · exact .inr (.inl ⟨named, given⟩)
  · exact .inr (.inr ⟨_, given⟩)
  · exact .inl given

/-- The argument at the position is declared with a type that is left to the signature. -/
def UndecidedAt (module : LoadedModule) (method : Method) (position : Nat) : Prop :=
  ∃ index declared, position = (if method.hasThis then 1 else 0) + index ∧
    method.parameters[index]? = some declared ∧ Undecided module declared.type

theorem classify_at (limit : Nat) (module : LoadedModule) (method : Method) (position : Nat) :
    (classify limit module method)[position]? =
      if position < (if method.hasThis then 1 else 0) then some (ofReceiver method.declaringType)
      else method.parameters[position - (if method.hasThis then 1 else 0)]?.map fun declared =>
        ofDeclared limit module method (decodedParameters? limit method) declared
          (position - (if method.hasThis then 1 else 0)) := by
  rw [classify_eq]
  cases method.hasThis with
  | true => cases position <;> simp
  | false => simp

/-- Where introspection decides, no signature is read. -/
theorem classify_of_decided (limit limit' : Nat) {position : Nat}
    (decided : ¬ UndecidedAt module method position) (signature : List UInt8)
    (locals : List (List UInt8)) (methods : List Method) :
    (classify limit module method)[position]? =
      (classify limit' { module with localSignatures := locals, methods := methods }
        { method with signature := signature })[position]? := by
  rw [classify_at, classify_at]
  -- Both runs put the same arguments at the same positions, whatever their signatures decode to.
  by_cases receiver : position < if method.hasThis then 1 else 0
  · rw [if_pos receiver, if_pos receiver]
  · rw [if_neg receiver, if_neg receiver]
    apply Option.map_congr
    intro declared listed
    have reached : position = (if method.hasThis then 1 else 0) +
        (position - if method.hasThis then 1 else 0) := by omega
    cases introspected : ofType? module declared.type with
    | none =>
        have undecided := ofType?_eq_none_iff.mp introspected
        exact absurd ⟨_, declared, reached, listed, undecided⟩ decided
    | some instruction =>
        have same : ofType? { module with localSignatures := locals, methods := methods }
            declared.type = some instruction := introspected
        simp only [ofDeclared, introspected, same]

/-- The signature cannot be read, or it has another number of parameters than is declared. -/
def Mismatched (limit : Nat) (method : Method) : Prop :=
  (∃ error, (Reader.method limit).ofBlob method.signature = .error error) ∨
    ∃ signature, (Reader.method limit).ofBlob method.signature = .ok signature ∧
      signature.parameters.length ≠ method.parameters.length

theorem Mismatched.decodedParameters? (mismatched : Mismatched limit method) :
    decodedParameters? limit method = none := by
  unfold Boxing.decodedParameters?
  rcases mismatched with ⟨error, failed⟩ | ⟨signature, decoded, other⟩
  · rw [failed]
  · simp only [decoded, if_neg other]

theorem classify_of_undecided {index : Nat} {declared : Parameter}
    (listed : method.parameters[index]? = some declared)
    (undecided : Undecided module declared.type) :
    ∃ instruction, (classify limit module method)[(if method.hasThis then 1 else 0) + index]? =
      some instruction ∧ instruction.IsFallback ∧
      (Mismatched limit method → instruction = .unsupported) := by
  rw [classify_getElem? limit module listed, ofDeclared, ofType?_eq_none_iff.mpr undecided]
  refine ⟨_, rfl, ?_, ?_⟩
  · cases (decodedParameters? limit method).bind (·[index]?) with
    | none => exact .inl rfl
    | some parameter => exact ofParameter_isFallback limit module method.signature parameter
  · intro mismatched
    rw [mismatched.decodedParameters?]
    rfl

/-- How far the signatures and the nesting limit reach into the classification of a method. -/
structure Isolated (limit : Nat) (module : LoadedModule) (method : Method) : Prop where
  counted : (classify limit module method).length =
    (if method.hasThis then 1 else 0) + method.parameters.length
  receiver : method.hasThis = true →
    (classify limit module method)[0]? = some (ofReceiver method.declaringType)
  /-- Other signatures, read to another depth, change nothing here. -/
  independent : ∀ position, ¬ UndecidedAt module method position →
    ∀ limit' signature locals methods, (classify limit module method)[position]? =
      (classify limit' { module with localSignatures := locals, methods := methods }
        { method with signature := signature })[position]?
  fallback : ∀ position, UndecidedAt module method position →
    ∃ instruction, (classify limit module method)[position]? = some instruction ∧
      instruction.IsFallback
  mismatched : Mismatched limit method → ∀ position, UndecidedAt module method position →
    (classify limit module method)[position]? = some .unsupported
  generic : ∀ index declared, method.parameters[index]? = some declared →
    declared.type.MentionsParameter →
    (classify limit module method)[(if method.hasThis then 1 else 0) + index]? = some .unsupported

/--
There is one instruction for each argument. Two classifications that differ only in the signatures
and the limits agree on every argument but those that introspection leaves undecided.
-/
theorem classify_isolated (limit : Nat) (module : LoadedModule) (method : Method) :
    Isolated limit module method where
  counted := length_classify limit module method
  receiver := by
    intro hasThis
    rw [classify_at, if_pos hasThis, if_pos Nat.zero_lt_one]
  independent := by
    intro position decided limit' signature locals methods
    exact classify_of_decided limit limit' decided signature locals methods
  fallback := by
    intro position undecidedAt
    obtain ⟨index, declared, rfl, listed, undecided⟩ := undecidedAt
    obtain ⟨instruction, found, isFallback, _⟩ := classify_of_undecided listed undecided
    exact ⟨instruction, found, isFallback⟩
  mismatched := by
    intro mismatched position undecidedAt
    obtain ⟨index, declared, rfl, listed, undecided⟩ := undecidedAt
    obtain ⟨instruction, found, _, uncaptured⟩ := classify_of_undecided listed undecided
    rw [found, uncaptured mismatched]
  generic := by
    intro index declared listed mentions
    rw [classify_getElem? limit module listed, ofDeclared, ofType?_of_mentionsParameter mentions]

/-! A number, a value type of elsewhere, and a value type applied to an open parameter. -/

def foreignPoint : RuntimeType := .ofKind "Other" "Point" .valueType

def mixedMethod (signature : List UInt8) : Method :=
  let held := { foreignPoint with arguments := [.ofKind "" "T" (.genericParameter 0 false)] }
  ⟨⟨0x06000001⟩, "Bar", none, true, [], [⟨"count", .primitive .int32, .byValue⟩,
    ⟨"point", foreignPoint, .byValue⟩, ⟨"held", held, .byValue⟩], signature⟩

def mixedSignature : List UInt8 := [0x20, 0x03, 0x01, 0x08, 0x11, 0x05, 0x11, 0x05]

def plainModule : LoadedModule := ⟨1, "App.dll", false, false, [], [], []⟩

theorem foreignPoint_undecided : Undecided plainModule foreignPoint := by
  rw [← ofType?_eq_none_iff]
  decide +kernel

/-- Of the arguments only the value type of elsewhere is lost with the end of the signature. -/
theorem classify_isolated_cut :
    let whole := classify 50 plainModule (mixedMethod mixedSignature)
    let cut := classify 50 plainModule (mixedMethod (mixedSignature.take 4))
    whole = [.passThrough, .primitive .int32, .token ⟨0x01000001⟩, .unsupported] ∧
      cut.length = 4 ∧ cut[0]? = whole[0]? ∧ cut[1]? = whole[1]? ∧ cut[2]? = some .unsupported ∧
      cut[3]? = some .unsupported := by
  intro whole cut
  have isolated := classify_isolated 50 plainModule (mixedMethod mixedSignature)
  have isolatedCut := classify_isolated 50 plainModule (mixedMethod (mixedSignature.take 4))
  have decided : ¬ UndecidedAt plainModule (mixedMethod mixedSignature) 1 := by
    intro undecidedAt
    obtain ⟨index, declared, reached, listed, ⟨valueType, _⟩⟩ := undecidedAt
    obtain rfl : index = 0 := by
      change 1 = 1 + index at reached
      omega
    cases listed
    simp [RuntimeType.primitive, RuntimeType.ofKind] at valueType
  have mismatched : Mismatched 50 (mixedMethod (mixedSignature.take 4)) := .inl ⟨_, rfl⟩
  have same := isolated.independent 1 decided 50 (mixedSignature.take 4) [] []
  have receiver : cut[0]? = whole[0]? := by
    rw [isolatedCut.receiver rfl, isolated.receiver rfl]
    rfl
  have lost := isolatedCut.mismatched mismatched 2 ⟨1, _, rfl, rfl, foreignPoint_undecided⟩
  have generic := isolatedCut.generic 2 _ rfl
    ⟨_, 0, false, .argument (List.mem_singleton.mpr rfl) .here, rfl⟩
  refine ⟨?_, isolatedCut.counted, receiver, same.symm, lost, generic⟩
  decide +kernel

end Boxing

end CallCapture
