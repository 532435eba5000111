import CallCapture.Proofs.Boxing.Slots
import CallCapture.Proofs.Boxing.Stream

/-!
What a method is classified to: an instruction for each argument. Signatures yield tokens of types
and short blobs only, so a stream can carry the instructions unless introspection gave a value type
a token of something else.
-/

namespace CallCapture

namespace Boxing

theorem length_classify (limit : Nat) (module : LoadedModule) (method : Method) :
    (classify limit module method).length =
      (if method.hasThis then 1 else 0) + method.parameters.length := by
  simp only [classify_eq, List.length_append, List.length_mapIdx]
  split <;> rfl

/-- The instruction of a declared parameter comes after that of an implicit `this`. -/
theorem classify_getElem? (limit : Nat) (module : LoadedModule) {method : Method} {index : Nat}
    {declared : Parameter} (listed : method.parameters[index]? = some declared) :
    (classify limit module method)[(if method.hasThis then 1 else 0) + index]? =
      some (ofDeclared limit module method (decodedParameters? limit method) declared index) := by
  have receiver : (if method.hasThis then [ofReceiver method.declaringType] else []).length =
      if method.hasThis then 1 else 0 := by
    split <;> rfl
  rw [classify_eq, ← receiver, List.getElem?_append_right (Nat.le_add_right _ _),
    Nat.add_sub_cancel_left, List.getElem?_mapIdx, listed]
  rfl

/-- A signature that agrees with the declaration decides what introspection leaves open. -/
theorem classify_undecided {limit : Nat} {module : LoadedModule} {method : Method} {index : Nat}
    {declared : Parameter} {signature : MethodSig} {parameter : ParameterSig}
    (listed : method.parameters[index]? = some declared)
    (undecided : ofType? module declared.type = none)
    (decoded : (Reader.method limit).ofBlob method.signature = .ok signature)
    (counted : signature.parameters.length = method.parameters.length)
    (found : signature.parameters[index]? = some parameter) :
    (classify limit module method)[(if method.hasThis then 1 else 0) + index]? =
      some (ofParameter limit module method.signature parameter) := by
  have parameters : decodedParameters? limit method = some signature.parameters := by
    simp only [decodedParameters?, decoded, counted, if_true]
  rw [classify_getElem? limit module listed, ofDeclared, undecided, parameters, Option.bind_some,
    found]

/-- Introspection names the value types among a method's parameters by tokens of types only. -/
def NamedByTypes (module : LoadedModule) (method : Method) : Prop :=
  ∀ parameter ∈ method.parameters, ∀ named, ofType? module parameter.type = some (.token named) →
    named.isType

theorem streamable_ofReceiver (declaringType : Option RuntimeType) :
    (ofReceiver declaringType).Streamable := by
  unfold ofReceiver
  split <;> trivial

theorem ofType?_ne_blob (module : LoadedModule) (type : RuntimeType) (bytes : List UInt8) :
    ofType? module type ≠ some (.blob bytes) := by
  intro decided
  have mapped (found : Option Token) : found.map token ≠ some (.blob bytes) := by
    intro same
    cases found <;> cases same
  unfold ofType? at decided
  split at decided
  · cases decided
  · cases kind : type.kind
    all_goals
      rw [kind] at decided
      first
      | exact mapped _ decided
      | cases decided

/-- Of what introspection decides, only a token can be something that no stream carries. -/
theorem streamable_iff_of_ofType? {module : LoadedModule} {type : RuntimeType}
    {instruction : Boxing} (decided : ofType? module type = some instruction) :
    instruction.Streamable ↔ ∀ named, instruction = .token named → named.isType := by
  cases instruction with
  | unsupported => exact iff_of_true trivial nofun
  | passThrough => exact iff_of_true trivial nofun
  | primitive scalar => exact iff_of_true trivial nofun
  | token named =>
      constructor
      · intro streamable other same
        cases same
        exact streamable
      · intro types
        exact types named rfl
  | blob bytes => exact absurd decided (ofType?_ne_blob module type bytes)

/-- What a signature decides is a token of a type, or a blob no longer than the signature. -/
theorem streamable_ofParameter {blob : List UInt8} (short : blob.length < 0x100000000) (limit : Nat)
    (module : LoadedModule) (parameter : ParameterSig) :
    (ofParameter limit module blob parameter).Streamable := by
  have slice : (parameter.span.slice blob).length < 0x100000000 := by
    simp only [Span.slice, List.length_take, List.length_drop]
    omega
  unfold ofParameter
  split
  · trivial
  · split
    · split
      · rename_i type
        exact type
      · trivial
    · split
      · exact slice
      · trivial
    · trivial

/-- A parameter that introspection leaves undecided gets an instruction that a stream can carry. -/
theorem streamable_ofDeclared_iff {method : Method} (short : method.signature.length < 0x100000000)
    (limit : Nat) (module : LoadedModule) (decoded : Option (List ParameterSig))
    (parameter : Parameter) (index : Nat) :
    (ofDeclared limit module method decoded parameter index).Streamable ↔
      ∀ named, ofType? module parameter.type = some (.token named) → named.isType := by
  unfold ofDeclared
  cases decided : ofType? module parameter.type with
  | some instruction =>
      rw [streamable_iff_of_ofType? decided]
      simp only [Option.some.injEq]
  | none =>
      refine iff_of_true ?_ nofun
      cases decoded.bind (·[index]?) with
      | none => trivial
      | some signature => exact streamable_ofParameter short limit module signature

/-- A stream can carry the instructions of a method just if introspection found types for tokens. -/
theorem streamable_classify_iff {method : Method} (short : method.signature.length < 0x100000000)
    (limit : Nat) (module : LoadedModule) :
    (∀ instruction ∈ classify limit module method, instruction.Streamable) ↔
      NamedByTypes module method := by
  have receiver : ∀ instruction ∈
      (if method.hasThis then [ofReceiver method.declaringType] else []),
      instruction.Streamable := by
    intro instruction among
    split at among
    · cases List.mem_singleton.mp among
      exact streamable_ofReceiver method.declaringType
    · cases among
  simp only [classify_eq, List.forall_mem_append, NamedByTypes, and_iff_right receiver]
  constructor
  · intro carried parameter among
    obtain ⟨index, within, found⟩ := List.mem_iff_getElem.mp among
    subst found
    apply (streamable_ofDeclared_iff short limit module _ _ index).mp
    exact carried _ (List.mem_mapIdx.mpr ⟨index, within, rfl⟩)
  · intro types instruction among
    obtain ⟨index, within, made⟩ := List.mem_mapIdx.mp among
    subst made
    apply (streamable_ofDeclared_iff short limit module _ _ index).mpr
    exact types _ (List.getElem_mem within)

end Boxing

end CallCapture
