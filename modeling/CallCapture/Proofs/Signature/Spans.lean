import CallCapture.Proofs.Signature.Acceptance

/-!
The span of a decoded parameter covers the bytes that encode its type, at the place where they stand
in the blob. The type of a local variable stands in its blob as well, though no span tells where.
-/

namespace CallCapture

section Inside

variable {α : Type} {form : Form α} {start : Nat} {bytes : List UInt8} {value : α}

/-- A value of the form is encoded somewhere in the bytes, which stand at `start`. -/
def Inside (form : Form α) : Form α := fun start bytes value =>
  ∃ front part back, bytes = front ++ (part ++ back) ∧ form (start + front.length) part value

theorem Inside.here (formed : form start bytes value) : Inside form start bytes value :=
  ⟨[], bytes, [], (List.append_nil bytes).symm, formed⟩

theorem Inside.before (inside : Inside form start bytes value) (rest : List UInt8) :
    Inside form start (bytes ++ rest) value := by
  obtain ⟨front, part, back, rfl, formed⟩ := inside
  exact ⟨front, part, back ++ rest, by simp only [List.append_assoc], formed⟩

theorem Inside.after {place : Nat} {first : List UInt8} (inside : Inside form place bytes value)
    (reached : place = start + first.length) : Inside form start (first ++ bytes) value := by
  obtain ⟨front, part, back, rfl, formed⟩ := inside
  refine ⟨first ++ front, part, back, (List.append_assoc ..).symm, ?_⟩
  rw [List.length_append, ← Nat.add_assoc, ← reached]
  exact formed

theorem Inside.trans {β : Type} {other : Form β} {part : β}
    (inside : Inside form start bytes value)
    (each : ∀ start bytes, form start bytes value → Inside other start bytes part) :
    Inside other start bytes part := by
  obtain ⟨front, part, back, rfl, formed⟩ := inside
  exact ((each _ _ formed).before back).after rfl

theorem Sequence.inside {values : List α} (sequence : Sequence form start bytes values) :
    ∀ value ∈ values, Inside form start bytes value := by
  induction sequence with
  | nil => simp
  | cons first _ ih =>
      intro value among
      rcases List.mem_cons.mp among with rfl | among
      · exact (Inside.here first).before _
      · exact (ih value among).after rfl

end Inside

variable {nested : Form TypeSig} {start : Nat} {bytes : List UInt8}

/-! ### Parameters -/

theorem ParametersForm.inside {parameters : List ParameterSig × List ParameterSig}
    (forms : ParametersForm nested start bytes parameters) :
    ∀ parameter ∈ parameters.1 ++ parameters.2,
      Inside (ParameterForm nested) start bytes parameter := by
  induction forms with
  | nil => simp
  | @sentinel start bytes _ _ sequence =>
      intro parameter among
      have reached : start + 1 = start + [sentinelCode].length := rfl
      exact (sequence.inside parameter among).after reached
  | cons first _ ih =>
      intro parameter among
      rcases List.mem_cons.mp among with rfl | among
      · exact (Inside.here first).before _
      · exact (ih parameter among).after rfl

theorem MethodForm.inside {signature : MethodSig} (form : MethodForm nested start bytes signature) :
    ∀ parameter ∈ signature.returnType :: (signature.parameters ++ signature.varargs),
      Inside (ParameterForm nested) start bytes parameter := by
  cases form with
  | @intro _ header generics count result bytes _ _ _ _ _ _ resultForm forms =>
      have shift (part : List UInt8) : header :: (generics ++ (count ++ part)) =
          (header :: (generics ++ count)) ++ part := by simp
      have reached : start + 1 + generics.length + count.length =
          start + (header :: (generics ++ count)).length := by
        simp only [List.length_cons, List.length_append]
        omega
      intro parameter among
      rw [shift]
      rcases List.mem_cons.mp among with rfl | among
      · exact ((Inside.here resultForm).before _).after reached
      · exact ((forms.inside parameter among).after rfl).after reached

/-- The bytes that a parameter's span covers, and nothing else. -/
def Spanned (nested : Form TypeSig) : Form ParameterSig := fun start bytes parameter =>
  parameter.span = ⟨start, start + bytes.length⟩ ∧ nested start bytes parameter.type

variable {parameter : ParameterSig}

theorem ParameterForm.spanned (form : ParameterForm nested start bytes parameter) :
    Inside (Spanned nested) start bytes parameter := by
  cases form with
  | @byValue _ run encoded _ _ _ _ _ form => exact ⟨run, encoded, [], by simp, rfl, form⟩
  | @byReference _ run encoded _ _ _ form =>
      refine ⟨run ++ [(Element.wrapper .byRef).code], encoded, [], by simp, ?_, ?_⟩
      · simp [Nat.add_assoc]
      · simpa [Nat.add_assoc] using form

/-- In a whole blob, the span covers just the bytes between those before and those after. -/
theorem Spanned.slice {front bytes : List UInt8} (back : List UInt8)
    (spanned : Spanned nested (0 + front.length) bytes parameter) :
    parameter.span.slice (front ++ (bytes ++ back)) = bytes := by
  rw [Span.slice, spanned.1]
  simp

/-- In a whole blob, the span covers the encoding. -/
theorem Inside.slice {blob : List UInt8} (inside : Inside (Spanned nested) 0 blob parameter) :
    nested parameter.span.start (parameter.span.slice blob) parameter.type := by
  obtain ⟨front, encoded, back, rfl, spanned⟩ := inside
  rw [spanned.slice, spanned.1]
  exact spanned.2

theorem Inside.split {blob : List UInt8} (inside : Inside (Spanned nested) 0 blob parameter) :
    ∃ front back, blob = front ++ (parameter.span.slice blob ++ back) ∧
      parameter.span.start = front.length := by
  obtain ⟨front, encoded, back, rfl, spanned⟩ := inside
  rw [spanned.slice, spanned.1]
  exact ⟨front, back, rfl, Nat.zero_add front.length⟩

variable {limit : Nat} {blob : List UInt8} {signature : MethodSig}

theorem Reader.parameters_inside (decoded : (Reader.method limit).ofBlob blob = .ok signature) :
    ∀ parameter ∈ signature.returnType :: (signature.parameters ++ signature.varargs),
      Inside (ParameterForm (Within limit)) 0 blob parameter := by
  have exact := Reader.method_exact (Reader.typeWithin_exact limit limit)
  obtain ⟨bytes, rest, rfl, form⟩ := exact.ofBlob_eq_ok_iff.mp decoded
  intro parameter among
  exact (form.inside parameter among).before rest

theorem Reader.parameters_spanned (decoded : (Reader.method limit).ofBlob blob = .ok signature) :
    ∀ parameter ∈ signature.returnType :: (signature.parameters ++ signature.varargs),
      Inside (Spanned (Within limit)) 0 blob parameter := by
  intro parameter among
  have written := Reader.parameters_inside decoded parameter among
  exact written.trans fun _ _ form => form.spanned

/-- The type of each decoded parameter is encoded by the bytes that its span covers. -/
theorem Reader.spans_cover (decoded : (Reader.method limit).ofBlob blob = .ok signature) :
    ∀ parameter ∈ signature.returnType :: (signature.parameters ++ signature.varargs),
      Within limit parameter.span.start (parameter.span.slice blob) parameter.type :=
  fun parameter among => (Reader.parameters_spanned decoded parameter among).slice

/-! ### Local variables -/

/-- The bytes of a local's type, and nothing else. -/
def Typed (nested : Form TypeSig) : Form LocalSig := fun start bytes slot =>
  nested start bytes slot.type

variable {slot : LocalSig}

theorem MarkedForm.typed (form : MarkedForm nested start bytes slot) :
    Inside (Typed nested) start bytes slot := by
  cases form with
  | @byValue _ run encoded _ _ _ _ _ _ _ form => exact ⟨run, encoded, [], by simp, form⟩
  | @byReference _ run encoded _ _ _ _ form =>
      refine ⟨run ++ [(Element.wrapper .byRef).code], encoded, [], by simp, ?_⟩
      simpa [Typed, Nat.add_assoc] using form

/-- A typed reference counts as a type of its own if the limit admits types at all. -/
theorem LocalForm.typed (admits : 1 < limit) (form : LocalForm (Within limit) start bytes slot) :
    Inside (Typed (Within limit)) start bytes slot := by
  cases form with
  | typedReference => exact .here ⟨.intro (.leaf .typedByRef) (.leaf _ .typedByRef), admits⟩
  | marked form => exact form.typed

theorem LocalsForm.inside {locals : List LocalSig} (form : LocalsForm nested start bytes locals) :
    ∀ slot ∈ locals, Inside (LocalForm nested) start bytes slot := by
  cases form with
  | @intro _ count rest _ _ sequence =>
      intro slot among
      have reached : start + 1 + count.length = start + (localsHeader :: count).length := by
        rw [List.length_cons]
        omega
      exact (sequence.inside slot among).after reached

/-- The type of each decoded local variable is encoded somewhere in the blob. -/
theorem Reader.locals_typed (admits : 1 < limit) {locals : List LocalSig}
    (decoded : (Reader.localVariables limit).ofBlob blob = .ok locals) :
    ∀ slot ∈ locals, Inside (Typed (Within limit)) 0 blob slot := by
  have exact := Reader.localVariables_exact (Reader.typeWithin_exact limit limit)
  obtain ⟨bytes, rest, rfl, form⟩ := exact.ofBlob_eq_ok_iff.mp decoded
  intro slot among
  have written := (form.inside slot among).before rest
  exact written.trans fun _ _ form => form.typed admits

end CallCapture
