import CallCapture.Proofs.Signature.Grammar

/-!
Forms made of types below a limit are the forms made of any types that nest below the limit.
-/

namespace CallCapture

variable {limit start : Nat} {bytes : List UInt8}

theorem TypeSig.nesting_pos (type : TypeSig) : 0 < type.nesting := by
  cases type <;> simp [TypeSig.nesting]

theorem TypeSig.deepest_lt_iff (positive : 0 < limit) {types : List TypeSig} :
    TypeSig.deepest types < limit ↔ ∀ type ∈ types, type.nesting < limit := by
  induction types with
  | nil => simp [TypeSig.deepest, positive]
  | cons type types ih => rw [TypeSig.deepest, Nat.max_lt, ih, List.forall_mem_cons]

theorem ParameterSig.deepest_lt_iff (positive : 0 < limit) {parameters : List ParameterSig} :
    ParameterSig.deepest parameters < limit ↔
      ∀ parameter ∈ parameters, parameter.nesting < limit := by
  induction parameters with
  | nil => simp [ParameterSig.deepest, positive]
  | cons parameter parameters ih =>
      rw [ParameterSig.deepest, Nat.max_lt, ih, List.forall_mem_cons]

theorem ParameterForm.within_iff {parameter : ParameterSig} :
    ParameterForm (Within limit) start bytes parameter ↔
      ParameterForm TypeForm start bytes parameter ∧ parameter.nesting < limit := by
  constructor
  · intro form
    cases form with
    | byValue found ended unmarked within =>
        exact ⟨.byValue found ended unmarked within.1, within.2⟩
    | byReference found within => exact ⟨.byReference found within.1, within.2⟩
  · rintro ⟨form, below⟩
    cases form with
    | byValue found ended unmarked form => exact .byValue found ended unmarked ⟨form, below⟩
    | byReference found form => exact .byReference found ⟨form, below⟩

theorem Sequence.parameters_within_iff {parameters : List ParameterSig} :
    Sequence (ParameterForm (Within limit)) start bytes parameters ↔
      Sequence (ParameterForm TypeForm) start bytes parameters ∧
        ∀ parameter ∈ parameters, parameter.nesting < limit := by
  rw [← Sequence.restrict_iff]
  exact Sequence.congr fun _ _ _ => ParameterForm.within_iff

theorem ParametersForm.within_iff {parameters : List ParameterSig × List ParameterSig} :
    ParametersForm (Within limit) start bytes parameters ↔
      ParametersForm TypeForm start bytes parameters ∧
        (∀ parameter ∈ parameters.1, parameter.nesting < limit) ∧
        ∀ parameter ∈ parameters.2, parameter.nesting < limit := by
  constructor
  · intro forms
    induction forms with
    | nil start => exact ⟨.nil start, nofun, nofun⟩
    | sentinel nonempty sequence =>
        obtain ⟨sequence, below⟩ := Sequence.parameters_within_iff.mp sequence
        exact ⟨.sentinel nonempty sequence, nofun, below⟩
    | cons form _ ih =>
        obtain ⟨form, below⟩ := ParameterForm.within_iff.mp form
        obtain ⟨forms, fixedBelow, afterBelow⟩ := ih
        exact ⟨.cons form forms, List.forall_mem_cons.mpr ⟨below, fixedBelow⟩, afterBelow⟩
  · rintro ⟨forms, fixedBelow, afterBelow⟩
    induction forms with
    | nil start => exact .nil start
    | sentinel nonempty sequence =>
        exact .sentinel nonempty (Sequence.parameters_within_iff.mpr ⟨sequence, afterBelow⟩)
    | cons form _ ih =>
        obtain ⟨below, fixedBelow⟩ := List.forall_mem_cons.mp fixedBelow
        exact .cons (ParameterForm.within_iff.mpr ⟨form, below⟩) (ih fixedBelow afterBelow)

theorem MethodSig.nesting_lt_iff {signature : MethodSig} :
    signature.nesting < limit ↔ signature.returnType.nesting < limit ∧
      (∀ parameter ∈ signature.parameters, parameter.nesting < limit) ∧
      ∀ parameter ∈ signature.varargs, parameter.nesting < limit := by
  obtain ⟨convention, genericCount, returnType, parameters, varargs⟩ := signature
  simp only [MethodSig.nesting, Nat.max_lt]
  refine and_congr_right fun below => ?_
  have positive : 0 < limit := Nat.zero_lt_of_lt below
  rw [ParameterSig.deepest_lt_iff positive, ParameterSig.deepest_lt_iff positive]

theorem MethodForm.within_iff {signature : MethodSig} :
    MethodForm (Within limit) start bytes signature ↔
      MethodForm TypeForm start bytes signature ∧ signature.nesting < limit := by
  rw [MethodSig.nesting_lt_iff]
  constructor
  · intro form
    cases form with
    | intro generic counted result forms =>
        obtain ⟨result, below⟩ := ParameterForm.within_iff.mp result
        obtain ⟨forms, allBelow⟩ := ParametersForm.within_iff.mp forms
        exact ⟨.intro generic counted result forms, below, allBelow⟩
  · rintro ⟨form, below, allBelow⟩
    cases form with
    | intro generic counted result forms =>
        exact .intro generic counted (ParameterForm.within_iff.mpr ⟨result, below⟩)
          (ParametersForm.within_iff.mpr ⟨forms, allBelow⟩)

/-- A type nests one deeper than the types inside it. -/
theorem ContentsForm.within_iff (positive : 0 < limit) {element : Element} {type : TypeSig} :
    ContentsForm (Within limit) element start bytes type ↔
      ContentsForm TypeForm element start bytes type ∧ type.nesting < limit + 1 := by
  constructor
  · intro form
    cases form with
    | leaf start kind => exact ⟨.leaf start kind, Nat.succ_lt_succ positive⟩
    | wrapped kind within => exact ⟨.wrapped kind within.1, Nat.succ_lt_succ within.2⟩
    | named start kind form => exact ⟨.named start kind form, Nat.succ_lt_succ positive⟩
    | genericParameter start owner form =>
        exact ⟨.genericParameter start owner form, Nat.succ_lt_succ positive⟩
    | array within ranked sized bounded =>
        exact ⟨.array within.1 ranked sized bounded, Nat.succ_lt_succ within.2⟩
    | instantiation within counted sequence =>
        obtain ⟨sequence, below⟩ := Sequence.restrict_iff.mp sequence
        have deepest := (TypeSig.deepest_lt_iff positive).mpr below
        exact ⟨.instantiation within.1 counted sequence,
          Nat.succ_lt_succ (Nat.max_lt.mpr ⟨within.2, deepest⟩)⟩
    | functionPointer form =>
        obtain ⟨form, below⟩ := MethodForm.within_iff.mp form
        exact ⟨.functionPointer form, Nat.succ_lt_succ below⟩
    | modified required named found ended within =>
        exact ⟨.modified required named found ended within.1, Nat.succ_lt_succ within.2⟩
  · rintro ⟨form, below⟩
    cases form with
    | leaf start kind => exact .leaf start kind
    | wrapped kind form => exact .wrapped kind ⟨form, Nat.lt_of_succ_lt_succ below⟩
    | named start kind form => exact .named start kind form
    | genericParameter start owner form => exact .genericParameter start owner form
    | array form ranked sized bounded =>
        exact .array ⟨form, Nat.lt_of_succ_lt_succ below⟩ ranked sized bounded
    | instantiation form counted sequence =>
        obtain ⟨generic, deepest⟩ := Nat.max_lt.mp (Nat.lt_of_succ_lt_succ below)
        have arguments := (TypeSig.deepest_lt_iff positive).mp deepest
        exact .instantiation ⟨form, generic⟩ counted (Sequence.restrict_iff.mpr ⟨sequence, arguments⟩)
    | functionPointer form =>
        exact .functionPointer (MethodForm.within_iff.mpr ⟨form, Nat.lt_of_succ_lt_succ below⟩)
    | modified required named found ended form =>
        exact .modified required named found ended ⟨form, Nat.lt_of_succ_lt_succ below⟩

/-- A type below a limit is an element around types that are one further below it. -/
theorem within_succ_iff (positive : 0 < limit) {type : TypeSig} :
    Within (limit + 1) start bytes type ↔ ∃ element contents, bytes = element.code :: contents ∧
      ContentsForm (Within limit) element (start + 1) contents type := by
  constructor
  · rintro ⟨form, below⟩
    cases form with
    | intro element contents =>
        exact ⟨element, _, rfl, (ContentsForm.within_iff positive).mpr ⟨contents, below⟩⟩
  · rintro ⟨element, contents, rfl, form⟩
    obtain ⟨form, below⟩ := (ContentsForm.within_iff positive).mp form
    exact ⟨.intro element form, below⟩

end CallCapture
