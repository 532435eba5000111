import CallCapture.Managed.RuntimeType

/-!
A type is open exactly if an open generic parameter stands in it, at any depth.
-/

namespace CallCapture

namespace RuntimeType

/-- The first type is the second, or stands in it as an argument or as an element at any depth. -/
inductive Occurs (part : RuntimeType) : RuntimeType → Prop where
  | here : Occurs part part
  | argument {type argument : RuntimeType} :
      argument ∈ type.arguments → Occurs part argument → Occurs part type
  | element {type element : RuntimeType} :
      type.element = some element → Occurs part element → Occurs part type

def MentionsParameter (type : RuntimeType) : Prop :=
  ∃ part index ofMethod, Occurs part type ∧ part.kind = .genericParameter index ofMethod

variable {type part : RuntimeType}

theorem MentionsParameter.argument {argument : RuntimeType} (among : argument ∈ type.arguments)
    (mentions : argument.MentionsParameter) : type.MentionsParameter := by
  obtain ⟨part, index, ofMethod, occurs, kind⟩ := mentions
  exact ⟨part, index, ofMethod, .argument among occurs, kind⟩

theorem MentionsParameter.element {element : RuntimeType} (around : type.element = some element)
    (mentions : element.MentionsParameter) : type.MentionsParameter := by
  obtain ⟨part, index, ofMethod, occurs, kind⟩ := mentions
  exact ⟨part, index, ofMethod, .element around occurs, kind⟩

theorem isGenericParameter_iff {kind : TypeKind} :
    isGenericParameter kind = true ↔ ∃ index ofMethod, kind = .genericParameter index ofMethod := by
  cases kind <;> simp [isGenericParameter]

theorem anyOpen_iff {types : List RuntimeType} :
    anyOpen types = true ↔ ∃ type ∈ types, type.isOpen = true := by
  induction types with
  | nil => simp [anyOpen]
  | cons type types ih => simp [anyOpen, ih]

theorem elementOpen_iff {around : Option RuntimeType} :
    elementOpen around = true ↔ ∃ element, around = some element ∧ element.isOpen = true := by
  cases around <;> simp [elementOpen]

/-- A type is open for one of three reasons. -/
theorem isOpen_cases :
    type.isOpen = true ↔ isGenericParameter type.kind = true ∨
      (∃ argument ∈ type.arguments, argument.isOpen = true) ∨
      ∃ element, type.element = some element ∧ element.isOpen = true := by
  obtain ⟨name, scope, kind, module, token, arguments, element⟩ := type
  simp only [isOpen, Bool.or_eq_true, anyOpen_iff, elementOpen_iff, or_assoc]

theorem Occurs.isOpen (occurs : Occurs part type)
    (parameter : isGenericParameter part.kind = true) : type.isOpen = true := by
  induction occurs with
  | here => exact isOpen_cases.mpr (.inl parameter)
  | argument among _ ih => exact isOpen_cases.mpr (.inr (.inl ⟨_, among, ih⟩))
  | element around _ ih => exact isOpen_cases.mpr (.inr (.inr ⟨_, around, ih⟩))

theorem mentionsParameter_of_isOpen (type : RuntimeType) (isOpen : type.isOpen = true) :
    type.MentionsParameter := by
  rcases isOpen_cases.mp isOpen with parameter | ⟨argument, among, inside⟩ |
    ⟨element, around, inside⟩
  · obtain ⟨index, ofMethod, kind⟩ := isGenericParameter_iff.mp parameter
    exact ⟨type, index, ofMethod, .here, kind⟩
  · exact .argument among (mentionsParameter_of_isOpen argument inside)
  · exact .element around (mentionsParameter_of_isOpen element inside)
termination_by type
decreasing_by
  · cases type
    have smaller := List.sizeOf_lt_of_mem among
    simp only [RuntimeType.mk.sizeOf_spec] at smaller ⊢
    omega
  · cases type
    cases around
    simp only [RuntimeType.mk.sizeOf_spec, Option.some.sizeOf_spec]
    omega

theorem isOpen_iff : type.isOpen = true ↔ type.MentionsParameter := by
  constructor
  · exact mentionsParameter_of_isOpen type
  · intro mentions
    obtain ⟨part, index, ofMethod, occurs, kind⟩ := mentions
    exact occurs.isOpen (isGenericParameter_iff.mpr ⟨index, ofMethod, kind⟩)

end RuntimeType

end CallCapture
