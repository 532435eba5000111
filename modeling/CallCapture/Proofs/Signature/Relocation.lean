import CallCapture.Proofs.Signature.Acceptance

/-!
What a signature means does not depend on where in a blob it stands, apart from the spans of the
parameters of function pointers: these are counted from the start of the blob. So the same bytes at
two places give types that differ by a shift of these spans, and equality of types, which compares
the spans, tells them apart just if there is a function pointer in them.
-/

namespace CallCapture

def Span.moved (distance : Nat) (span : Span) : Span :=
  ⟨span.start + distance, span.stop + distance⟩

mutual

/-- The type with the spans in it moved further into the blob. -/
def TypeSig.moved (distance : Nat) : TypeSig → TypeSig
  | .leaf kind => .leaf kind
  | .wrapped wrapper inner => .wrapped wrapper (inner.moved distance)
  | .named kind token => .named kind token
  | .genericParameter owner index => .genericParameter owner index
  | .array element rank => .array (element.moved distance) rank
  | .instantiation generic arguments =>
      .instantiation (generic.moved distance) (TypeSig.movedAll distance arguments)
  | .functionPointer signature => .functionPointer (signature.moved distance)
  | .modified modifiers base => .modified modifiers (base.moved distance)

def TypeSig.movedAll (distance : Nat) : List TypeSig → List TypeSig
  | [] => []
  | type :: types => type.moved distance :: TypeSig.movedAll distance types

def MethodSig.moved (distance : Nat) : MethodSig → MethodSig
  | ⟨convention, count, returnType, parameters, varargs⟩ =>
      ⟨convention, count, returnType.moved distance, ParameterSig.movedAll distance parameters,
        ParameterSig.movedAll distance varargs⟩

def ParameterSig.moved (distance : Nat) : ParameterSig → ParameterSig
  | ⟨modifiers, byRef, type, span⟩ =>
      ⟨modifiers, byRef, type.moved distance, span.moved distance⟩

def ParameterSig.movedAll (distance : Nat) : List ParameterSig → List ParameterSig
  | [] => []
  | parameter :: parameters =>
      parameter.moved distance :: ParameterSig.movedAll distance parameters

end

mutual

/-- Whether the type is, or is made of, a function pointer. -/
def TypeSig.hasFunctionPointer : TypeSig → Bool
  | .leaf _ | .named _ _ | .genericParameter _ _ => false
  | .wrapped _ inner => inner.hasFunctionPointer
  | .array element _ => element.hasFunctionPointer
  | .instantiation generic arguments =>
      generic.hasFunctionPointer || TypeSig.anyFunctionPointer arguments
  | .functionPointer _ => true
  | .modified _ base => base.hasFunctionPointer

def TypeSig.anyFunctionPointer : List TypeSig → Bool
  | [] => false
  | type :: types => type.hasFunctionPointer || TypeSig.anyFunctionPointer types

end

/-! Equality of types is equality of all their parts. -/

mutual

theorem TypeSig.same_iff (left right : TypeSig) : left.same right = true ↔ left = right := by
  cases left with
  | leaf kind => cases right <;> simp [TypeSig.same]
  | wrapped wrapper inner =>
      cases right with
      | wrapped _ other => simp [TypeSig.same, inner.same_iff other]
      | _ => simp [TypeSig.same]
  | named kind token => cases right <;> simp [TypeSig.same]
  | genericParameter owner index => cases right <;> simp [TypeSig.same]
  | array element rank =>
      cases right with
      | array other _ => simp [TypeSig.same, element.same_iff other]
      | _ => simp [TypeSig.same]
  | instantiation generic arguments =>
      cases right with
      | instantiation other others =>
          simp [TypeSig.same, generic.same_iff other, TypeSig.sameAll_iff arguments others]
      | _ => simp [TypeSig.same]
  | functionPointer signature =>
      cases right with
      | functionPointer other => simp [TypeSig.same, signature.same_iff other]
      | _ => simp [TypeSig.same]
  | modified modifiers base =>
      cases right with
      | modified _ other => simp [TypeSig.same, base.same_iff other]
      | _ => simp [TypeSig.same]

theorem TypeSig.sameAll_iff (left right : List TypeSig) :
    TypeSig.sameAll left right = true ↔ left = right := by
  cases left with
  | nil => cases right <;> simp [TypeSig.sameAll]
  | cons type types =>
      cases right with
      | nil => simp [TypeSig.sameAll]
      | cons other others =>
          simp [TypeSig.sameAll, type.same_iff other, TypeSig.sameAll_iff types others]

theorem MethodSig.same_iff (left right : MethodSig) : left.same right = true ↔ left = right := by
  obtain ⟨_, _, result, parameters, varargs⟩ := left
  obtain ⟨_, _, otherResult, otherParameters, otherVarargs⟩ := right
  simp [MethodSig.same, result.same_iff otherResult,
    ParameterSig.sameAll_iff parameters otherParameters,
    ParameterSig.sameAll_iff varargs otherVarargs, and_assoc]

theorem ParameterSig.same_iff (left right : ParameterSig) :
    left.same right = true ↔ left = right := by
  obtain ⟨_, _, type, _⟩ := left
  obtain ⟨_, _, other, _⟩ := right
  simp [ParameterSig.same, type.same_iff other, and_assoc]

theorem ParameterSig.sameAll_iff (left right : List ParameterSig) :
    ParameterSig.sameAll left right = true ↔ left = right := by
  cases left with
  | nil => cases right <;> simp [ParameterSig.sameAll]
  | cons parameter parameters =>
      cases right with
      | nil => simp [ParameterSig.sameAll]
      | cons other others =>
          simp [ParameterSig.sameAll, parameter.same_iff other,
            ParameterSig.sameAll_iff parameters others]

end

/-! Spans that move by nothing stay, and all others change. -/

theorem Span.moved_eq_self_iff (distance : Nat) (span : Span) :
    span.moved distance = span ↔ distance = 0 := by
  obtain ⟨start, stop⟩ := span
  simp [Span.moved]

mutual

theorem TypeSig.moved_zero (type : TypeSig) : type.moved 0 = type := by
  cases type with
  | leaf | named | genericParameter => rfl
  | wrapped wrapper inner => rw [TypeSig.moved, inner.moved_zero]
  | array element rank => rw [TypeSig.moved, element.moved_zero]
  | instantiation generic arguments =>
      rw [TypeSig.moved, generic.moved_zero, TypeSig.movedAll_zero arguments]
  | functionPointer signature => rw [TypeSig.moved, signature.moved_zero]
  | modified modifiers base => rw [TypeSig.moved, base.moved_zero]

theorem TypeSig.movedAll_zero (types : List TypeSig) : TypeSig.movedAll 0 types = types := by
  cases types with
  | nil => rfl
  | cons type types => rw [TypeSig.movedAll, type.moved_zero, TypeSig.movedAll_zero types]

theorem MethodSig.moved_zero (signature : MethodSig) : signature.moved 0 = signature := by
  obtain ⟨_, _, result, parameters, varargs⟩ := signature
  rw [MethodSig.moved, result.moved_zero, ParameterSig.movedAll_zero parameters,
    ParameterSig.movedAll_zero varargs]

theorem ParameterSig.moved_zero (parameter : ParameterSig) : parameter.moved 0 = parameter := by
  obtain ⟨_, _, type, span⟩ := parameter
  rw [ParameterSig.moved, type.moved_zero, (span.moved_eq_self_iff 0).mpr rfl]

theorem ParameterSig.movedAll_zero (parameters : List ParameterSig) :
    ParameterSig.movedAll 0 parameters = parameters := by
  cases parameters with
  | nil => rfl
  | cons parameter parameters =>
      rw [ParameterSig.movedAll, parameter.moved_zero, ParameterSig.movedAll_zero parameters]

end

/-- The span of the return type moves with the signature. -/
theorem MethodSig.moved_eq_self_iff (distance : Nat) (signature : MethodSig) :
    signature.moved distance = signature ↔ distance = 0 := by
  constructor
  · intro stays
    obtain ⟨_, _, ⟨_, _, _, span⟩, _, _⟩ := signature
    simp only [MethodSig.moved, ParameterSig.moved, MethodSig.mk.injEq, ParameterSig.mk.injEq]
      at stays
    exact (span.moved_eq_self_iff distance).mp stays.2.2.1.2.2.2
  · rintro rfl
    exact signature.moved_zero

mutual

theorem TypeSig.moved_eq_self_iff (distance : Nat) (type : TypeSig) :
    type.moved distance = type ↔ distance = 0 ∨ type.hasFunctionPointer = false := by
  cases type with
  | leaf | named | genericParameter => simp [TypeSig.moved, TypeSig.hasFunctionPointer]
  | wrapped wrapper inner =>
      simp [TypeSig.moved, TypeSig.hasFunctionPointer, inner.moved_eq_self_iff distance]
  | array element rank =>
      simp [TypeSig.moved, TypeSig.hasFunctionPointer, element.moved_eq_self_iff distance]
  | instantiation generic arguments =>
      simp [TypeSig.moved, TypeSig.hasFunctionPointer, generic.moved_eq_self_iff distance,
        TypeSig.movedAll_eq_self_iff distance arguments, or_and_left]
  | functionPointer signature =>
      simp [TypeSig.moved, TypeSig.hasFunctionPointer, signature.moved_eq_self_iff distance]
  | modified modifiers base =>
      simp [TypeSig.moved, TypeSig.hasFunctionPointer, base.moved_eq_self_iff distance]

theorem TypeSig.movedAll_eq_self_iff (distance : Nat) (types : List TypeSig) :
    TypeSig.movedAll distance types = types ↔
      distance = 0 ∨ TypeSig.anyFunctionPointer types = false := by
  cases types with
  | nil => simp [TypeSig.movedAll, TypeSig.anyFunctionPointer]
  | cons type types =>
      simp [TypeSig.movedAll, TypeSig.anyFunctionPointer, type.moved_eq_self_iff distance,
        TypeSig.movedAll_eq_self_iff distance types, or_and_left]

end

mutual

theorem TypeSig.hasFunctionPointer_moved (distance : Nat) (type : TypeSig) :
    (type.moved distance).hasFunctionPointer = type.hasFunctionPointer := by
  cases type with
  | leaf | named | genericParameter => rfl
  | wrapped wrapper inner => exact inner.hasFunctionPointer_moved distance
  | array element rank => exact element.hasFunctionPointer_moved distance
  | instantiation generic arguments =>
      simp only [TypeSig.moved, TypeSig.hasFunctionPointer,
        generic.hasFunctionPointer_moved distance,
        TypeSig.anyFunctionPointer_moved distance arguments]
  | functionPointer signature => rfl
  | modified modifiers base => exact base.hasFunctionPointer_moved distance

theorem TypeSig.anyFunctionPointer_moved (distance : Nat) (types : List TypeSig) :
    TypeSig.anyFunctionPointer (TypeSig.movedAll distance types) =
      TypeSig.anyFunctionPointer types := by
  cases types with
  | nil => rfl
  | cons type types =>
      simp only [TypeSig.movedAll, TypeSig.anyFunctionPointer,
        type.hasFunctionPointer_moved distance, TypeSig.anyFunctionPointer_moved distance types]

end

theorem TypeSig.movedAll_eq_map (distance : Nat) (types : List TypeSig) :
    TypeSig.movedAll distance types = types.map (TypeSig.moved distance) := by
  induction types with
  | nil => rfl
  | cons type types ih => rw [TypeSig.movedAll, ih, List.map_cons]

theorem ParameterSig.movedAll_eq_map (distance : Nat) (parameters : List ParameterSig) :
    ParameterSig.movedAll distance parameters = parameters.map (ParameterSig.moved distance) := by
  induction parameters with
  | nil => rfl
  | cons parameter parameters ih => rw [ParameterSig.movedAll, ih, List.map_cons]

theorem TypeSig.moved_eq_named_iff {distance : Nat} {type : TypeSig} {kind : NamedKind}
    {token : Token} : type.moved distance = .named kind token ↔ type = .named kind token := by
  cases type <;> simp [TypeSig.moved]

theorem TypeSig.moved_eq_instantiation {distance : Nat} {type : TypeSig} {kind : NamedKind}
    {token : Token} {arguments : List TypeSig}
    (moved : type.moved distance = .instantiation (.named kind token) arguments) :
    ∃ others, type = .instantiation (.named kind token) others := by
  cases type with
  | instantiation generic others =>
      rw [TypeSig.moved, TypeSig.instantiation.injEq, TypeSig.moved_eq_named_iff] at moved
      exact ⟨others, by rw [moved.1]⟩
  | _ => contradiction

/-! The same bytes elsewhere in a blob. -/

/-- Two values agree if they are the same once each is moved on to the place of the other. -/
def Agrees {α : Type} (move : Nat → α → α) (start place : Nat) (value other : α) : Prop :=
  ∀ further back, start + further = place + back → move further value = move back other

/-- Bytes that stand for a value stand for one that agrees with it at any other place. -/
def Form.Moves {α : Type} (form : Form α) (move : Nat → α → α) : Prop :=
  ∀ ⦃start : Nat⦄ ⦃bytes : List UInt8⦄ ⦃value : α⦄ (place : Nat), form start bytes value →
    ∃ other, form place bytes other ∧ Agrees move start place value other

section Agrees

variable {α : Type} {move : Nat → α → α} {start place : Nat} {value other : α}

theorem Agrees.inside (agrees : Agrees move start place value other) {outer outerPlace : Nat}
    (depth : Nat) (reached : start = outer + depth) (reachedPlace : place = outerPlace + depth) :
    Agrees move outer outerPlace value other := by
  intro further back apart
  apply agrees
  omega

theorem Sequence.moves {item : Form α} (each : item.Moves move) {bytes : List UInt8}
    {values : List α} (place : Nat) (sequence : Sequence item start bytes values) :
    ∃ others, Sequence item place bytes others ∧ others.length = values.length ∧
      Agrees (fun distance => List.map (move distance)) start place values others := by
  induction sequence generalizing place with
  | nil => exact ⟨[], .nil place, rfl, fun _ _ _ => rfl⟩
  | @cons start front _ _ _ first _ ih =>
      obtain ⟨other, form, agrees⟩ := each place first
      obtain ⟨others, forms, length, allAgree⟩ := ih (place + front.length)
      refine ⟨other :: others, .cons form forms, by rw [List.length_cons, length]; rfl, ?_⟩
      intro further back apart
      have rest := allAgree.inside front.length rfl rfl further back apart
      simp only at rest
      simp only [List.map_cons, agrees further back apart, rest]

end Agrees

theorem BoundsForm.moves {start : Nat} {bytes : List UInt8} (place : Nat)
    (form : BoundsForm start bytes ()) : BoundsForm place bytes () := by
  have fixed : Form.Moves (fun _ => CompressedForm) fun _ number => number :=
    fun _ _ number _ form => ⟨number, form, fun _ _ _ => rfl⟩
  cases form with
  | @intro _ count rest bounds counted sequence =>
      obtain ⟨others, moved, length, _⟩ := Sequence.moves fixed (place + count.length) sequence
      rw [← length] at counted
      exact .intro counted moved

section Nested

variable {nested : Form TypeSig} (inside : nested.Moves TypeSig.moved)

include inside

theorem ParameterForm.moves : (ParameterForm nested).Moves ParameterSig.moved := by
  intro start bytes parameter place form
  cases form with
  | @byValue _ run bytes _ _ found ended unmarked within =>
      obtain ⟨type, moved, agrees⟩ := inside (place + run.length) within
      refine ⟨_, .byValue found ended unmarked moved, ?_⟩
      intro further back apart
      simp only [ParameterSig.moved, agrees.inside run.length rfl rfl further back apart,
        Span.moved, ParameterSig.mk.injEq, Span.mk.injEq, true_and]
      omega
  | @byReference _ run bytes _ _ found within =>
      obtain ⟨type, moved, agrees⟩ := inside (place + run.length + 1) within
      refine ⟨_, .byReference found moved, ?_⟩
      intro further back apart
      simp only [ParameterSig.moved, agrees.inside (run.length + 1) rfl rfl further back apart,
        Span.moved, ParameterSig.mk.injEq, Span.mk.injEq, true_and]
      omega

theorem ParametersForm.moves {start : Nat} {bytes : List UInt8} {fixed after : List ParameterSig}
    (place : Nat) (forms : ParametersForm nested start bytes (fixed, after)) :
    ∃ otherFixed otherAfter, ParametersForm nested place bytes (otherFixed, otherAfter) ∧
      otherFixed.length = fixed.length ∧ otherAfter.length = after.length ∧
      Agrees ParameterSig.movedAll start place fixed otherFixed ∧
      Agrees ParameterSig.movedAll start place after otherAfter := by
  generalize same : (fixed, after) = parameters at forms
  induction forms generalizing place fixed after with
  | nil =>
      cases same
      exact ⟨[], [], .nil place, rfl, rfl, fun _ _ _ => rfl, fun _ _ _ => rfl⟩
  | sentinel some sequence =>
      cases same
      obtain ⟨others, moved, length, agrees⟩ :=
        Sequence.moves (ParameterForm.moves inside) (place + 1) sequence
      have nonempty : others ≠ [] := by
        intro empty
        rw [empty] at length
        exact some (List.length_eq_zero_iff.mp length.symm)
      refine ⟨[], others, .sentinel nonempty moved, rfl, length, fun _ _ _ => rfl, ?_⟩
      intro further back apart
      rw [ParameterSig.movedAll_eq_map, ParameterSig.movedAll_eq_map]
      exact agrees.inside 1 rfl rfl further back apart
  | @cons _ front _ _ _ _ form _ ih =>
      cases same
      obtain ⟨other, moved, agrees⟩ := ParameterForm.moves inside place form
      obtain ⟨fixed, after, forms, fixedLength, afterLength, fixedAgree, afterAgree⟩ :=
        ih (place + front.length) rfl
      refine ⟨other :: fixed, after, .cons moved forms, by rw [List.length_cons, fixedLength]; rfl,
        afterLength, ?_, afterAgree.inside front.length rfl rfl⟩
      intro further back apart
      rw [ParameterSig.movedAll, ParameterSig.movedAll, agrees further back apart,
        fixedAgree.inside front.length rfl rfl further back apart]

theorem MethodForm.moves : (MethodForm nested).Moves MethodSig.moved := by
  intro start bytes signature place form
  cases form with
  | @intro _ header generics count result bytes _ _ _ _ generic counted resultForm forms =>
      obtain ⟨returnType, resultMoved, resultAgrees⟩ := ParameterForm.moves inside
        (place + 1 + generics.length + count.length) resultForm
      obtain ⟨fixed, after, moved, fixedLength, afterLength, fixedAgree, afterAgree⟩ :=
        ParametersForm.moves inside
          (place + 1 + generics.length + count.length + result.length) forms
      rw [← fixedLength, ← afterLength] at counted
      refine ⟨_, .intro generic counted resultMoved moved, ?_⟩
      intro further back apart
      rw [MethodSig.moved, MethodSig.moved, resultAgrees further back (by omega),
        fixedAgree further back (by omega), afterAgree further back (by omega)]

theorem ContentsForm.moves (element : Element) :
    (ContentsForm nested element).Moves TypeSig.moved := by
  intro start bytes type place form
  cases form with
  | leaf _ kind => exact ⟨_, .leaf place kind, fun _ _ _ => rfl⟩
  | wrapped kind within =>
      obtain ⟨inner, moved, agrees⟩ := inside place within
      refine ⟨_, .wrapped kind moved, ?_⟩
      intro further back apart
      rw [TypeSig.moved, TypeSig.moved, agrees further back apart]
  | named _ kind form => exact ⟨_, .named place kind form, fun _ _ _ => rfl⟩
  | genericParameter _ owner form =>
      exact ⟨_, .genericParameter place owner form, fun _ _ _ => rfl⟩
  | array within ranked sized bounded =>
      obtain ⟨inner, moved, agrees⟩ := inside place within
      refine ⟨_, .array moved ranked (sized.moves _) (bounded.moves _), ?_⟩
      intro further back apart
      rw [TypeSig.moved, TypeSig.moved, agrees further back apart]
  | @instantiation _ generic count _ kind token _ within counted sequence =>
      obtain ⟨inner, moved, agrees⟩ := inside place within
      obtain rfl : inner = .named kind token :=
        TypeSig.moved_eq_named_iff.mp (agrees place start (Nat.add_comm start place)).symm
      obtain ⟨others, argumentsMoved, length, allAgree⟩ :=
        Sequence.moves inside (place + generic.length + count.length) sequence
      rw [← length] at counted
      refine ⟨_, .instantiation moved counted argumentsMoved, ?_⟩
      intro further back apart
      have arguments := allAgree further back (by omega)
      simp only at arguments
      simp only [TypeSig.moved, TypeSig.movedAll_eq_map, arguments]
  | functionPointer form =>
      obtain ⟨signature, moved, agrees⟩ := MethodForm.moves inside place form
      refine ⟨_, .functionPointer moved, ?_⟩
      intro further back apart
      rw [TypeSig.moved, TypeSig.moved, agrees further back apart]
  | @modified _ first run _ _ _ _ required named found ended within =>
      obtain ⟨base, moved, agrees⟩ := inside (place + first.length + run.length) within
      refine ⟨_, .modified required named found ended moved, ?_⟩
      intro further back apart
      rw [TypeSig.moved, TypeSig.moved, agrees further back (by omega)]

end Nested

theorem Within.moves (limit : Nat) : (Within limit).Moves TypeSig.moved := by
  induction limit with
  | zero =>
      intro start bytes type place within
      exact absurd within.2 (Nat.not_lt_zero _)
  | succ limit ih =>
      intro start bytes type place within
      have positive : 0 < limit := Nat.lt_of_lt_of_le type.nesting_pos (Nat.le_of_lt_succ within.2)
      obtain ⟨element, contents, rfl, form⟩ := (within_succ_iff positive).mp within
      obtain ⟨other, moved, agrees⟩ := ContentsForm.moves ih element (place + 1) form
      exact ⟨other, (within_succ_iff positive).mpr ⟨element, contents, rfl, moved⟩,
        agrees.inside 1 rfl rfl⟩

section Within

variable {limit first second start : Nat} {bytes : List UInt8}

/-- What the same bytes stand for at two places agrees. -/
theorem Within.agrees {left right : TypeSig} (leftForm : Within limit first bytes left)
    (rightForm : Within limit second bytes right) :
    Agrees TypeSig.moved first second left right := by
  obtain ⟨other, moved, agrees⟩ := Within.moves limit second leftForm
  have same : other = right := (Reader.typeWithin_exact limit limit).unique moved rightForm
  exact same ▸ agrees

/-- Bytes that stand for a type stand for it when they are alone, but for where spans are counted
from. -/
theorem Within.alone {type : TypeSig} (within : Within limit start bytes type) :
    ∃ alone, Within limit 0 bytes alone ∧ type = alone.moved start := by
  obtain ⟨alone, form, agrees⟩ := Within.moves limit 0 within
  refine ⟨alone, form, ?_⟩
  have moved := agrees 0 start (Nat.add_comm start 0)
  rwa [TypeSig.moved_zero] at moved

/-- The same bytes stand for the same type just if they stand at the same place or no function
pointer is in the type. -/
theorem Within.eq_iff_of_same_bytes {left right : TypeSig}
    (leftForm : Within limit first bytes left) (rightForm : Within limit second bytes right) :
    left = right ↔ first = second ∨ right.hasFunctionPointer = false := by
  have agrees := leftForm.agrees rightForm
  obtain ordered | ordered := Nat.le_total first second
  · obtain ⟨distance, rfl⟩ := Nat.exists_eq_add_of_le ordered
    have moved : left.moved distance = right := by
      rw [agrees distance 0 rfl, TypeSig.moved_zero]
    rw [← moved, TypeSig.hasFunctionPointer_moved, eq_comm, TypeSig.moved_eq_self_iff]
    exact or_congr_left (by omega)
  · obtain ⟨distance, rfl⟩ := Nat.exists_eq_add_of_le ordered
    have moved : right.moved distance = left := by
      rw [← agrees 0 distance rfl, TypeSig.moved_zero]
    rw [← moved, TypeSig.moved_eq_self_iff]
    exact or_congr_left (by omega)

end Within

end CallCapture
