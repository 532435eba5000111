import CallCapture.Proofs.Signature.Counting
import CallCapture.Proofs.Signature.Spans

/-!
The spans of a decoded method and of the function pointers inside it. Those of one signature cover
one part of the blob after another, and the bytes of each are decoded alone to the type that was
decoded in place, but for where the spans in it are counted from.
-/

namespace CallCapture

/-- The return type, the parameters and the varargs, in the order in which they are written. -/
def MethodSig.allParameters (signature : MethodSig) : List ParameterSig :=
  signature.returnType :: (signature.parameters ++ signature.varargs)

/-- The signature is that of a function pointer somewhere in the type. -/
inductive TypeSig.Contains (inner : MethodSig) : TypeSig → Prop where
  | here : TypeSig.Contains inner (.functionPointer inner)
  | parameter {signature : MethodSig} {parameter : ParameterSig} :
      parameter ∈ signature.allParameters → TypeSig.Contains inner parameter.type →
      TypeSig.Contains inner (.functionPointer signature)
  | wrapped {type : TypeSig} (wrapper : Wrapper) :
      TypeSig.Contains inner type → TypeSig.Contains inner (.wrapped wrapper type)
  | element {type : TypeSig} (rank : Nat) :
      TypeSig.Contains inner type → TypeSig.Contains inner (.array type rank)
  | generic {type : TypeSig} (arguments : List TypeSig) :
      TypeSig.Contains inner type → TypeSig.Contains inner (.instantiation type arguments)
  | argument {argument : TypeSig} {arguments : List TypeSig} (type : TypeSig) :
      argument ∈ arguments → TypeSig.Contains inner argument →
      TypeSig.Contains inner (.instantiation type arguments)
  | modified {type : TypeSig} (modifiers : List Modifier) :
      TypeSig.Contains inner type → TypeSig.Contains inner (.modified modifiers type)

/-- The signature itself, and those of the function pointers in its types. -/
def MethodSig.Contains (signature inner : MethodSig) : Prop :=
  inner = signature ∨ ∃ parameter ∈ signature.allParameters, parameter.type.Contains inner

variable {limit start stop : Nat} {bytes : List UInt8}

/-! ### Signatures inside a signature -/

section Contains

variable {type : TypeSig} {signature inner : MethodSig}

/-- What is inside all that the code of a type may announce is inside the type. -/
theorem Within.of_contents {α : Type} {form : Form α} {value : α}
    (within : Within limit start bytes type)
    (each : ∀ element start bytes, ContentsForm (Within limit) element start bytes type →
      Inside form start bytes value) : Inside form start bytes value := by
  obtain ⟨written, below⟩ := within
  cases written with
  | @intro _ contents _ element written =>
      have positive : 0 < limit := Nat.zero_lt_of_lt below
      have form := (ContentsForm.within_iff positive).mpr ⟨written, Nat.lt_succ_of_lt below⟩
      have reached : start + 1 = start + [element.code].length := rfl
      exact (each element _ _ form).after reached

theorem MethodForm.spanned {nested : Form TypeSig}
    (form : MethodForm nested start bytes signature) :
    ∀ parameter ∈ signature.allParameters, Inside (Spanned nested) start bytes parameter := by
  intro parameter among
  exact (form.inside parameter among).trans fun _ _ written => written.spanned

/-- By induction on where the signature is in the type, for all places of the type at once. -/
theorem TypeSig.Contains.inside (contains : type.Contains inner)
    (within : Within limit start bytes type) :
    Inside (MethodForm (Within limit)) start bytes inner := by
  induction contains generalizing start bytes with
  | here =>
      refine within.of_contents fun element start bytes form => ?_
      cases form with
      | functionPointer form => exact .here form
  | parameter among _ ih =>
      refine within.of_contents fun element start bytes form => ?_
      cases form with
      | functionPointer form =>
          exact (form.spanned _ among).trans fun _ _ spanned => ih spanned.2
  | wrapped wrapper _ ih =>
      refine within.of_contents fun element start bytes form => ?_
      cases form with
      | wrapped _ within => exact ih within
  | element rank _ ih =>
      refine within.of_contents fun element start bytes form => ?_
      cases form with
      | array within => exact (ih within).before _
  | generic arguments _ ih =>
      refine within.of_contents fun element start bytes form => ?_
      cases form with
      | instantiation named => exact (ih named).before _
  | argument type among _ ih =>
      refine within.of_contents fun element start bytes form => ?_
      cases form with
      | instantiation _ _ sequence =>
          have inside := (sequence.inside _ among).trans fun _ _ => ih
          exact (inside.after rfl).after rfl
  | modified modifiers _ ih =>
      refine within.of_contents fun element start bytes form => ?_
      cases form with
      | modified _ _ _ _ within => exact ((ih within).after rfl).after rfl

theorem MethodForm.contains_inside (form : MethodForm (Within limit) start bytes signature)
    (contains : signature.Contains inner) :
    Inside (MethodForm (Within limit)) start bytes inner := by
  rcases contains with rfl | ⟨parameter, among, contains⟩
  · exact .here form
  · exact (form.spanned parameter among).trans fun _ _ spanned => contains.inside spanned.2

end Contains

/-! ### Spans one after another -/

/-- The spans of parameters stand between two positions, one after another, and none is empty. -/
structure Laid (start stop : Nat) (parameters : List ParameterSig) : Prop where
  between : ∀ parameter ∈ parameters, start ≤ parameter.span.start ∧
    parameter.span.start < parameter.span.stop ∧ parameter.span.stop ≤ stop
  ordered : parameters.Pairwise fun first second => first.span.stop ≤ second.span.start

namespace Laid

variable {parameters : List ParameterSig}

theorem nil : Laid start stop [] :=
  ⟨nofun, .nil⟩

theorem widen {outer last : Nat} (laid : Laid start stop parameters) (before : outer ≤ start)
    (after : stop ≤ last) : Laid outer last parameters := by
  refine ⟨fun parameter among => ?_, laid.ordered⟩
  have := laid.between parameter among
  omega

theorem cons {middle : Nat} {parameter : ParameterSig}
    (first : start ≤ parameter.span.start ∧ parameter.span.start < parameter.span.stop ∧
      parameter.span.stop ≤ middle)
    (others : Laid middle stop parameters) (onward : middle ≤ stop) :
    Laid start stop (parameter :: parameters) := by
  have further : Laid start stop parameters := others.widen (by omega) (Nat.le_refl stop)
  constructor
  · intro other among
    rcases List.mem_cons.mp among with rfl | among
    · omega
    · exact further.between other among
  · refine List.pairwise_cons.mpr ⟨fun other among => ?_, others.ordered⟩
    exact Nat.le_trans first.2.2 (others.between other among).1

end Laid

section Laid

variable {nested : Form TypeSig}
  (nonempty : ∀ start bytes type, nested start bytes type → bytes ≠ [])

include nonempty

theorem ParameterForm.between {parameter : ParameterSig}
    (form : ParameterForm nested start bytes parameter) :
    start ≤ parameter.span.start ∧ parameter.span.start < parameter.span.stop ∧
      parameter.span.stop ≤ start + bytes.length := by
  obtain ⟨front, encoded, back, rfl, span, type⟩ := form.spanned
  have some := List.length_pos_iff.mpr (nonempty _ _ _ type)
  rw [span]
  simp only [List.length_append]
  omega

theorem Sequence.laid {parameters : List ParameterSig}
    (sequence : Sequence (ParameterForm nested) start bytes parameters) :
    Laid start (start + bytes.length) parameters := by
  induction sequence with
  | nil => exact .nil
  | cons first _ ih =>
      rw [List.length_append, ← Nat.add_assoc]
      exact .cons (first.between nonempty) ih (Nat.le_add_right ..)

theorem ParametersForm.laid {parameters : List ParameterSig × List ParameterSig}
    (forms : ParametersForm nested start bytes parameters) :
    Laid start (start + bytes.length) (parameters.1 ++ parameters.2) := by
  induction forms with
  | nil => exact .nil
  | sentinel _ sequence =>
      have laid := sequence.laid nonempty
      refine laid.widen (Nat.le_succ _) ?_
      rw [List.length_cons]
      omega
  | cons first _ ih =>
      rw [List.length_append, ← Nat.add_assoc]
      exact .cons (first.between nonempty) ih (Nat.le_add_right ..)

theorem MethodForm.laid {signature : MethodSig} (form : MethodForm nested start bytes signature) :
    Laid start (start + bytes.length) signature.allParameters := by
  cases form with
  | @intro _ header generics count result rest _ _ _ _ _ _ resultForm forms =>
      have others := forms.laid nonempty
      have all := Laid.cons (resultForm.between nonempty) others (Nat.le_add_right ..)
      refine all.widen ?_ ?_
      · omega
      · simp only [List.length_cons, List.length_append]
        omega

end Laid

/-! ### The bytes of a span on their own -/

namespace Decoder

variable {blob : List UInt8} {signature inner : MethodSig} {after : Decoder}

theorem method_inside (decoded : Decoder.method (.ofBytes limit blob) = .ok signature after)
    (contains : signature.Contains inner) :
    Inside (MethodForm (Within limit)) 0 blob inner := by
  obtain ⟨later, read, _⟩ := method_eq_ok_iff.mp decoded
  have exact := Reader.method_exact (Reader.typeWithin_exact limit limit)
  obtain ⟨bytes, split, _, form⟩ := (exact 0 blob signature later).mp read
  have split : blob = bytes ++ later.rest := split
  rw [split]
  exact (form.contains_inside contains).before later.rest

theorem type_alone {type : TypeSig} (within : Within limit start bytes type) :
    ∃ alone, Decoder.type (.ofBytes limit bytes) = .ok alone ⟨⟨bytes.length, []⟩, 0, limit⟩ ∧
      type = alone.moved start := by
  obtain ⟨alone, form, moved⟩ := within.alone
  have read := (Reader.typeWithin_exact limit limit).whole_iff.mpr form
  rw [Nat.zero_add] at read
  exact ⟨alone, type_eq_ok_iff.mpr ⟨_, read, rfl⟩, moved⟩

/-- The spans of a decoded method, and of the function pointers inside it, delimit their types. -/
theorem spans_delimit (decoded : Decoder.method (.ofBytes limit blob) = .ok signature after)
    (contains : signature.Contains inner) :
    inner.allParameters.Pairwise (fun first second => first.span.stop ≤ second.span.start) ∧
      ∀ parameter ∈ inner.allParameters, parameter.span.start < parameter.span.stop ∧
        parameter.span.stop ≤ blob.length ∧
        ∃ alone, Decoder.type (.ofBytes limit (parameter.span.slice blob)) =
            .ok alone ⟨⟨(parameter.span.slice blob).length, []⟩, 0, limit⟩ ∧
          parameter.type = alone.moved parameter.span.start := by
  have inside := method_inside decoded contains
  have ⟨front, encoded, back, split, form⟩ := inside
  have laid := form.laid fun _ _ _ => Within.nonempty
  refine ⟨laid.ordered, fun parameter among => ?_⟩
  obtain ⟨_, some, stops⟩ := laid.between parameter among
  have written := inside.trans fun _ _ form => form.spanned parameter among
  refine ⟨some, ?_, type_alone written.slice⟩
  rw [split, List.length_append, List.length_append]
  omega

/-- A method that takes a modified reference to a function pointer, whose own spans are further in. -/
theorem spans_delimit_pointer :
    let blob : List UInt8 :=
      [0x20, 0x01, 0x01, 0x1F, 0x42, 0x10, 0x1B, 0x00, 0x01, 0x08, 0x0F, 0x0E]
    let text : ParameterSig := ⟨[], false, .wrapped .pointer (.leaf .string), ⟨10, 12⟩⟩
    let inner : MethodSig := ⟨.ofHeader 0, 0, ⟨[], false, .leaf .i4, ⟨9, 10⟩⟩, [text], []⟩
    let signature : MethodSig := ⟨.ofHeader 0x20, 0, ⟨[], false, .leaf .void, ⟨2, 3⟩⟩,
      [⟨[⟨0x1B000010⟩], true, .functionPointer inner, ⟨6, 12⟩⟩], []⟩
    Decoder.method (.ofBytes 4 blob) = .ok signature ⟨⟨12, []⟩, 0, 4⟩ ∧ signature.Contains inner ∧
      text.span.stop ≤ blob.length ∧
      ∃ alone, Decoder.type (.ofBytes 4 [0x0F, 0x0E]) = .ok alone ⟨⟨2, []⟩, 0, 4⟩ ∧
        text.type = alone.moved 10 := by
  intro blob text inner signature
  have read : Reader.method 4 ⟨0, blob⟩ = .ok signature ⟨12, []⟩ := rfl
  have decoded := method_eq_ok_iff.mpr ⟨_, read, rfl⟩
  have pointer : ⟨[⟨0x1B000010⟩], true, .functionPointer inner, ⟨6, 12⟩⟩ ∈
      signature.allParameters := .tail _ (.head _)
  have contains : signature.Contains inner := .inr ⟨_, pointer, .here⟩
  have among : text ∈ inner.allParameters := .tail _ (.head _)
  obtain ⟨_, stops, alone⟩ := (spans_delimit decoded contains).2 text among
  exact ⟨decoded, contains, stops, alone⟩

end Decoder

end CallCapture
