import CallCapture.Proofs.Signature.Runs

/-!
Parameters and methods are read exactly, if the types inside them are.
-/

namespace CallCapture

theorem ne_nil_of_announces {bytes : List UInt8} (announced : ∃ element, Announces element bytes) :
    bytes ≠ [] := by
  rintro rfl
  obtain ⟨element, first⟩ := announced
  cases first

theorem Within.announces {limit start : Nat} {bytes : List UInt8} {type : TypeSig}
    (within : Within limit start bytes type) : ∃ element, Announces element bytes := by
  obtain ⟨form, -⟩ := within
  cases form with
  | intro element contents => exact ⟨element, rfl⟩

theorem Within.nonempty {limit start : Nat} {bytes : List UInt8} {type : TypeSig}
    (within : Within limit start bytes type) : bytes ≠ [] :=
  ne_nil_of_announces within.announces

theorem ParameterForm.announces {limit start : Nat} {bytes : List UInt8}
    {parameter : ParameterSig} (form : ParameterForm (Within limit) start bytes parameter) :
    ∃ element, Announces element bytes := by
  cases form with
  | byValue found _ _ within =>
      cases found with
      | nil => exact within.announces
      | cons required => exact ⟨_, rfl⟩
  | byReference found within =>
      cases found with
      | nil => exact ⟨_, rfl⟩
      | cons required => exact ⟨_, rfl⟩

theorem ParametersForm.announces {limit start : Nat} {bytes : List UInt8}
    {parameters : List ParameterSig × List ParameterSig}
    (forms : ParametersForm (Within limit) start bytes parameters) (some : parameters.1 ≠ []) :
    ∃ element, Announces element bytes := by
  cases forms with
  | nil => contradiction
  | sentinel => contradiction
  | cons form _ =>
      obtain ⟨element, announced⟩ := form.announces
      obtain ⟨rest, rfl⟩ := List.head?_eq_some_iff.mp announced
      exact ⟨element, rfl⟩

/-- Every parameter takes a byte at least. -/
theorem ParametersForm.length_le {limit start : Nat} {bytes : List UInt8}
    {parameters : List ParameterSig × List ParameterSig}
    (forms : ParametersForm (Within limit) start bytes parameters) :
    parameters.1.length + parameters.2.length ≤ bytes.length := by
  have nonempty : ∀ start bytes parameter,
      ParameterForm (Within limit) start bytes parameter → bytes ≠ [] :=
    fun _ _ _ form => ne_nil_of_announces form.announces
  induction forms with
  | nil => exact Nat.le_refl _
  | sentinel _ sequence =>
      have most := sequence.length_le nonempty
      simp only [List.length_nil, List.length_cons]
      omega
  | cons form _ ih =>
      have some := List.length_pos_iff.mpr (nonempty _ _ _ form)
      simp only [List.length_cons, List.length_append] at ih ⊢
      omega

namespace Reader

/-- A type between the positions that its span tells. -/
theorem spanned_exact {α : Type} {reader : Reader TypeSig} {form : Form TypeSig}
    (exact : reader.Exact form) (build : TypeSig → Span → α) :
    (do
      let start ← pos
      let type ← reader
      let stop ← pos
      return build type ⟨start, stop⟩ : Reader α).Exact fun start bytes value =>
        ∃ type, form start bytes type ∧ value = build type ⟨start, start + bytes.length⟩ := by
  refine (pos_exact.bind fun start => exact.bind fun type =>
    pos_exact.map fun stop => build type ⟨start, stop⟩).congr ?_
  intro start bytes value
  constructor
  · rintro ⟨_, _, _, rfl, ⟨rfl, rfl⟩, type, front, _, rfl, found, _, ⟨rfl, rfl⟩, rfl⟩
    simpa using ⟨type, found, rfl⟩
  · rintro ⟨type, found, rfl⟩
    exact ⟨start, [], bytes, rfl, ⟨rfl, rfl⟩, type, bytes, [], (List.append_nil bytes).symm, found,
      start + bytes.length, ⟨rfl, rfl⟩, rfl⟩

/-- The parameters of a method, after its header and generic parameters. -/
def countedOver (nested : Reader TypeSig) (convention : CallingConvention) (genericCount : Nat) :
    Reader MethodSig := do
  let announced ← count .parameter
  let returnType ← parameter nested
  let (fixed, after) ← parameters nested announced
  return ⟨convention, genericCount, returnType, fixed, after⟩

theorem methodOver_eq (nested : Reader TypeSig) :
    methodOver nested = byte >>= fun header =>
      (if (CallingConvention.ofHeader header).generic = true then compressed else pure 0) >>=
        countedOver nested (.ofHeader header) := by
  refine congrArg (byte >>= ·) (funext fun header => ?_)
  cases generic : (CallingConvention.ofHeader header).generic with
  | true =>
      simp only [generic, if_true]
      rfl
  | false =>
      simp only [generic, Bool.false_eq_true, if_false]
      rfl

section Nested

variable {nested : Reader TypeSig} {limit : Nat} (exact : nested.Exact (Within limit))

include exact

theorem parameter_exact : (parameter nested).Exact (ParameterForm (Within limit)) := by
  have typed := fun tokens byRef => spanned_exact exact (ParameterSig.mk tokens byRef)
  refine (modifierTokens_looks.bind
    (fun tokens => (accept_looks _).bind (typed tokens) ?_) ?_).congr ?_
  · rintro byRef start bytes parameter rest ⟨type, within, -⟩
    rw [head?_append_of_nonempty within.nonempty]
  · rintro tokens start _ parameter rest ⟨byRef, mark, bytes, rfl, -, -, type, within, -⟩
    exact noModifier_append (by simp [within.nonempty]) rest
  · intro start bytes parameter
    constructor
    · rintro ⟨_, run, _, rfl, ⟨modifiers, found, rfl⟩, ended, byRef, _, bytes, rfl, rfl, unmarked,
        type, within, rfl⟩
      cases byRef with
      | true =>
          have form := ParameterForm.byReference found within
          simpa using form
      | false =>
          obtain ⟨other, first, different⟩ := unmarked rfl
          exact .byValue found ended ((not_announces_iff first).mpr different) within
    · intro form
      cases form with
      | @byValue _ run bytes modifiers type found ended unmarked within =>
          obtain ⟨element, announced⟩ := within.announces
          exact ⟨_, run, bytes, rfl, ⟨modifiers, found, rfl⟩, ended, false, [], bytes, rfl, rfl,
            fun _ => ⟨_, announced, (not_announces_iff announced).mp unmarked⟩, type, within, rfl⟩
      | @byReference _ run bytes modifiers type found within =>
          have ended : NoModifier ((Element.wrapper .byRef).code :: bytes) := by
            intro required announced
            cases announces_cons.mp announced
          exact ⟨_, run, _, rfl, ⟨modifiers, found, rfl⟩, ended, true, [_], bytes, rfl, rfl,
            nofun, type, within, rfl⟩

/-- Once a sentinel has come, all that follow are variable parameters. -/
theorem afterSentinel_exact (count : Nat) :
    (do return ([], ← varargs nested count) : Reader (List ParameterSig × List ParameterSig)).Exact
      fun start bytes value => value.1 = [] ∧ value.2.length = count ∧
        Sequence (ParameterForm (Within limit)) start bytes value.2 := by
  have all := times_exact (parameter_exact exact) count
  refine (all.map fun after => ([], after)).congr ?_
  rintro start bytes value
  constructor
  · rintro ⟨after, ⟨size, sequence⟩, rfl⟩
    exact ⟨rfl, size, sequence⟩
  · rintro ⟨none, size, sequence⟩
    exact ⟨value.2, ⟨size, sequence⟩, Prod.ext none rfl⟩

theorem parameters_exact (count : Nat) : (parameters nested count).Exact
    fun start bytes value => value.1.length + value.2.length = count ∧
      ParametersForm (Within limit) start bytes value := by
  induction count with
  | zero =>
      refine (pure_exact _).congr ?_
      rintro start bytes value
      constructor
      · rintro ⟨rfl, rfl⟩
        exact ⟨rfl, .nil start⟩
      · rintro ⟨none, form⟩
        cases form with
        | nil => exact ⟨rfl, rfl⟩
        | sentinel some => simp_all
        | cons => simp at none
  | succ count ih =>
      have more := fun first => ih.map fun others => (first :: others.1, others.2)
      have branch : ∀ found, Exact (
          if found = true then do return ([], ← varargs nested (count + 1))
          else do
            let first ← parameter nested
            let (fixed, after) ← parameters nested count
            return (first :: fixed, after)) fun start bytes value =>
          value.1.length + value.2.length = count + 1 ∧
            if found = true then
              value.1 = [] ∧ Sequence (ParameterForm (Within limit)) start bytes value.2
            else value.1 ≠ [] ∧ ParametersForm (Within limit) start bytes value := by
        intro found
        cases found with
        | true =>
            refine (afterSentinel_exact exact (count + 1)).congr ?_
            rintro start bytes ⟨fixed, after⟩
            constructor
            · rintro ⟨rfl, size, sequence⟩
              exact ⟨by simpa using size, rfl, sequence⟩
            · rintro ⟨size, rfl, sequence⟩
              exact ⟨rfl, by simpa using size, sequence⟩
        | false =>
            refine ((parameter_exact exact).bind more).congr ?_
            rintro start bytes value
            constructor
            · rintro ⟨first, front, back, rfl, form, others, ⟨size, forms⟩, rfl⟩
              refine ⟨?_, List.cons_ne_nil _ _, .cons form forms⟩
              simp only [List.length_cons]
              omega
            · rintro ⟨size, some, forms⟩
              cases forms with
              | nil => contradiction
              | sentinel => contradiction
              | @cons _ front back first fixed after form forms =>
                  have left : fixed.length + after.length = count := by
                    simp only [List.length_cons] at size
                    omega
                  exact ⟨first, front, back, rfl, form, (fixed, after), ⟨left, forms⟩, rfl⟩
      refine ((accept_looks _).bind branch ?_).congr ?_
      · rintro found start bytes value rest ⟨-, form⟩
        cases found with
        | true => simp
        | false =>
            have some := ne_nil_of_announces (form.2.announces form.1)
            rw [head?_append_of_nonempty some]
      · rintro start bytes value
        constructor
        · rintro ⟨found, _, bytes, rfl, rfl, unmarked, size, form⟩
          cases found with
          | true =>
              obtain ⟨fixed, after⟩ := value
              obtain ⟨rfl, sequence⟩ := form
              refine ⟨size, .sentinel ?_ sequence⟩
              rintro rfl
              cases size
          | false => exact ⟨size, form.2⟩
        · rintro ⟨size, forms⟩
          cases forms with
          | nil => cases size
          | sentinel some sequence =>
              exact ⟨true, [_], _, rfl, rfl, nofun, size, rfl, sequence⟩
          | cons form forms =>
              have all := ParametersForm.cons form forms
              obtain ⟨element, announced⟩ := all.announces (List.cons_ne_nil _ _)
              exact ⟨false, [], _, rfl, rfl,
                fun _ => ⟨element.code, announced, element.code_ne_sentinel⟩, size,
                List.cons_ne_nil _ _, all⟩

theorem counted_exact (convention : CallingConvention) (genericCount : Nat) :
    (countedOver nested convention genericCount).Exact fun start bytes signature =>
      ∃ number result rest returnType fixed after, bytes = number ++ (result ++ rest) ∧
        signature = ⟨convention, genericCount, returnType, fixed, after⟩ ∧
        CompressedForm number (fixed.length + after.length) ∧
        ParameterForm (Within limit) (start + number.length) result returnType ∧
        ParametersForm (Within limit) (start + number.length + result.length) rest
          (fixed, after) := by
  have types := fun announced => (parameter_exact exact).bind fun returnType =>
    (parameters_exact exact announced).map fun parameters =>
      MethodSig.mk convention genericCount returnType parameters.1 parameters.2
  refine ((count_looks .parameter).bind types ?_).congr ?_
  · intro announced start bytes signature rest form
    obtain ⟨returnType, result, _, rfl, -, parameters, ⟨size, forms⟩, -⟩ := form
    have room := forms.length_le
    simp only [List.length_append]
    omega
  · intro start bytes signature
    constructor
    · rintro ⟨announced, number, _, rfl, form, -, returnType, result, rest, rfl, resultForm,
        parameters, ⟨rfl, forms⟩, rfl⟩
      exact ⟨number, result, rest, returnType, _, _, rfl, rfl, form, resultForm, forms⟩
    · rintro ⟨number, result, rest, returnType, fixed, after, rfl, rfl, form, resultForm, forms⟩
      have room := forms.length_le
      refine ⟨_, number, _, rfl, form, ?_, returnType, result, rest, rfl, resultForm,
        (fixed, after), ⟨rfl, forms⟩, rfl⟩
      simp only [List.length_append] at room ⊢
      omega

theorem method_exact : (methodOver nested).Exact (MethodForm (Within limit)) := by
  have steps := fun header => (genericCount_exact (CallingConvention.ofHeader header).generic).bind
    (counted_exact exact (CallingConvention.ofHeader header))
  rw [methodOver_eq]
  refine (byte_exact.bind steps).congr ?_
  intro start bytes signature
  constructor
  · rintro ⟨header, _, _, rfl, rfl, genericCount, generics, _, rfl, generic, number, result, rest,
      returnType, fixed, after, rfl, rfl, counted, resultForm, forms⟩
    have form := MethodForm.intro generic counted resultForm forms
    exact form
  · intro form
    cases form with
    | @intro _ header generics number result rest genericCount returnType fixed after generic
        counted resultForm forms =>
        exact ⟨header, [header], _, rfl, rfl, genericCount, generics, _, rfl, generic, number,
          result, rest, returnType, fixed, after, rfl, rfl, counted, resultForm, forms⟩

end Nested

end Reader

end CallCapture
