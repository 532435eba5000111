import CallCapture.Proofs.Signature.Locals
import CallCapture.Proofs.Signature.Nesting

/-!
The readers of signatures accept exactly the grammar: types whose nesting is below the limit, and
methods and local variables made of such types.
-/

namespace CallCapture

theorem Within.named_iff {limit start : Nat} {bytes : List UInt8} {type : TypeSig}
    (within : Within limit start bytes type) :
    (∃ kind, Announces (.named kind) bytes) ↔ ∃ kind token, type = .named kind token := by
  obtain ⟨form, -⟩ := within
  cases form with
  | intro element contents =>
      simp only [announces_cons]
      constructor
      · rintro ⟨kind, rfl⟩
        cases contents with
        | named _ _ form => exact ⟨kind, _, rfl⟩
      · rintro ⟨kind, token, rfl⟩
        cases contents with
        | named => exact ⟨kind, rfl⟩

namespace Reader

/-- A type, a number of arguments, and the arguments. -/
inductive AppliedForm (nested : Form TypeSig) : Form TypeSig where
  | intro {start : Nat} {front number rest : List UInt8} {generic : TypeSig}
      {arguments : List TypeSig} :
      nested start front generic → CompressedForm number arguments.length →
      Sequence nested (start + front.length + number.length) rest arguments →
      AppliedForm nested start (front ++ (number ++ rest)) (.instantiation generic arguments)

section Nested

variable {nested : Reader TypeSig} {limit : Nat} (exact : nested.Exact (Within limit))

include exact

theorem array_exact :
    (do
      let element ← nested
      let rank ← compressed
      skipBounds
      skipBounds
      return .array element rank : Reader TypeSig).Exact (ContentsForm (Within limit) .array) := by
  have bounds := fun element rank => skipBounds_exact.bind fun _ =>
    skipBounds_exact.map fun _ => TypeSig.array element rank
  refine (exact.bind fun element => compressed_exact.bind (bounds element)).congr ?_
  intro start bytes type
  constructor
  · rintro ⟨inner, front, _, rfl, within, rank, rankBytes, _, rfl, ranked, ⟨⟩, sizes, lowerBounds,
      rfl, sized, ⟨⟩, bounded, rfl⟩
    exact .array within ranked sized bounded
  · intro form
    cases form with
    | @array _ rank front rankBytes sizes lowerBounds inner within ranked sized bounded =>
        exact ⟨inner, front, _, rfl, within, rank, rankBytes, _, rfl, ranked, (), sizes, lowerBounds,
          rfl, sized, (), bounded, rfl⟩

theorem applied_exact :
    (do
      let generic ← nested
      let announced ← count .genericArgument
      return .instantiation generic (← times nested announced) : Reader TypeSig).Exact
        (AppliedForm (Within limit)) := by
  have arguments := fun generic announced =>
    (times_exact exact announced).map (TypeSig.instantiation generic)
  refine (exact.bind fun generic => (count_looks .genericArgument).bind
    (arguments generic) ?_).congr ?_
  · intro announced start bytes type rest form
    obtain ⟨arguments, ⟨rfl, sequence⟩, -⟩ := form
    have room := sequence.length_le fun _ _ _ => Within.nonempty
    simp only [List.length_append]
    omega
  · intro start bytes type
    constructor
    · rintro ⟨generic, front, _, rfl, within, announced, number, rest, rfl, counted, -, arguments,
        ⟨rfl, sequence⟩, rfl⟩
      exact .intro within counted sequence
    · rintro (⟨within, counted, sequence⟩)
      have room := sequence.length_le fun _ _ _ => Within.nonempty
      exact ⟨_, _, _, rfl, within, _, _, _, rfl, counted, room, _, ⟨rfl, sequence⟩, rfl⟩

theorem instantiation_exact :
    (instantiation nested).Exact (ContentsForm (Within limit) .instantiation) := by
  refine Exact.congr (peek_looks.bind (fun code => (?_ : Exact _ fun start bytes type =>
    (∃ kind, code = (Element.named kind).code) ∧
      AppliedForm (Within limit) start bytes type)) ?_) ?_
  · split
    next kind selected =>
      have announced := Element.ofCode?_eq_some_iff.mp selected
      refine (applied_exact exact).congr fun start bytes type => ?_
      exact ⟨fun form => ⟨⟨kind, announced⟩, form⟩, And.right⟩
    next other =>
      refine (throw_exact _).congr fun start bytes type => ⟨False.elim, ?_⟩
      rintro ⟨⟨kind, announced⟩, -⟩
      exact other kind (Element.ofCode?_eq_some_iff.mpr announced)
  · rintro code start bytes type rest ⟨-, ⟨within, -⟩⟩
    have nonempty := within.nonempty
    rw [head?_append_of_nonempty (by simp [nonempty])]
  · intro start bytes type
    constructor
    · rintro ⟨code, _, bytes, rfl, rfl, first, ⟨kind, rfl⟩, ⟨within, counted, sequence⟩⟩
      rw [head?_append_of_nonempty within.nonempty] at first
      obtain ⟨kind, token, rfl⟩ := within.named_iff.mp ⟨kind, first⟩
      have form := ContentsForm.instantiation within counted sequence
      exact form
    · intro form
      cases form with
      | @instantiation _ front number rest _ _ _ within counted sequence =>
          obtain ⟨kind, announced⟩ := within.named_iff.mpr ⟨_, _, rfl⟩
          refine ⟨_, [], front ++ (number ++ rest), rfl, rfl, ?_, ⟨kind, rfl⟩,
            .intro within counted sequence⟩
          rw [head?_append_of_nonempty within.nonempty]
          exact announced

theorem modified_exact (required : Bool) :
    (do
      let first ← token
      let others ← modifiers
      return .modified (⟨required, first⟩ :: others) (← nested) : Reader TypeSig).Exact
        (ContentsForm (Within limit) (.modifier required)) := by
  have base := fun modifiers => exact.map (TypeSig.modified modifiers)
  refine (token_exact.bind fun first => modifiers_looks.bind
    (fun others => base (⟨required, first⟩ :: others)) ?_).congr ?_
  · rintro others start bytes type rest ⟨inner, within, -⟩
    exact noModifier_append within.nonempty rest
  · intro start bytes type
    constructor
    · rintro ⟨first, front, _, rfl, named, others, run, bytes, rfl, found, ended, inner, within,
        rfl⟩
      exact .modified required named found ended within
    · intro form
      cases form with
      | @modified _ front run bytes first others inner _ named found ended within =>
          exact ⟨first, front, _, rfl, named, others, run, bytes, rfl, found, ended, inner, within,
            rfl⟩

/-- What the element announces is read by its own reader. -/
theorem typeOver_exact : (typeOver nested).Exact fun start bytes type =>
    ∃ element contents, bytes = element.code :: contents ∧
      ContentsForm (Within limit) element (start + 1) contents type := by
  refine Exact.congr (byte_exact.bind fun code => (?_ : Exact _ fun start bytes type =>
    ∃ element, Element.ofCode? code = some element ∧
      ContentsForm (Within limit) element start bytes type)) ?_
  · cases selected : Element.ofCode? code with
    | none => exact (throw_exact _).congr (by simp)
    | some element =>
        have only : ∀ start bytes type, ContentsForm (Within limit) element start bytes type ↔
            ∃ other, some element = some other ∧
              ContentsForm (Within limit) other start bytes type := by simp
        refine Exact.congr ?_ only
        cases element with
        | leaf kind =>
            refine (pure_exact (TypeSig.leaf kind)).congr fun start bytes type => ⟨?_, ?_⟩
            · rintro ⟨rfl, rfl⟩
              exact .leaf start kind
            · intro form
              cases form with
              | leaf => exact ⟨rfl, rfl⟩
        | wrapper kind =>
            refine (exact.map (TypeSig.wrapped kind)).congr fun start bytes type => ⟨?_, ?_⟩
            · rintro ⟨inner, within, rfl⟩
              exact .wrapped kind within
            · intro form
              cases form with
              | wrapped _ within => exact ⟨_, within, rfl⟩
        | named kind =>
            refine (token_exact.map (TypeSig.named kind)).congr fun start bytes type => ⟨?_, ?_⟩
            · rintro ⟨token, form, rfl⟩
              exact .named start kind form
            · intro form
              cases form with
              | named _ _ form => exact ⟨_, form, rfl⟩
        | genericParameter owner =>
            refine (compressed_exact.map (TypeSig.genericParameter owner)).congr
              fun start bytes type => ⟨?_, ?_⟩
            · rintro ⟨index, form, rfl⟩
              exact .genericParameter start owner form
            · intro form
              cases form with
              | genericParameter _ _ form => exact ⟨_, form, rfl⟩
        | array => exact array_exact exact
        | instantiation => exact instantiation_exact exact
        | functionPointer =>
            refine ((method_exact exact).map TypeSig.functionPointer).congr
              fun start bytes type => ⟨?_, ?_⟩
            · rintro ⟨signature, form, rfl⟩
              exact .functionPointer form
            · intro form
              cases form with
              | functionPointer form => exact ⟨_, form, rfl⟩
        | modifier required => exact modified_exact exact required
  · intro start bytes type
    constructor
    · rintro ⟨code, _, contents, rfl, rfl, element, selected, form⟩
      exact ⟨element, contents, by rw [Element.ofCode?_eq_some_iff.mp selected]; rfl, form⟩
    · rintro ⟨element, contents, rfl, form⟩
      exact ⟨_, [element.code], contents, rfl, rfl, element, element.ofCode?_code, form⟩

end Nested

theorem typeWithin_exact (limit budget : Nat) : (typeWithin limit budget).Exact (Within budget) := by
  have none : ∀ budget ≤ 1, ∀ start bytes type, False ↔ Within budget start bytes type := by
    intro budget least start bytes type
    refine ⟨False.elim, fun within => ?_⟩
    have positive := type.nesting_pos
    have below := within.2
    omega
  cases budget with
  | zero => exact (throw_exact _).congr (none 0 (Nat.zero_le 1))
  | succ budget =>
      induction budget with
      | zero => exact (throw_exact _).congr (none 1 (Nat.le_refl 1))
      | succ budget ih =>
          refine (typeOver_exact ih).congr fun start bytes type => ?_
          exact (within_succ_iff (Nat.succ_pos budget)).symm

/-- Reading a type, a method or local variables succeeds on just the encodings of the grammar whose
types nest below the limit, gives what is encoded, and stops right after it, whatever follows. -/
theorem accepts_grammar (limit : Nat) :
    (type limit).Exact (Within limit) ∧ (method limit).Exact (MethodForm (Within limit)) ∧
      (localVariables limit).Exact (LocalsForm (Within limit)) :=
  ⟨typeWithin_exact limit limit, method_exact (typeWithin_exact limit limit),
    localVariables_exact (typeWithin_exact limit limit)⟩

end Reader

end CallCapture
