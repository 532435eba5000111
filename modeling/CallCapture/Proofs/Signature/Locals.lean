import CallCapture.Proofs.Signature.Methods

/-!
Local variables are read exactly, if the types inside them are: a run of modifiers and pinned marks
is read up to its end.
-/

namespace CallCapture

/-- Something follows that is no further mark. -/
def MarksEnd (rest : List UInt8) : Prop :=
  NoModifier rest ∧ ∃ next, rest.head? = some next ∧ next ≠ (Element.wrapper .pinned).code

theorem ModifierRun.append_marks {run rest : List UInt8} {modifiers : List Modifier}
    {others : List Token} {pinned : Bool} (first : ModifierRun run modifiers)
    (marks : MarkRun rest others pinned) :
    MarkRun (run ++ rest) (modifiers.map Modifier.type ++ others) pinned := by
  induction first with
  | nil => exact marks
  | @cons named run type others required form _ ih =>
      rw [List.cons_append, List.append_assoc]
      exact .modifier required form ih

/-- A run of marks is a run of modifiers, alone or in front of a pinned mark and further marks. -/
theorem MarkRun.split {bytes : List UInt8} {tokens : List Token} {pinned : Bool}
    (marks : MarkRun bytes tokens pinned) :
    ∃ run modifiers, ModifierRun run modifiers ∧
      ((bytes = run ∧ tokens = modifiers.map Modifier.type ∧ pinned = false) ∨
        ∃ rest others more, bytes = run ++ (Element.wrapper .pinned).code :: rest ∧
          tokens = modifiers.map Modifier.type ++ others ∧ pinned = true ∧
          MarkRun rest others more) := by
  induction marks with
  | nil => exact ⟨[], [], .nil, .inl ⟨rfl, rfl, rfl⟩⟩
  | @modifier named rest type others pinned required form _ ih =>
      obtain ⟨run, modifiers, found, ⟨rfl, rfl, rfl⟩ | ⟨rest, others, more, rfl, rfl, rfl, marks⟩⟩ := ih
      · exact ⟨_, _, .cons required form found, .inl ⟨rfl, rfl, rfl⟩⟩
      · refine ⟨_, _, .cons required form found, .inr ⟨rest, others, more, ?_, rfl, rfl, marks⟩⟩
        simp only [List.cons_append, List.append_assoc]
  | @pinned rest others pinned marks _ =>
      exact ⟨[], [], .nil, .inr ⟨rest, others, pinned, rfl, rfl, rfl, marks⟩⟩

theorem MarkedForm.announces {limit start : Nat} {bytes : List UInt8} {slot : LocalSig}
    (form : MarkedForm (Within limit) start bytes slot) : ∃ element, Announces element bytes := by
  cases form with
  | byValue found _ _ _ within =>
      cases found with
      | nil => exact within.announces
      | modifier required => exact ⟨_, rfl⟩
      | pinned => exact ⟨_, rfl⟩
  | byReference found within =>
      cases found with
      | nil => exact ⟨_, rfl⟩
      | modifier required => exact ⟨_, rfl⟩
      | pinned => exact ⟨_, rfl⟩

/-- A local that starts like a typed reference is one. -/
theorem MarkedForm.typedReference {limit start : Nat} {bytes : List UInt8} {slot : LocalSig}
    (form : MarkedForm (Within limit) start bytes slot)
    (announced : Announces (.leaf .typedByRef) bytes) :
    bytes = [(Element.leaf .typedByRef).code] ∧
      slot = ⟨[], false, false, .leaf .typedByRef⟩ := by
  cases form with
  | byValue found _ _ _ within =>
      cases found with
      | nil =>
          obtain ⟨form, -⟩ := within
          cases form with
          | intro element contents =>
              cases announces_cons.mp announced
              cases contents
              exact ⟨rfl, rfl⟩
      | modifier required => cases announces_cons.mp announced
      | pinned => cases announces_cons.mp announced
  | byReference found within =>
      cases found with
      | nil => cases announces_cons.mp announced
      | modifier required => cases announces_cons.mp announced
      | pinned => cases announces_cons.mp announced

namespace Reader

/-- With fuel for every byte, a run of marks is read up to its end. -/
theorem localPrelude_eq_ok {fuel start : Nat} {input : List UInt8} {tokens : List Token}
    {pinned : Bool} {after : Cursor} (enough : input.length ≤ fuel) :
    localPrelude fuel ⟨start, input⟩ = .ok (tokens, pinned) after ↔
      ∃ bytes, input = bytes ++ after.rest ∧ after.pos = start + bytes.length ∧
        MarkRun bytes tokens pinned ∧ MarksEnd after.rest := by
  induction fuel generalizing start input tokens pinned after with
  | zero =>
      obtain rfl := List.length_eq_zero_iff.mp (Nat.le_zero.mp enough)
      have short : localPrelude 0 ⟨start, []⟩ = .error .outOfBounds ⟨start, []⟩ := rfl
      simp only [short, reduceCtorEq, false_iff]
      rintro ⟨bytes, split, -, -, -, next, first, -⟩
      obtain ⟨-, none⟩ := List.append_eq_nil_iff.mp split.symm
      rw [none] at first
      cases first
  | succ fuel ih =>
      rw [localPrelude, bind_eq_ok]
      simp only [bind_eq_ok]
      constructor
      · rintro ⟨front, ⟨middle, left⟩, modified, found, ⟨last, rest⟩, accepted, finished⟩
        obtain ⟨run, rfl, rfl, ⟨modifiers, runs, rfl⟩, ended⟩ :=
          (modifierTokens_looks _ _ _ _).mp modified
        obtain ⟨mark, rfl, rfl, rfl, unmarked⟩ := (accept_looks _ _ _ _ _).mp accepted
        cases found with
        | true =>
            obtain ⟨⟨others, more⟩, last, inner, finished⟩ := bind_eq_ok.mp finished
            cases finished
            have shorter : rest.length ≤ fuel := by
              simp only [List.length_append, if_true, List.length_cons] at enough
              omega
            obtain ⟨bytes, rfl, place, marks, ended⟩ := (ih shorter).mp inner
            refine ⟨run ++ (Element.wrapper .pinned).code :: bytes, ?_, ?_,
              runs.append_marks (.pinned marks), ended⟩
            · simp
            · simp only [if_true, List.length_append, List.length_cons, List.length_nil] at place ⊢
              omega
        | false =>
            cases finished
            refine ⟨run, rfl, rfl, ?_, ended, unmarked rfl⟩
            simpa using runs.append_marks .nil
      · rintro ⟨bytes, rfl, place, marks, ended, next, first, different⟩
        obtain ⟨run, modifiers, runs, ⟨rfl, rfl, rfl⟩ | ⟨rest, others, more, rfl, rfl, rfl,
          further⟩⟩ := marks.split
        · have modified := (modifierTokens_looks start _ _ after).mpr
            ⟨bytes, rfl, place, ⟨modifiers, runs, rfl⟩, ended⟩
          have accepted := (accept_looks (Element.wrapper .pinned).code _ _ false after).mpr
            ⟨[], rfl, rfl, rfl, fun _ => ⟨next, first, different⟩⟩
          exact ⟨_, after, modified, false, after, accepted, rfl⟩
        · have unmodified : NoModifier ((Element.wrapper .pinned).code :: (rest ++ after.rest)) := by
            intro required announced
            cases announces_cons.mp announced
          have shorter : (rest ++ after.rest).length ≤ fuel := by
            simp only [List.length_append, List.length_cons] at enough ⊢
            omega
          have modified := (modifierTokens_looks start
            (run ++ (Element.wrapper .pinned).code :: rest ++ after.rest) _
            ⟨start + run.length, (Element.wrapper .pinned).code :: (rest ++ after.rest)⟩).mpr
            ⟨run, by simp, rfl, ⟨modifiers, runs, rfl⟩, unmodified⟩
          have accepted := (accept_looks (Element.wrapper .pinned).code (start + run.length) _ true
            ⟨start + run.length + 1, rest ++ after.rest⟩).mpr ⟨[_], rfl, rfl, rfl, nofun⟩
          have reached : after.pos = start + run.length + 1 + rest.length := by
            simp only [List.length_append, List.length_cons] at place
            omega
          have inner := (ih shorter).mpr
            ⟨rest, rfl, reached, further, ended, next, first, different⟩
          exact ⟨_, _, modified, true, _, accepted, bind_eq_ok.mpr ⟨_, after, inner, rfl⟩⟩

theorem marks_looks : (do localPrelude (← remaining) : Reader (List Token × Bool)).Looks
    (fun _ bytes marks => MarkRun bytes marks.1 marks.2) fun _ rest => MarksEnd rest := by
  intro start input marks after
  exact localPrelude_eq_ok (Nat.le_refl input.length)

variable {limit : Nat}

theorem marked_exact {nested : Reader TypeSig} (exact : nested.Exact (Within limit)) :
    (do
      let (modifiers, pinned) ← (do localPrelude (← remaining))
      let byRef ← accept (Element.wrapper .byRef).code
      return ⟨modifiers, byRef, pinned, ← nested⟩ : Reader LocalSig).Exact
        (MarkedForm (Within limit)) := by
  have typed := fun (marks : List Token × Bool) byRef =>
    exact.map (LocalSig.mk marks.1 byRef marks.2)
  refine (marks_looks.bind (fun marks => (accept_looks _).bind (typed marks) ?_) ?_).congr ?_
  · rintro byRef start bytes slot rest ⟨type, within, -⟩
    rw [head?_append_of_nonempty within.nonempty]
  · rintro marks start _ slot rest ⟨byRef, mark, bytes, rfl, -, -, type, within, -⟩
    have nonempty : mark ++ bytes ≠ [] := by simp [within.nonempty]
    rw [MarksEnd, MarksEnd, noModifier_append nonempty, head?_append_of_nonempty nonempty]
  · intro start bytes slot
    constructor
    · rintro ⟨marks, run, _, rfl, found, ⟨ended, next, first, unpinned⟩, byRef, _, bytes, rfl, rfl,
        unmarked, type, within, rfl⟩
      cases byRef with
      | true =>
          have form := MarkedForm.byReference found within
          exact form
      | false =>
          obtain ⟨other, second, different⟩ := unmarked rfl
          have form := MarkedForm.byValue found ended ((not_announces_iff first).mpr unpinned)
            ((not_announces_iff second).mpr different) within
          exact form
    · intro form
      cases form with
      | @byValue _ run bytes modifiers pinned type found ended unpinned unmarked within =>
          obtain ⟨element, announced⟩ := within.announces
          exact ⟨(modifiers, pinned), run, bytes, rfl, found,
            ⟨ended, _, announced, (not_announces_iff announced).mp unpinned⟩, false, [], bytes, rfl,
            rfl, fun _ => ⟨_, announced, (not_announces_iff announced).mp unmarked⟩, type, within,
            rfl⟩
      | @byReference _ run bytes modifiers pinned type found within =>
          have ended : MarksEnd ((Element.wrapper .byRef).code :: bytes) := by
            refine ⟨fun required announced => ?_, _, rfl, by decide⟩
            cases announces_cons.mp announced
          exact ⟨(modifiers, pinned), run, _, rfl, found, ended, true, [_], bytes, rfl, rfl, nofun,
            type, within, rfl⟩

theorem localVariable_exact (exact : (type limit).Exact (Within limit)) :
    (localVariable limit).Exact (LocalForm (Within limit)) := by
  have branch : ∀ found, Exact (
      if found = true then (return ⟨[], false, false, .leaf .typedByRef⟩ : Reader LocalSig)
      else do
        let (modifiers, pinned) ← localPrelude (← remaining)
        let byRef ← accept (Element.wrapper .byRef).code
        return ⟨modifiers, byRef, pinned, ← type limit⟩) fun start bytes slot =>
      if found = true then bytes = [] ∧ slot = ⟨[], false, false, .leaf .typedByRef⟩
      else MarkedForm (Within limit) start bytes slot := by
    intro found
    cases found with
    | true => exact pure_exact _
    | false => exact marked_exact exact
  refine ((accept_looks _).bind branch ?_).congr ?_
  · intro found start bytes slot rest form
    cases found with
    | true => simp
    | false => rw [head?_append_of_nonempty (ne_nil_of_announces form.announces)]
  · intro start bytes slot
    constructor
    · rintro ⟨found, _, bytes, rfl, rfl, unmarked, form⟩
      cases found with
      | true =>
          obtain ⟨rfl, rfl⟩ := form
          exact .typedReference start
      | false => exact .marked form
    · intro form
      cases form with
      | typedReference => exact ⟨true, [_], [], rfl, rfl, nofun, rfl, rfl⟩
      | marked form =>
          by_cases typed : Announces (.leaf .typedByRef) bytes
          · obtain ⟨rfl, rfl⟩ := form.typedReference typed
            exact ⟨true, [_], [], rfl, rfl, nofun, rfl, rfl⟩
          · obtain ⟨element, announced⟩ := form.announces
            exact ⟨false, [], bytes, rfl, rfl,
              fun _ => ⟨_, announced, (not_announces_iff announced).mp typed⟩, form⟩

theorem localVariables_eq (limit : Nat) : localVariables limit = byte >>= fun header =>
    if header = localsHeader then count .localVariable >>= times (localVariable limit)
    else throw (.malformed (.localHeader header)) := by
  refine congrArg (byte >>= ·) (funext fun header => ?_)
  by_cases same : header = localsHeader
  · simp only [same, bne_self_eq_false, Bool.false_eq_true, if_false, if_true]
  · simp only [same, bne_iff_ne, ne_eq, not_false_eq_true, if_true, if_false]
    rfl

theorem localVariables_exact (exact : (type limit).Exact (Within limit)) :
    (localVariables limit).Exact (LocalsForm (Within limit)) := by
  have nonempty : ∀ start bytes slot, LocalForm (Within limit) start bytes slot → bytes ≠ [] := by
    intro start bytes slot form
    cases form with
    | typedReference => exact List.cons_ne_nil _ _
    | marked form => exact ne_nil_of_announces form.announces
  have counted := (count_looks .localVariable).bind (times_exact (localVariable_exact exact)) (by
    rintro announced start bytes locals rest ⟨rfl, sequence⟩
    have room := sequence.length_le nonempty
    simp only [List.length_append]
    omega)
  have headed : ∀ header, Exact (
      if header = localsHeader then count .localVariable >>= times (localVariable limit)
      else throw (.malformed (.localHeader header))) fun start bytes locals =>
      header = localsHeader ∧ ∃ number rest, bytes = number ++ rest ∧
        CompressedForm number locals.length ∧
        Sequence (LocalForm (Within limit)) (start + number.length) rest locals := by
    intro header
    by_cases same : header = localsHeader
    · simp only [same, if_true, true_and]
      refine counted.congr fun start bytes locals => ⟨?_, ?_⟩
      · rintro ⟨announced, number, rest, rfl, form, -, rfl, sequence⟩
        exact ⟨number, rest, rfl, form, sequence⟩
      · rintro ⟨number, rest, rfl, form, sequence⟩
        exact ⟨_, number, rest, rfl, form, sequence.length_le nonempty, rfl, sequence⟩
    · simp only [same, if_false, false_and]
      exact throw_exact _
  rw [localVariables_eq]
  refine (byte_exact.bind headed).congr fun start bytes locals => ⟨?_, ?_⟩
  · rintro ⟨header, _, _, rfl, rfl, rfl, number, rest, rfl, form, sequence⟩
    have form := LocalsForm.intro form sequence
    exact form
  · intro form
    cases form with
    | @intro _ number rest locals form sequence =>
        exact ⟨_, [_], _, rfl, rfl, rfl, number, rest, rfl, form, sequence⟩

end Reader

end CallCapture
