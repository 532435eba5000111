import CallCapture.Proofs.Signature.Grammar

/-!
Elements and their codes, and the readers that look ahead: an optional mark, a count that what is
left has room for, and a run of modifiers, which ends where no further one comes.
-/

namespace CallCapture

namespace Element

theorem ofCode?_code (element : Element) : ofCode? element.code = some element := by
  cases element with
  | leaf kind => cases kind <;> rfl
  | wrapper kind => cases kind <;> rfl
  | named kind => cases kind <;> rfl
  | genericParameter owner => cases owner <;> rfl
  | modifier required => cases required <;> rfl
  | array | instantiation | functionPointer => rfl

theorem ofCode?_eq_some_iff {code : UInt8} {element : Element} :
    ofCode? code = some element ↔ code = element.code := by
  constructor
  · intro found
    have same := List.find?_some found
    exact (eq_of_beq same).symm
  · rintro rfl
    exact element.ofCode?_code

theorem code_inj {left right : Element} : left.code = right.code ↔ left = right := by
  constructor
  · intro same
    have codes := ofCode?_eq_some_iff.mpr same
    rw [left.ofCode?_code] at codes
    exact Option.some.inj codes
  · rintro rfl
    rfl

theorem code_ne_sentinel (element : Element) : element.code ≠ sentinelCode := by
  cases element with
  | leaf kind => cases kind <;> decide
  | wrapper kind => cases kind <;> decide
  | named kind => cases kind <;> decide
  | genericParameter owner => cases owner <;> decide
  | modifier required => cases required <;> decide
  | array | instantiation | functionPointer => decide

end Element

theorem head?_append_of_nonempty {bytes : List UInt8} (nonempty : bytes ≠ [])
    (rest : List UInt8) : (bytes ++ rest).head? = bytes.head? := by
  cases bytes with
  | nil => contradiction
  | cons first others => rfl

theorem announces_cons {element other : Element} {bytes : List UInt8} :
    Announces element (other.code :: bytes) ↔ other = element := by
  rw [Announces, List.head?_cons, Option.some.injEq, Element.code_inj]

theorem not_announces_iff {element : Element} {bytes : List UInt8} {first : UInt8}
    (starts : bytes.head? = some first) : ¬ Announces element bytes ↔ first ≠ element.code := by
  rw [Announces, starts, Option.some.injEq]

theorem noModifier_append {bytes : List UInt8} (nonempty : bytes ≠ []) (rest : List UInt8) :
    NoModifier (bytes ++ rest) ↔ NoModifier bytes := by
  simp only [NoModifier, Announces, head?_append_of_nonempty nonempty]

namespace Reader

theorem times_exact {α : Type} {reader : Reader α} {form : Form α} (exact : reader.Exact form)
    (count : Nat) : (times reader count).Exact fun start bytes values =>
      values.length = count ∧ Sequence form start bytes values := by
  induction count with
  | zero =>
      refine (pure_exact _).congr ?_
      intro start bytes values
      constructor
      · rintro ⟨rfl, rfl⟩
        exact ⟨rfl, .nil start⟩
      · rintro ⟨none, sequence⟩
        cases sequence with
        | nil => exact ⟨rfl, rfl⟩
        | cons => simp at none
  | succ count ih =>
      refine (exact.bind fun first => ih.map (first :: ·)).congr ?_
      intro start bytes values
      constructor
      · rintro ⟨value, front, back, rfl, first, others, ⟨size, rest⟩, rfl⟩
        exact ⟨by rw [List.length_cons, size], .cons first rest⟩
      · rintro ⟨size, sequence⟩
        cases sequence with
        | nil => simp at size
        | @cons _ front back value others first rest =>
            have left : others.length = count := by simpa using size
            exact ⟨value, front, back, rfl, first, others, ⟨left, rest⟩, rfl⟩

theorem pos_exact : pos.Exact fun start bytes value => bytes = [] ∧ value = start := by
  intro start input value after
  obtain ⟨position, left⟩ := after
  simp only [pos, EStateM.Result.ok.injEq, Cursor.mk.injEq]
  constructor
  · rintro ⟨rfl, rfl, rfl⟩
    exact ⟨[], rfl, rfl, rfl, rfl⟩
  · rintro ⟨bytes, rfl, rfl, rfl, rfl⟩
    exact ⟨rfl, rfl, rfl⟩

theorem accept_cons (code next : UInt8) (start : Nat) (rest : List UInt8) :
    accept code ⟨start, next :: rest⟩ =
      if next = code then .ok true ⟨start + 1, rest⟩ else .ok false ⟨start, next :: rest⟩ := by
  have single : ¬ (next :: rest).length < 1 := by simp
  by_cases same : next = code
  · simp [accept, bind, EStateM.bind, peek, same, skip, take, Cursor.remaining, pure, EStateM.pure]
  · simp [accept, bind, EStateM.bind, peek, same, pure, EStateM.pure]

theorem accept_looks (code : UInt8) : (accept code).Looks
    (fun _ bytes found => bytes = if found then [code] else [])
    fun found rest => found = false → ∃ other, rest.head? = some other ∧ other ≠ code := by
  intro start input found after
  obtain ⟨position, left⟩ := after
  cases input with
  | nil =>
      have short : accept code ⟨start, []⟩ = .error .outOfBounds ⟨start, []⟩ := rfl
      simp only [short, reduceCtorEq, false_iff]
      rintro ⟨bytes, split, -, rfl, seen⟩
      obtain ⟨none, rfl⟩ := List.append_eq_nil_iff.mp split.symm
      cases found with
      | true => cases none
      | false => simp at seen
  | cons next rest =>
      rw [accept_cons]
      by_cases same : next = code
      · simp only [same, if_true, EStateM.Result.ok.injEq, Cursor.mk.injEq]
        constructor
        · rintro ⟨rfl, rfl, rfl⟩
          exact ⟨[code], rfl, rfl, rfl, by simp⟩
        · rintro ⟨bytes, split, rfl, rfl, seen⟩
          cases found with
          | true => exact ⟨rfl, rfl, (List.cons.inj split).2⟩
          | false =>
              obtain ⟨other, first, different⟩ := seen rfl
              simp only [Bool.false_eq_true, if_false, List.nil_append] at split
              rw [← split] at first
              exact absurd (Option.some.inj first).symm different
      · simp only [same, if_false, EStateM.Result.ok.injEq, Cursor.mk.injEq]
        constructor
        · rintro ⟨rfl, rfl, rfl⟩
          exact ⟨[], rfl, rfl, rfl, fun _ => ⟨next, rfl, same⟩⟩
        · rintro ⟨bytes, split, rfl, rfl, seen⟩
          cases found with
          | true => exact absurd (List.cons.inj split).1 same
          | false => exact ⟨rfl, rfl, split⟩

theorem count_looks (items : Counted) : (count items).Looks (fun _ => CompressedForm)
    fun announced rest => announced ≤ rest.length := by
  intro start input announced after
  have checked : ∀ number (middle : Cursor),
      (do
        let left ← remaining
        if left < number then throw (.malformed (.count items number left))
        return number : Reader Nat) middle = .ok announced after ↔
      middle = after ∧ number = announced ∧ number ≤ middle.rest.length := by
    intro number middle
    by_cases short : middle.remaining < number
    · have more : ¬ number ≤ middle.rest.length := Nat.not_le.mpr short
      refine iff_of_false ?_ (fun wanted => more wanted.2.2)
      intro read
      simp only [bind, EStateM.bind, remaining, short, if_true] at read
      cases read
    · have enough : number ≤ middle.rest.length := Nat.le_of_not_lt short
      simp [bind, EStateM.bind, remaining, short, enough, pure, EStateM.pure, and_comm]
  rw [count, bind_eq_ok]
  simp only [checked]
  constructor
  · rintro ⟨number, middle, read, rfl, rfl, enough⟩
    obtain ⟨bytes, split, place, form⟩ := (compressed_exact _ _ _ _).mp read
    exact ⟨bytes, split, place, form, enough⟩
  · rintro ⟨bytes, split, place, form, enough⟩
    have read := (compressed_exact start input announced after).mpr ⟨bytes, split, place, form⟩
    exact ⟨announced, after, read, rfl, rfl, enough⟩

theorem peek_looks : peek.Looks (fun _ bytes _ => bytes = []) fun next rest =>
    rest.head? = some next := by
  intro start input next after
  obtain ⟨position, left⟩ := after
  cases input with
  | nil =>
      have short : peek ⟨start, []⟩ = .error .outOfBounds ⟨start, []⟩ := rfl
      simp only [short, reduceCtorEq, false_iff]
      rintro ⟨bytes, split, -, rfl, first⟩
      rw [List.nil_append] at split
      rw [← split] at first
      cases first
  | cons first rest =>
      simp only [peek, EStateM.Result.ok.injEq, Cursor.mk.injEq]
      constructor
      · rintro ⟨rfl, rfl, rfl⟩
        exact ⟨[], rfl, rfl, rfl, rfl⟩
      · rintro ⟨bytes, split, rfl, rfl, same⟩
        rw [List.nil_append] at split
        subst split
        exact ⟨Option.some.inj same, rfl, rfl⟩

/-- Only a modifier in front is read. -/
theorem modifiersWithin_cons (fuel start : Nat) (required : Bool) (rest : List UInt8) :
    modifiersWithin (fuel + 1) ⟨start, (Element.modifier required).code :: rest⟩ =
      (do
        let type ← token
        let others ← modifiersWithin fuel
        return ⟨required, type⟩ :: others : Reader (List Modifier)) ⟨start + 1, rest⟩ := by
  have announced : ((Element.modifier required).code :: rest).head?.bind Element.ofCode? =
      some (.modifier required) := (Element.modifier required).ofCode?_code
  rw [modifiersWithin]
  simp only [announced]
  rfl

theorem modifiersWithin_of_none (fuel start : Nat) {input : List UInt8}
    (none : NoModifier input) : modifiersWithin fuel ⟨start, input⟩ = .ok [] ⟨start, input⟩ := by
  cases fuel with
  | zero => rfl
  | succ fuel =>
      rw [modifiersWithin]
      simp only
      split
      next required announced =>
        obtain ⟨code, first, element⟩ := Option.bind_eq_some_iff.mp announced
        rw [Element.ofCode?_eq_some_iff.mp element] at first
        exact absurd first (none required)
      next => rfl

/-- With fuel for every byte, a run of modifiers is read up to its end. -/
theorem modifiersWithin_eq_ok {fuel start : Nat} {input : List UInt8} {read : List Modifier}
    {after : Cursor} (enough : input.length ≤ fuel) :
    modifiersWithin fuel ⟨start, input⟩ = .ok read after ↔
      ∃ bytes, input = bytes ++ after.rest ∧ after.pos = start + bytes.length ∧
        ModifierRun bytes read ∧ NoModifier after.rest := by
  induction fuel generalizing start input read after with
  | zero =>
      obtain rfl := List.length_eq_zero_iff.mp (Nat.le_zero.mp enough)
      have none : NoModifier [] := by simp [NoModifier, Announces]
      obtain ⟨position, left⟩ := after
      rw [modifiersWithin_of_none 0 start none]
      simp only [EStateM.Result.ok.injEq, Cursor.mk.injEq]
      constructor
      · rintro ⟨rfl, rfl, rfl⟩
        exact ⟨[], rfl, rfl, .nil, none⟩
      · rintro ⟨bytes, split, rfl, run, -⟩
        obtain ⟨rfl, rfl⟩ := List.append_eq_nil_iff.mp split.symm
        cases run
        exact ⟨rfl, rfl, rfl⟩
  | succ fuel ih =>
      by_cases none : NoModifier input
      · obtain ⟨position, left⟩ := after
        rw [modifiersWithin_of_none _ start none]
        simp only [EStateM.Result.ok.injEq, Cursor.mk.injEq]
        constructor
        · rintro ⟨rfl, rfl, rfl⟩
          exact ⟨[], rfl, rfl, .nil, none⟩
        · rintro ⟨bytes, rfl, rfl, run, -⟩
          cases run with
          | nil => exact ⟨rfl, rfl, rfl⟩
          | cons required => exact absurd rfl (none required)
      · obtain ⟨required, announced⟩ := Classical.not_forall.mp none
        obtain ⟨rest, rfl⟩ := List.head?_eq_some_iff.mp (Classical.not_not.mp announced)
        have fewer : rest.length ≤ fuel := by simpa using enough
        rw [modifiersWithin_cons, bind_eq_ok]
        simp only [bind_eq_ok]
        constructor
        · rintro ⟨type, ⟨middle, left⟩, named, others, last, more, finished⟩
          obtain ⟨rfl, rfl⟩ := EStateM.Result.ok.inj finished
          obtain ⟨first, rfl, rfl, form⟩ := (token_exact _ _ _ _).mp named
          have shorter : left.length ≤ fuel := by
            simp only [List.length_append] at fewer
            omega
          obtain ⟨run, rfl, place, modifiers, ended⟩ := (ih shorter).mp more
          refine ⟨_, ?_, ?_, .cons required form modifiers, ended⟩
          · simp
          · simp only [place, List.length_cons, List.length_append]
            omega
        · rintro ⟨bytes, split, place, run, ended⟩
          cases run with
          | nil =>
              rw [List.nil_append] at split
              rw [← split] at ended
              exact absurd rfl (ended required)
          | @cons named run type others found form modifiers =>
              rw [List.cons_append] at split
              obtain ⟨same, rfl⟩ := List.cons.inj split
              cases Element.code_inj.mp same
              refine ⟨type, ⟨start + 1 + named.length, run ++ after.rest⟩, ?_, others, after, ?_,
                rfl⟩
              · exact (token_exact _ _ _ _).mpr ⟨named, List.append_assoc .., rfl, form⟩
              · have shorter : (run ++ after.rest).length ≤ fuel := by
                  simp only [List.length_append] at fewer ⊢
                  omega
                refine (ih shorter).mpr ⟨run, rfl, ?_, modifiers, ended⟩
                simp only [place, List.length_cons, List.length_append]
                omega

theorem modifiers_looks :
    modifiers.Looks (fun _ => ModifierRun) fun _ rest => NoModifier rest := by
  intro start input read after
  exact modifiersWithin_eq_ok (Nat.le_refl input.length)

theorem modifierTokens_looks : modifierTokens.Looks
    (fun _ bytes tokens => ∃ read, ModifierRun bytes read ∧ tokens = read.map Modifier.type)
    fun _ rest => NoModifier rest := by
  intro start input tokens after
  rw [modifierTokens, bind_eq_ok]
  constructor
  · rintro ⟨read, middle, found, finished⟩
    obtain ⟨rfl, rfl⟩ := EStateM.Result.ok.inj finished
    obtain ⟨bytes, split, place, run, none⟩ := (modifiers_looks _ _ _ _).mp found
    exact ⟨bytes, split, place, ⟨read, run, rfl⟩, none⟩
  · rintro ⟨bytes, split, place, ⟨read, run, rfl⟩, none⟩
    exact ⟨read, after, (modifiers_looks _ _ _ _).mpr ⟨bytes, split, place, run, none⟩, rfl⟩

theorem genericCount_exact (generic : Bool) :
    (if generic = true then compressed else pure 0).Exact fun _ => GenericCountForm generic := by
  cases generic with
  | true =>
      refine compressed_exact.congr ?_
      intro start bytes number
      constructor
      · exact .present
      · rintro (_ | form)
        exact form
  | false =>
      refine (pure_exact 0).congr ?_
      intro start bytes number
      constructor
      · rintro ⟨rfl, rfl⟩
        exact .absent
      · rintro ⟨⟩
        exact ⟨rfl, rfl⟩

theorem skipBounds_exact : skipBounds.Exact BoundsForm := by
  have bounds := fun number => (times_exact compressed_exact number).map fun _ => ()
  refine (compressed_exact.bind bounds).congr ?_
  intro start bytes value
  constructor
  · rintro ⟨number, front, back, rfl, counted, sizes, ⟨rfl, sequence⟩, -⟩
    exact .intro counted sequence
  · intro form
    cases form with
    | @intro _ front back sizes counted sequence =>
        exact ⟨_, front, back, rfl, counted, sizes, ⟨rfl, sequence⟩, rfl⟩

end Reader

end CallCapture
