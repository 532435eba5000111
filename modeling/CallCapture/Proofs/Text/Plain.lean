import CallCapture.Proofs.Text.Positional
import CallCapture.Time.DurationText

/-!
The numerals that the number readers take: what they look like, and which of them are decimals in the
strict sense.
-/

namespace CallCapture.Text

/-- At least one digit, and nothing else. -/
structure Digits (text : List Char) : Prop where
  nonempty : text ≠ []
  decimal : ∀ c ∈ text, c.isDigit = true

/-- Digits with at most one mark anywhere among them. -/
inductive Plain (marks : List Char) : List Char → Prop where
  | whole {text : List Char} (digits : Digits text) : Plain marks text
  | point {before after : List Char} {mark : Char} (marked : mark ∈ marks)
      (digits : Digits (before ++ after)) : Plain marks (before ++ mark :: after)

/-- Digits, and digits after a mark. -/
inductive Strict (marks : List Char) : List Char → Prop where
  | whole {text : List Char} (digits : Digits text) : Strict marks text
  | point {before after : List Char} {mark : Char} (marked : mark ∈ marks)
      (whole : Digits before) (fraction : Digits after) : Strict marks (before ++ mark :: after)

/-- Digits of a number below `bound`, with an optional plus sign in front. -/
def Count (bound : Nat) (text : List Char) : Prop :=
  ∃ digits, (text = digits ∨ text = '+' :: digits) ∧ Digits digits ∧ ofDigits digits < bound

/-- A sign may stand in front. -/
def Signed (Unsigned : List Char → Prop) (text : List Char) : Prop :=
  ∃ unsigned, (text = unsigned ∨ text = '+' :: unsigned ∨ text = '-' :: unsigned) ∧ Unsigned unsigned

/-- A plain decimal, and maybe a power of ten. -/
inductive Scientific : List Char → Prop where
  | plain {text : List Char} (plain : Plain ['.'] text) : Scientific text
  | power {mantissa power : List Char} {mark : Char} (marked : mark ∈ ['e', 'E'])
      (plain : Plain ['.'] mantissa) (signed : Signed Digits power) :
      Scientific (mantissa ++ mark :: power)

variable {text : List Char} {marks : List Char} {bound : Nat}

theorem Digits.append {before after : List Char} (left : Digits before) (right : Digits after) :
    Digits (before ++ after) :=
  ⟨List.append_ne_nil_of_left_ne_nil left.nonempty after,
    List.forall_mem_append.mpr ⟨left.decimal, right.decimal⟩⟩

theorem digits_iff : (text.isEmpty || !text.all Char.isDigit) = false ↔ Digits text := by
  rw [Bool.or_eq_false_iff, List.isEmpty_eq_false_iff, Bool.not_eq_false', List.all_eq_true]
  exact ⟨fun facts => ⟨facts.1, facts.2⟩, fun digits => ⟨digits.nonempty, digits.decimal⟩⟩

theorem Plain.mem (plain : Plain marks text) : ∀ c ∈ text, c.isDigit = true ∨ c ∈ marks := by
  cases plain with
  | whole digits => exact fun c written => .inl (digits.decimal c written)
  | point marked digits =>
      intro c written
      rw [List.mem_append, List.mem_cons] at written
      obtain before | rfl | after := written
      · exact .inl (digits.decimal c (List.mem_append_left _ before))
      · exact .inr marked
      · exact .inl (digits.decimal c (List.mem_append_right _ after))

theorem Strict.toPlain (strict : Strict marks text) : Plain marks text := by
  cases strict with
  | whole digits => exact .whole digits
  | point marked whole fraction => exact .point marked (whole.append fraction)

theorem Count.mem (count : Count bound text) : ∀ c ∈ text, c.isDigit = true ∨ c = '+' := by
  obtain ⟨digits, rfl | rfl, written, _⟩ := count
  · exact fun c among => .inl (written.decimal c among)
  · intro c among
    rcases List.mem_cons.mp among with rfl | among
    · exact .inr rfl
    · exact .inl (written.decimal c among)

/-- Without the sign it is the number itself that is below the bound. -/
theorem Count.lt_of_digits (count : Count bound text) (digits : Digits text) :
    ofDigits text < bound := by
  obtain ⟨_, rfl | rfl, _, below⟩ := count
  · exact below
  · exact absurd (digits.decimal '+' List.mem_cons_self) (by decide)

/-! ### Readers -/

theorem ofPlain?_isSome_iff : (Decimal.ofPlain? text).isSome = true ↔ Plain ['.'] text := by
  constructor
  · intro read
    unfold Decimal.ofPlain? at read
    rcases cut_cases (· == '.') text with ⟨whole, _⟩ | ⟨before, mark, after, split, rfl, marked, _⟩
    · rw [whole] at read
      dsimp only at read
      split at read
      · contradiction
      case isFalse digits =>
        exact .whole (digits_iff.mp (Bool.eq_false_iff.mpr digits))
    · rw [split] at read
      dsimp only at read
      split at read
      · contradiction
      case isFalse digits =>
        refine .point ?_ (digits_iff.mp (Bool.eq_false_iff.mpr digits))
        rw [eq_of_beq marked]
        exact List.mem_singleton_self '.'
  · intro plain
    cases plain with
    | whole digits => rw [Decimal.ofPlain?_digits digits.nonempty digits.decimal, Option.isSome_some]
    | point marked digits =>
        rw [List.mem_singleton.mp marked, Decimal.ofPlain?_point digits.nonempty digits.decimal,
          Option.isSome_some]

theorem Count.plus_iff {digits : List Char} :
    Count bound ('+' :: digits) ↔ Digits digits ∧ ofDigits digits < bound := by
  constructor
  · rintro ⟨written, rfl | same, all, below⟩
    · exact absurd (all.decimal '+' List.mem_cons_self) (by decide)
    · cases same
      exact ⟨all, below⟩
  · rintro ⟨all, below⟩
    exact ⟨digits, .inr rfl, all, below⟩

theorem Count.bare_iff (unsigned : ∀ digits, text ≠ '+' :: digits) :
    Count bound text ↔ Digits text ∧ ofDigits text < bound := by
  constructor
  · rintro ⟨written, rfl | same, all, below⟩
    · exact ⟨all, below⟩
    · exact absurd same (unsigned written)
  · rintro ⟨all, below⟩
    exact ⟨text, .inl rfl, all, below⟩

theorem dropPlus_cases (text : List Char) :
    (∃ digits, text = '+' :: digits ∧ (dropPrefix? ['+'] text).getD text = digits) ∨
      (∀ digits, text ≠ '+' :: digits) ∧ (dropPrefix? ['+'] text).getD text = text := by
  cases text with
  | nil => exact .inr ⟨nofun, rfl⟩
  | cons c rest =>
      by_cases plus : '+' = c
      · subst plus
        exact .inl ⟨rest, rfl, rfl⟩
      · refine .inr ⟨fun digits same => plus (List.cons.inj same).1.symm, ?_⟩
        rw [dropPrefix?, if_neg plus, Option.getD_none]

theorem naturalBelow?_isSome_iff : (naturalBelow? bound text).isSome = true ↔ Count bound text := by
  have read (digits : List Char) : (if digits.isEmpty || !digits.all Char.isDigit then none
      else if ofDigits digits < bound then some (ofDigits digits) else none).isSome = true ↔
        Digits digits ∧ ofDigits digits < bound := by
    rw [← digits_iff]
    cases digits.isEmpty || !digits.all Char.isDigit with
    | true => simp
    | false => simp
  unfold naturalBelow?
  rcases dropPlus_cases text with ⟨digits, rfl, dropped⟩ | ⟨unsigned, dropped⟩
  · rw [dropped, Count.plus_iff]
    exact read digits
  · rw [dropped, Count.bare_iff unsigned]
    exact read text

theorem signed_cases (text : List Char) :
    Decimal.signed text = (false, text) ∨ ∃ negative unsigned,
      Decimal.signed text = (negative, unsigned) ∧
        (text = '+' :: unsigned ∨ text = '-' :: unsigned) := by
  unfold Decimal.signed
  split
  · exact .inr ⟨true, _, rfl, .inr rfl⟩
  · exact .inr ⟨false, _, rfl, .inl rfl⟩
  · exact .inl rfl

theorem signed_of_reader {Unsigned : List Char → Prop} (read : Unsigned (Decimal.signed text).2) :
    Signed Unsigned text := by
  rcases signed_cases text with same | ⟨_, unsigned, same, sign⟩
  · rw [same] at read
    exact ⟨text, .inl rfl, read⟩
  · rw [same] at read
    exact ⟨unsigned, .inr sign, read⟩

theorem scientific_of_ofScientific? {decimal : Decimal}
    (read : Decimal.ofScientific? text = some decimal) : Scientific text := by
  unfold Decimal.ofScientific? at read
  rcases cut_cases (fun c => c == 'e' || c == 'E') text with
    ⟨whole, _⟩ | ⟨mantissa, mark, power, split, rfl, marked, _⟩
  · rw [whole] at read
    obtain ⟨plain, value, _⟩ := Option.bind_eq_some_iff.mp read
    exact .plain (ofPlain?_isSome_iff.mp (Option.isSome_of_eq_some value))
  · rw [split] at read
    obtain ⟨plain, value, shifted⟩ := Option.bind_eq_some_iff.mp read
    have isMark : mark ∈ ['e', 'E'] := by
      rw [Bool.or_eq_true, beq_iff_eq, beq_iff_eq] at marked
      simpa using marked
    refine .power isMark (ofPlain?_isSome_iff.mp (Option.isSome_of_eq_some value)) ?_
    apply signed_of_reader
    rw [← digits_iff]
    dsimp only at shifted
    generalize Decimal.signed power = parts at shifted ⊢
    obtain ⟨negative, digits⟩ := parts
    dsimp only at shifted ⊢
    split at shifted
    · contradiction
    case isFalse filled => exact Bool.eq_false_iff.mpr filled

theorem signed_of_spanSeconds? {seconds : Magnitude}
    (read : Duration.spanSeconds? text = some seconds) : Signed Scientific text := by
  apply signed_of_reader
  unfold Duration.spanSeconds? at read
  obtain ⟨decimal, value, _⟩ := Option.bind_eq_some_iff.mp read
  exact scientific_of_ofScientific? value

end CallCapture.Text
