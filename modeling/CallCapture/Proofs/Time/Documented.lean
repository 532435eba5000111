import CallCapture.Proofs.Number.Decimals
import CallCapture.Proofs.Time.Reading

/-!
Which of the texts that are read as durations are written as documented. Their numbers are always in
range; what can be wrong with them are the order of letters, signs, powers of ten and bare points.
-/

namespace CallCapture

open Text

namespace Duration

variable {text : List Char}

/-- A decimal with a digit in front has no sign and no power of ten. -/
theorem exists_ofPlain?_of_strict (strict : Strict ['.'] text)
    (read : (spanSeconds? text).isSome = true) :
    ∃ decimal, Decimal.ofPlain? text = some decimal ∧ decimal.toDouble.isBelow 60 = true := by
  have numeral := strict.toPlain.mem
  have unsigned : Decimal.signed text = (false, text) := by
    rcases signed_cases text with same | ⟨negative, unsigned, _, rfl | rfl⟩
    · exact same
    · exact absurd (numeral '+' List.mem_cons_self) (by decide)
    · exact absurd (numeral '-' List.mem_cons_self) (by decide)
  have unpowered : ∀ c ∈ text, (c == 'e' || c == 'E') = false := by
    intro c written
    rcases numeral c written with digit | point
    · rw [Bool.or_eq_false_iff, beq_eq_false_iff_ne, beq_eq_false_iff_ne]
      exact ⟨ne_of_isDigit digit rfl, ne_of_isDigit digit rfl⟩
    · rw [List.mem_singleton.mp point]
      rfl
  obtain ⟨decimal, plain⟩ := Option.isSome_iff_exists.mp (ofPlain?_isSome_iff.mpr strict.toPlain)
  have scientific : Decimal.ofScientific? text = some decimal := by
    unfold Decimal.ofScientific?
    rw [cut_of_forall unpowered]
    simp only [plain, Option.bind_eq_bind, Option.bind_some]
  refine ⟨decimal, plain, ?_⟩
  unfold spanSeconds? at read
  rw [unsigned] at read
  simp only [scientific, Option.bind_eq_bind, Option.bind_some] at read
  split at read
  case isTrue within => exact (Bool.and_eq_true_iff.mp within).1
  case isFalse => contradiction

/-- Seconds below sixty as doubles are below sixty as written. -/
theorem seconds_below (strict : Strict ['.'] text) (read : (spanSeconds? text).isSome = true) :
    ofDigits (cut (· == '.') text).1 < 60 := by
  obtain ⟨decimal, plain, below⟩ := exists_ofPlain?_of_strict strict read
  apply Nat.lt_of_not_le
  intro reached
  have reachedQ : ((60 : Nat) : ℚ) ≤ ofDigits (cut (· == '.') text).1 := Nat.cast_le.mpr reached
  apply BinaryFormat.not_isBelow_toDouble (by decide : 0 < 60) (by norm_num) _ below
  apply reachedQ.trans
  have pointless {digits : List Char} (written : Digits digits) : ∀ c ∈ digits, (c == '.') = false :=
    fun c among => Decimal.isPoint_of_isDigit (written.decimal c among)
  cases strict with
  | whole digits =>
      rw [Decimal.ofPlain?_digits digits.nonempty digits.decimal] at plain
      cases plain
      rw [cut_of_forall (pointless digits), Decimal.value, zpow_zero, mul_one]
  | @point before after mark marked whole fraction =>
      rw [List.mem_singleton] at marked
      subst marked
      have both := whole.append fraction
      rw [Decimal.ofPlain?_point both.nonempty both.decimal] at plain
      cases plain
      have scale : (0 : ℚ) < 10 ^ after.length := by positivity
      rw [cut_append (pointless whole) (beq_self_eq_true '.'), Decimal.value, zpow_neg, zpow_natCast,
        ← div_eq_mul_inv, le_div_iff₀ scale]
      exact_mod_cast ofDigits_append_le before after

end Duration

namespace DurationForm

variable {form : DurationForm}

/-- What is read is in range, so only its syntax can differ from what is documented. -/
theorem documented_of_regular (accepted : form.Obeys .accepted) (regular : form.Obeys .regular) :
    form.Obeys .documented := by
  cases form with
  | iso mark dates times =>
      match times with
      | none => exact regular
      | some (split, times) => exact regular
  | span days hours minutes seconds =>
      obtain ⟨daysDigits, hoursDigits, minutesDigits, secondsStrict⟩ := regular
      obtain ⟨_, _, minutesCount, _, read⟩ := accepted
      exact ⟨daysDigits, hoursDigits, ⟨minutesDigits, minutesCount.lt_of_digits minutesDigits⟩,
        secondsStrict, Duration.seconds_below secondsStrict read⟩

/-- A form that is not as documented cannot be read as another one that is. -/
theorem not_documented (form : DurationForm) (separable : form.Obeys .separable)
    (undocumented : ¬ form.Obeys .documented) : ¬ Documented form.text := by
  rintro ⟨other, same, documented⟩
  have one := text_inj (documented.mono DurationRules.documented_separable) separable same
  exact undocumented (one ▸ documented)

theorem documented_iff_regular (accepted : form.Obeys .accepted) :
    Documented form.text ↔ form.Obeys .regular := by
  constructor
  · intro written
    by_contra irregular
    -- Another form of the same text would be documented, but the text has one form only.
    refine not_documented form (accepted.mono DurationRules.accepted_separable) ?_ written
    exact fun documented => irregular (documented.mono DurationRules.documented_regular)
  · intro regular
    exact ⟨form, rfl, documented_of_regular accepted regular⟩

end DurationForm

namespace Duration

theorem isSome_of_parse {text : String} {duration : Duration} (read : parse text = .ok duration) :
    (parsedSeconds (trim text.toList)).isSome = true := by
  unfold parse at read
  dsimp only at read
  split at read
  · contradiction
  case h_2 seconds found => rw [found, Option.isSome_some]

theorem parse_unrecognized_iff (text : String) :
    parse text = .error (.invalidRequest
        (.unrecognizedDuration (String.ofList (trim text.toList)))) ↔
      (parsedSeconds (trim text.toList)).isSome = false := by
  unfold parse
  dsimp only
  cases parsedSeconds (trim text.toList) with
  | none => exact ⟨fun _ => rfl, fun _ => rfl⟩
  | some seconds =>
      constructor
      · intro refused
        dsimp only at refused
        split at refused
        · simp at refused
        · contradiction
      · intro impossible
        contradiction

/--
A text that is read has an accepted form, and is written as documented exactly if that form is
regular; a text without such a form is reported as unrecognized.
-/
theorem parse_documented_iff (text : String) :
    (∀ duration, parse text = .ok duration →
      ∃ form : DurationForm, form.text = trim text.toList ∧ form.Obeys .accepted ∧
        (DurationForm.Documented (trim text.toList) ↔ form.Obeys .regular)) ∧
    (parse text = .error (.invalidRequest
        (.unrecognizedDuration (String.ofList (trim text.toList)))) ↔
      ¬ ∃ form : DurationForm, form.text = trim text.toList ∧ form.Obeys .accepted) := by
  constructor
  · intro duration read
    obtain ⟨form, same, accepted⟩ := isSome_parsedSeconds_iff.mp (isSome_of_parse read)
    refine ⟨form, same, accepted, ?_⟩
    rw [← same]
    exact DurationForm.documented_iff_regular accepted
  · rw [parse_unrecognized_iff, ← isSome_parsedSeconds_iff, Bool.not_eq_true]

theorem parse_documented_iff_disordered :
    parse "PT1S1H" = .ok (ofSeconds 3601) ∧
      ∃ form : DurationForm, form.text = trim "PT1S1H".toList ∧ form.Obeys .accepted ∧
        (DurationForm.Documented (trim "PT1S1H".toList) ↔ form.Obeys .regular) := by
  have read : parse "PT1S1H" = .ok (ofSeconds 3601) := by decide +kernel
  exact ⟨read, (parse_documented_iff "PT1S1H").1 _ read⟩

/-- Letters out of order, a plus sign and a power of ten are read, and none of them is documented. -/
theorem undocumented_read :
    (parse "PT1S1H" = .ok (ofSeconds 3601) ∧ ¬ DurationForm.Documented "PT1S1H".toList) ∧
      (parse "+1:00:00" = .ok (ofSeconds 3600) ∧ ¬ DurationForm.Documented "+1:00:00".toList) ∧
        parse "00:00:1e1" = .ok (ofSeconds 10) ∧ ¬ DurationForm.Documented "00:00:1e1".toList := by
  have disordered := DurationForm.not_documented
    (.iso 'P' [] (some ('T', [⟨['1'], 'S'⟩, ⟨['1'], 'H'⟩])))
    (by
      refine ⟨by decide, ⟨?_, ?_⟩, by decide, by decide, ⟨?_, ?_⟩⟩
      all_goals simp [DurationRules.separable])
    (by
      rintro ⟨_, _, _, _, _, ordered⟩
      exact absurd ordered (by decide : ¬ List.Sublist ['S', 'H'] ['H', 'M', 'S']))
  have plus := DurationForm.not_documented (.span none ['+', '1'] ['0', '0'] ['0', '0'])
    (by
      refine ⟨nofun, ?_, ?_, trivial⟩
      all_goals simp [DurationRules.separable])
    (by
      rintro ⟨_, hours, _⟩
      exact absurd (hours.decimal '+' List.mem_cons_self) (by decide))
  have power := DurationForm.not_documented (.span none ['0', '0'] ['0', '0'] ['1', 'e', '1'])
    (by
      refine ⟨nofun, ?_, ?_, trivial⟩
      all_goals simp [DurationRules.separable])
    (by
      rintro ⟨_, _, _, strict, _⟩
      exact absurd (strict.toPlain.mem 'e' (by decide)) (by decide))
  exact ⟨⟨by decide +kernel, disordered⟩, ⟨by decide +kernel, plus⟩, by decide +kernel, power⟩

end Duration

end CallCapture
