import CallCapture.Session.Request
import CallCapture.Proofs.Time.Components
import CallCapture.Proofs.Time.Seconds

/-!
The text of a duration, read back. It names seconds only, and these are read as the double that the
text stands for; what is left of the duration is what is left of it in a double.
-/

namespace CallCapture

open BinaryFormat

theorem Text.trim_eq_self {first last : Char} (middle : List Char)
    (starts : isBlank first = false) (ends : isBlank last = false) :
    trim (first :: (middle ++ [last])) = first :: (middle ++ [last]) := by
  have dropped : (first :: (middle ++ [last])).dropWhile isBlank = first :: (middle ++ [last]) := by
    rw [List.dropWhile_cons, starts, if_neg Bool.false_ne_true]
  have reversed : (first :: (middle ++ [last])).reverse = last :: (first :: middle).reverse := by
    rw [← List.cons_append, List.reverse_append, List.reverse_singleton, List.singleton_append]
  rw [trim, dropped, reversed, List.dropWhile_cons, ends, if_neg Bool.false_ne_true, ← reversed,
    List.reverse_reverse]

namespace Duration

variable {duration : Duration} {amount : List Char} {read : Decimal}

/-- A plain decimal as the only component is read as that number of seconds. -/
theorem parsedSeconds_seconds (numeral : ∀ c ∈ amount, c.isDigit = true ∨ c = '.')
    (reads : Decimal.ofPlain? amount = some read) {number : ℚ}
    (represents : double.Represents read.toDouble number) :
    parsedSeconds ('P' :: 'T' :: (amount ++ ['S'])) = some read.toDouble := by
  have lettered : (Component.mk amount 'S').Lettered := by
    refine ⟨fun c written => ?_, rfl⟩
    rcases numeral c written with digit | point
    · exact .inl digit
    · exact .inr (.inl point)
  have unpointed : amount.map Component.pointed = amount := by
    apply (List.map_congr_left _).trans (List.map_id amount)
    intro c written
    rcases numeral c written with digit | rfl
    · exact if_neg (Text.ne_of_isDigit digit rfl)
    · rfl
  have component : components [] (amount ++ ['S']) = some [(read, 'S')] := by
    have only := components_flatMap (List.forall_mem_singleton.mpr lettered)
    rw [List.flatMap_singleton, List.mapM_cons, List.mapM_nil, Component.read?, unpointed,
      reads] at only
    exact only
  have cut : Text.cut (fun c => c == 'T' || c == 't') ('T' :: (amount ++ ['S'])) =
      ([], some (amount ++ ['S'])) := rfl
  have none : components [] [] = some [] := rfl
  have seconds : timeUnit? 'S' = some 1 := rfl
  have total : double.add .zero (weighted read.toDouble 1) = read.toDouble := by
    rw [weighted, Duration.amount, represents.mul_ofNat_one, represents.zero_add_eq (by decide)]
  simp only [parsedSeconds, isoSeconds, cut, none, component, sum, seconds, total,
    Option.bind_eq_bind, Option.bind_some, List.isEmpty_cons, Bool.false_eq_true, if_false]

/-- The text is a plain decimal of seconds, and the decimal stands for the duration's double. -/
theorem exists_amount (fits : duration.seconds < 2 ^ 64) :
    ∃ amount read, duration.text.toList = 'P' :: 'T' :: (amount ++ ['S']) ∧
      (∀ c ∈ amount, c.isDigit = true ∨ c = '.') ∧ Decimal.ofPlain? amount = some read ∧
      read.toDouble = duration.secondsDouble := by
  by_cases whole : duration.fraction = 0
  · have small : duration.seconds < 10 ^ 20 := fits.trans (by norm_num)
    obtain ⟨read, reads, double⟩ := ofPlain?_toString small
    refine ⟨_, read, ?_, ?_, reads, double.trans (secondsDouble_whole whole fits).symm⟩
    · simp only [text, whole, if_true, String.toList_append]
      rfl
    · intro c written
      rw [Nat.toString_eq_repr, Nat.toList_repr] at written
      exact .inl (Text.isDigit_of_mem_decimal written)
  · obtain ⟨total, represents⟩ := exists_secondsDouble fits
    obtain ⟨read, reads, double⟩ := represents.ofPlain?_text
    refine ⟨_, read, ?_, fun _ => represents.mem_text, reads, double⟩
    simp only [text, whole, if_false, String.toList_append]
    rfl

/-- What is read is the duration nearest to the double, if that is a duration. -/
theorem parse_text (fits : duration.seconds < 2 ^ 64) :
    parse duration.text =
      match nearest? duration.secondsDouble with
      | some nearest => .ok nearest
      | none => .error (.invalidRequest (.durationOutOfRange duration.text)) := by
  obtain ⟨total, represents⟩ := exists_secondsDouble fits
  obtain ⟨amount, read, written, numeral, reads, double⟩ := exists_amount fits
  have trimmed : Text.trim duration.text.toList = duration.text.toList := by
    rw [written]
    exact Text.trim_eq_self ('T' :: amount) (by decide) (by decide)
  rw [← double] at represents
  have seconds := parsedSeconds_seconds numeral reads represents
  rw [← written, double] at seconds
  unfold parse
  simp only [trimmed, seconds, String.ofList_toList]
  cases nearest? duration.secondsDouble <;> rfl

theorem parse_text_eq_ok_iff (fits : duration.seconds < 2 ^ 64) {nearest : Duration} :
    parse duration.text = .ok nearest ↔ nearest? duration.secondsDouble = some nearest := by
  rw [parse_text fits]
  cases nearest? duration.secondsDouble with
  | none =>
      constructor
      · intro read
        contradiction
      · intro found
        contradiction
  | some found => simp only [Except.ok.injEq, Option.some.injEq]

/-- Whole seconds come back if a double counts them one by one. -/
theorem parse_text_whole (whole : duration.fraction = 0) (small : duration.seconds < 2 ^ 53) :
    parse duration.text = .ok duration := by
  have fits : duration.seconds < 2 ^ 64 := small.trans (by norm_num)
  have same : ofSeconds duration.seconds = duration := by
    rw [ofSeconds, ofParts, ← whole, ← parts]
  have found := (nearest?_ofNat_iff fits).mpr ⟨duration.seconds, 0, small, (Nat.mul_one _).symm⟩
  rw [← secondsDouble_whole whole fits, same] at found
  exact (parse_text_eq_ok_iff fits).mpr found

end Duration

/-! ### Requests -/

namespace CaptureRequest

variable {config : Config} {methods : List Description} {duration armed : Duration}

/-- A duration that the configuration allows for a request. -/
structure Allows (config : Config) (duration : Duration) : Prop where
  positive : duration ≠ .zero
  within : ∀ maximum, config.maxDuration = some maximum → duration.nanoseconds ≤ maximum.nanoseconds

theorem checkDuration_of_allows (allows : Allows config duration) :
    checkDuration config duration = .ok duration := by
  unfold checkDuration
  rw [if_neg allows.positive]
  cases limit : config.maxDuration with
  | none => rfl
  | some maximum => exact if_neg (Nat.not_lt.mpr (allows.within maximum limit))

theorem eq_of_checkDuration (checked : checkDuration config duration = .ok armed) :
    duration = armed := by
  unfold checkDuration at checked
  split at checked
  · contradiction
  · split at checked
    · split at checked
      · contradiction
      · exact Except.ok.inj checked
    · exact Except.ok.inj checked

/-- A request arms the duration it was made for if that is what its text is read as. -/
theorem ofPayload_ofParts_iff (nonempty : methods ≠ []) (allows : Allows config duration) :
    ofPayload config (.ofParts methods (some duration)) = .ok ⟨methods, duration⟩ ↔
      Duration.parse duration.text = .ok duration := by
  have some_method : methods.isEmpty = false := List.isEmpty_eq_false_iff.mpr nonempty
  simp only [ofPayload, RequestPayload.ofParts, requestedDuration, some_method, Bool.false_eq_true,
    if_false, Option.map_some]
  cases Duration.parse duration.text with
  | error fault =>
      constructor
      · intro armed
        contradiction
      · intro read
        contradiction
  | ok read =>
      change ((checkDuration config read).bind fun checked =>
        .ok (CaptureRequest.mk methods checked)) = .ok ⟨methods, duration⟩ ↔ _
      constructor
      · intro armed
        cases checked : checkDuration config read with
        | error fault =>
            rw [checked] at armed
            contradiction
        | ok arms =>
            rw [checked] at armed
            cases armed
            rw [eq_of_checkDuration checked]
      · intro same
        cases same
        rw [checkDuration_of_allows allows]
        rfl

end CaptureRequest

namespace Duration

/--
A duration comes back from its text as the duration nearest to its double. Below `2 ^ 23` seconds that
is the duration itself; of whole seconds it is for those that a double can hold; and a request arms
the duration it was made for exactly if that comes back.
-/
theorem text_round_trip (duration : Duration) (fits : duration.seconds < secondsBound) :
    (parse duration.text =
      match nearest? duration.secondsDouble with
      | some nearest => .ok nearest
      | none => .error (.invalidRequest (.durationOutOfRange duration.text))) ∧
    (duration.seconds < 2 ^ 23 → parse duration.text = .ok duration) ∧
    (duration.fraction = 0 → (parse duration.text = .ok duration ↔
      ∃ significand zeros, significand < 2 ^ 53 ∧ duration.seconds = significand * 2 ^ zeros)) ∧
    (∀ config methods, methods ≠ [] → CaptureRequest.Allows config duration →
      (CaptureRequest.ofPayload config (.ofParts methods (some duration)) = .ok ⟨methods, duration⟩ ↔
        parse duration.text = .ok duration)) := by
  rw [secondsBound_eq] at fits
  refine ⟨parse_text fits, ?_, ?_, fun _ _ nonempty allows =>
    CaptureRequest.ofPayload_ofParts_iff nonempty allows⟩
  · intro short
    exact (parse_text_eq_ok_iff fits).mpr (nearest?_secondsDouble short)
  · intro whole
    have same : duration = ofSeconds duration.seconds := by
      have split := duration.parts
      rw [whole] at split
      cases duration
      exact congrArg Duration.mk split
    rw [parse_text_eq_ok_iff fits, ← nearest?_ofNat_iff fits, ← same,
      ← secondsDouble_whole whole fits]

theorem ninety_seconds_round_trip :
    (ofSeconds 90).seconds < secondsBound ∧
      parse (ofSeconds 90).text = .ok (ofSeconds 90) ∧
      CaptureRequest.ofPayload .initial (.ofParts [.anyOverload "a" "b" "c"] (some (ofSeconds 90))) =
        .ok ⟨[.anyOverload "a" "b" "c"], ofSeconds 90⟩ := by
  have fits : (ofSeconds 90).seconds < secondsBound := by decide
  obtain ⟨_, short, whole, arms⟩ := text_round_trip (ofSeconds 90) fits
  have allows : CaptureRequest.Allows .initial (ofSeconds 90) := ⟨by decide, nofun⟩
  have read := (whole (by decide)).mpr ⟨90, 0, by decide, by decide⟩
  exact ⟨fits, short (by decide), (arms .initial _ (List.cons_ne_nil _ _) allows).mpr read⟩

/--
The least number of seconds that no double holds is read as one less, and of `2 ^ 23` seconds and a
nanosecond another is added.
-/
theorem parse_text_off_by_one :
    (ofSeconds (2 ^ 53 + 1)).seconds < secondsBound ∧
      parse (ofSeconds (2 ^ 53 + 1)).text = .ok (ofSeconds (2 ^ 53)) ∧
      parse (ofSeconds (2 ^ 53 + 1)).text ≠ .ok (ofSeconds (2 ^ 53 + 1)) ∧
      parse (ofParts (2 ^ 23) 1).text = .ok (ofParts (2 ^ 23) 2) := by
  have fits : (ofSeconds (2 ^ 53 + 1)).seconds < 2 ^ 64 := by decide +kernel
  have short : (ofParts (2 ^ 23) 1).seconds < 2 ^ 64 := by decide +kernel
  have read : parse (ofSeconds (2 ^ 53 + 1)).text = .ok (ofSeconds (2 ^ 53)) := by
    rw [parse_text_eq_ok_iff fits]
    decide +kernel
  refine ⟨by rwa [secondsBound_eq], read, ?_, ?_⟩
  · rw [read]
    decide +kernel
  · rw [parse_text_eq_ok_iff short]
    decide +kernel

end Duration

end CallCapture
