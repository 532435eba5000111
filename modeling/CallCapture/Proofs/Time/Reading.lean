import CallCapture.Proofs.Time.Forms

/-!
Which texts are read as seconds: exactly those of the accepted forms.
-/

namespace CallCapture

open Text DurationForm

/-! ### Components -/

namespace Component

theorem pointed_of_isDigit {c : Char} (digit : c.isDigit = true) : pointed c = c :=
  if_neg (ne_of_isDigit digit rfl)

theorem map_pointed {text : List Char} (digits : ∀ c ∈ text, c.isDigit = true) :
    text.map pointed = text := by
  apply (List.map_congr_left _).trans (List.map_id text)
  intro c written
  exact pointed_of_isDigit (digits c written)

theorem isDigit_of_pointed {c : Char} (digit : (pointed c).isDigit = true) : c.isDigit = true := by
  unfold pointed at digit
  split at digit
  · contradiction
  · exact digit

theorem pointed_of_mem {mark : Char} (marked : mark ∈ ['.', ',']) : pointed mark = '.' := by
  simp only [List.mem_cons, List.not_mem_nil, or_false] at marked
  rcases marked with rfl | rfl <;> rfl

/-- With commas taken as points, a decimal with either is one with a point. -/
theorem plain_pointed_iff {amount : List Char} :
    Plain ['.'] (amount.map pointed) ↔ Plain ['.', ','] amount := by
  constructor
  · intro plain
    generalize same : amount.map pointed = text at plain
    cases plain with
    | whole digits =>
        subst same
        refine .whole ⟨mt List.map_eq_nil_iff.mpr digits.nonempty, fun c written => ?_⟩
        exact isDigit_of_pointed (digits.decimal _ (List.mem_map_of_mem written))
    | point marked digits =>
        obtain ⟨before, rest, rfl, rfl, tail⟩ := List.map_eq_append_iff.mp same
        obtain ⟨mark, after, rfl, isPoint, rfl⟩ := List.map_eq_cons_iff.mp tail
        have isMark : mark ∈ ['.', ','] := by
          rw [← isPoint, List.mem_singleton] at marked
          unfold pointed at marked
          split at marked
          case isTrue comma =>
            rw [comma]
            decide
          case isFalse =>
            rw [marked]
            decide
        rw [← List.map_append] at digits
        refine .point isMark ⟨mt List.map_eq_nil_iff.mpr digits.nonempty, fun c written => ?_⟩
        exact isDigit_of_pointed (digits.decimal _ (List.mem_map_of_mem written))
  · intro plain
    cases plain with
    | whole digits =>
        rw [map_pointed digits.decimal]
        exact .whole digits
    | point marked digits =>
        rw [List.map_append, List.map_cons, pointed_of_mem marked]
        apply Plain.point (List.mem_singleton_self '.')
        rw [← List.map_append, map_pointed digits.decimal]
        exact digits

theorem read?_isSome_iff {component : Component} :
    component.read?.isSome = true ↔ Plain ['.', ','] component.amount := by
  rw [read?, Option.isSome_map, ofPlain?_isSome_iff, plain_pointed_iff]

theorem of_mapM_read? {written : List Component} {pairs : List (Decimal × Char)}
    (read : written.mapM read? = some pairs) :
    (∀ component ∈ written, component.read?.isSome = true) ∧
      pairs.map Prod.snd = written.map designator := by
  induction written generalizing pairs with
  | nil =>
      cases read
      exact ⟨fun _ among => absurd among List.not_mem_nil, rfl⟩
  | cons component rest ih =>
      rw [List.mapM_cons] at read
      obtain ⟨pair, first, read⟩ := Option.bind_eq_some_iff.mp read
      obtain ⟨others, following, same⟩ := Option.bind_eq_some_iff.mp read
      cases same
      obtain ⟨all, letters⟩ := ih following
      refine ⟨List.forall_mem_cons.mpr ⟨Option.isSome_of_eq_some first, all⟩, ?_⟩
      obtain ⟨value, _, rfl⟩ := Option.map_eq_some_iff.mp first
      rw [List.map_cons, List.map_cons, letters]

theorem exists_mapM_read? {written : List Component}
    (all : ∀ component ∈ written, component.read?.isSome = true) :
    ∃ pairs, written.mapM read? = some pairs := by
  induction written with
  | nil => exact ⟨[], rfl⟩
  | cons component rest ih =>
      obtain ⟨head, tail⟩ := List.forall_mem_cons.mp all
      obtain ⟨pair, first⟩ := Option.isSome_iff_exists.mp head
      obtain ⟨others, following⟩ := ih tail
      refine ⟨pair :: others, ?_⟩
      rw [List.mapM_cons, first, following]
      rfl

end Component

namespace Duration

theorem sum_isSome_iff {unit? : Char → Option Nat} {total : Magnitude}
    {pairs : List (Decimal × Char)} :
    (sum unit? total pairs).isSome = true ↔
      ∀ letter ∈ pairs.map Prod.snd, (unit? letter).isSome = true := by
  induction pairs generalizing total with
  | nil => exact ⟨fun _ _ among => absurd among List.not_mem_nil, fun _ => rfl⟩
  | cons pair rest ih =>
      obtain ⟨value, designator⟩ := pair
      rw [List.map_cons, List.forall_mem_cons, sum]
      cases unit? designator with
      | none => exact ⟨nofun, fun all => nomatch all.1⟩
      | some unit => exact ih.trans ⟨fun others => ⟨rfl, others⟩, And.right⟩

/-- The letters of a part that have a unit. -/
structure Units (unit? : Char → Option Nat) (letters : List Char) : Prop where
  known : ∀ designator, (unit? designator).isSome = true ↔ designator.toUpper ∈ letters
  alphabetic : ∀ letter ∈ letters, letter.isAlpha = true

theorem dateUnits : Units dateUnit? ['W', 'D'] where
  known designator := by
    unfold dateUnit?
    generalize designator.toUpper = letter
    split <;> simp_all
  alphabetic letter among := (DurationRules.dateLetters letter among).1

theorem timeUnits : Units timeUnit? ['H', 'M', 'S'] where
  known designator := by
    unfold timeUnit?
    generalize designator.toUpper = letter
    split <;> simp_all
  alphabetic := DurationRules.timeLetters

variable {unit? : Char → Option Nat} {letters text : List Char} {total : Magnitude}
  {pairs : List (Decimal × Char)}

/-- Plain amounts and letters that have a unit. -/
abbrev Summable (letters : List Char) (written : List Component) : Prop :=
  Component.Obey (Plain ['.', ',']) (fun found => ∀ letter ∈ found, letter ∈ letters) written

theorem exists_written (units : Units unit? letters) (read : components [] text = some pairs)
    (summed : (sum unit? total pairs).isSome = true) :
    ∃ written, written.flatMap Component.text = text ∧ Summable letters written ∧
      (pairs = [] ↔ written = []) := by
  obtain ⟨written, same, _, values⟩ := components_eq_some_iff.mp read
  obtain ⟨all, designators⟩ := Component.of_mapM_read? values
  rw [sum_isSome_iff, designators] at summed
  refine ⟨written, same.symm, ⟨?_, ?_⟩, ?_⟩
  · intro component among
    exact Component.read?_isSome_iff.mp (all component among)
  · intro letter found
    obtain ⟨component, among, rfl⟩ := List.mem_map.mp found
    exact (units.known _).mp (summed _ (List.mem_map_of_mem among))
  · rw [← List.map_eq_nil_iff, designators, List.map_eq_nil_iff]

theorem exists_pairs (units : Units unit? letters) {written : List Component}
    (summable : Summable letters written) :
    ∃ pairs, components [] (written.flatMap Component.text) = some pairs ∧
      (∀ total, (sum unit? total pairs).isSome = true) ∧ (pairs = [] ↔ written = []) := by
  have lettered : ∀ component ∈ written, component.Lettered := by
    intro component among
    refine ⟨fun c inside => ?_, ?_⟩
    · exact DurationRules.isAmount_of_plain (summable.amounts component among) inside
    · exact isAlpha_of_toUpper
        (units.alphabetic _ (summable.letters _ (List.mem_map_of_mem among)))
  obtain ⟨pairs, values⟩ := Component.exists_mapM_read? fun component among =>
    Component.read?_isSome_iff.mpr (summable.amounts component among)
  obtain ⟨_, designators⟩ := Component.of_mapM_read? values
  refine ⟨pairs, (components_flatMap lettered).trans values, fun total => ?_, ?_⟩
  · rw [sum_isSome_iff, designators]
    intro letter found
    obtain ⟨component, among, rfl⟩ := List.mem_map.mp found
    exact (units.known _).mpr (summable.letters _ (List.mem_map_of_mem among))
  · rw [← List.map_eq_nil_iff, designators, List.map_eq_nil_iff]

/-! ### Designators -/

theorem isSome_isoSeconds_dates_iff {date : List Char} (unsplit : ∀ c ∈ date, isSplit c = false) :
    (isoSeconds date).isSome = true ↔
      ∃ dates, dates.flatMap Component.text = date ∧ Summable ['W', 'D'] dates ∧ dates ≠ [] := by
  have reads : isoSeconds date = (components [] date).bind fun dates =>
      (sum dateUnit? .zero dates).bind fun total =>
        if dates.isEmpty then none else some total := by
    have whole : cut (fun c => c == 'T' || c == 't') date = (date, none) := cut_of_forall unsplit
    unfold isoSeconds
    rw [whole]
    rfl
  rw [reads]
  constructor
  · intro some
    obtain ⟨seconds, read⟩ := Option.isSome_iff_exists.mp some
    obtain ⟨pairs, readDates, afterDates⟩ := Option.bind_eq_some_iff.mp read
    obtain ⟨total, summed, finished⟩ := Option.bind_eq_some_iff.mp afterDates
    obtain ⟨dates, written, summable, empty⟩ :=
      exists_written dateUnits readDates (Option.isSome_of_eq_some summed)
    refine ⟨dates, written, summable, fun none => ?_⟩
    rw [empty.mpr none] at finished
    contradiction
  · rintro ⟨dates, rfl, summable, nonempty⟩
    obtain ⟨pairs, readDates, summed, empty⟩ := exists_pairs dateUnits summable
    obtain ⟨total, dateSum⟩ := Option.isSome_iff_exists.mp (summed .zero)
    have filled : pairs.isEmpty = false := List.isEmpty_eq_false_iff.mpr (mt empty.mp nonempty)
    rw [readDates, Option.bind_some, dateSum, Option.bind_some, filled, if_neg Bool.false_ne_true,
      Option.isSome_some]

theorem isSome_isoSeconds_times_iff {date time : List Char} {split : Char}
    (unsplit : ∀ c ∈ date, isSplit c = false) (separates : isSplit split = true) :
    (isoSeconds (date ++ split :: time)).isSome = true ↔
      (∃ dates, dates.flatMap Component.text = date ∧ Summable ['W', 'D'] dates) ∧
        ∃ times, times.flatMap Component.text = time ∧ Summable ['H', 'M', 'S'] times ∧
          times ≠ [] := by
  have reads : isoSeconds (date ++ split :: time) = (components [] date).bind fun dates =>
      (sum dateUnit? .zero dates).bind fun total => (components [] time).bind fun times =>
        if times.isEmpty then none else sum timeUnit? total times := by
    have parted : cut (fun c => c == 'T' || c == 't') (date ++ split :: time) = (date, some time) :=
      cut_append unsplit separates time
    unfold isoSeconds
    rw [parted]
    rfl
  rw [reads]
  constructor
  · intro some
    obtain ⟨seconds, read⟩ := Option.isSome_iff_exists.mp some
    obtain ⟨datePairs, readDates, afterDates⟩ := Option.bind_eq_some_iff.mp read
    obtain ⟨total, summed, afterSum⟩ := Option.bind_eq_some_iff.mp afterDates
    obtain ⟨timePairs, readTimes, finished⟩ := Option.bind_eq_some_iff.mp afterSum
    obtain ⟨dates, writtenDates, summable, _⟩ :=
      exists_written dateUnits readDates (Option.isSome_of_eq_some summed)
    split at finished
    · contradiction
    case isFalse filled =>
      obtain ⟨times, writtenTimes, summableTimes, empty⟩ :=
        exists_written timeUnits readTimes (Option.isSome_of_eq_some finished)
      refine ⟨⟨dates, writtenDates, summable⟩, times, writtenTimes, summableTimes, fun none => ?_⟩
      rw [empty.mpr none] at filled
      exact filled rfl
  · rintro ⟨⟨dates, rfl, summable⟩, times, rfl, summableTimes, nonempty⟩
    obtain ⟨datePairs, readDates, summed, _⟩ := exists_pairs dateUnits summable
    obtain ⟨timePairs, readTimes, timeSummed, empty⟩ := exists_pairs timeUnits summableTimes
    obtain ⟨total, dateSum⟩ := Option.isSome_iff_exists.mp (summed .zero)
    have filled : timePairs.isEmpty = false := List.isEmpty_eq_false_iff.mpr (mt empty.mp nonempty)
    rw [readDates, Option.bind_some, dateSum, Option.bind_some, readTimes, Option.bind_some, filled,
      if_neg Bool.false_ne_true]
    exact timeSummed total

theorem isSome_isoSeconds_iff {mark : Char} {body : List Char} (marked : mark ∈ ['P', 'p']) :
    (isoSeconds body).isSome = true ↔
      ∃ dates times, (DurationForm.iso mark dates times).text = mark :: body ∧
        (DurationForm.iso mark dates times).Obeys .accepted := by
  constructor
  · intro read
    rcases cut_cases isSplit body with
      ⟨_, unsplit⟩ | ⟨date, split, time, _, rfl, separates, unsplit⟩
    · obtain ⟨dates, rfl, summable, nonempty⟩ := (isSome_isoSeconds_dates_iff unsplit).mp read
      exact ⟨dates, none, rfl, marked, summable, nonempty⟩
    · obtain ⟨⟨dates, rfl, summable⟩, times, rfl, summableTimes, nonempty⟩ :=
        (isSome_isoSeconds_times_iff unsplit separates).mp read
      exact ⟨dates, some (split, times), rfl, marked, summable, isSplit_iff.mp separates, nonempty,
        summableTimes⟩
  · rintro ⟨dates, times, same, _, summable, rest⟩
    have unsplit := Component.not_split_of_mem
      (summable.mono DurationRules.accepted_separable.amount DurationRules.accepted_separable.dates)
    match times with
    | none =>
        rw [← (List.cons.inj same).2]
        exact (isSome_isoSeconds_dates_iff unsplit).mpr ⟨dates, rfl, summable, rest⟩
    | some (split, times) =>
        obtain ⟨separates, nonempty, summableTimes⟩ := rest
        rw [← (List.cons.inj same).2]
        exact (isSome_isoSeconds_times_iff unsplit (isSplit_iff.mpr separates)).mpr
          ⟨⟨dates, rfl, summable⟩, times, rfl, summableTimes, nonempty⟩

/-! ### Clock fields -/

theorem isSome_spanHours?_iff {written : List Char} :
    (spanHours? written).isSome = true ↔
      Count secondsBound written ∨ ∃ days hours, written = days ++ '.' :: hours ∧
        Count secondsBound days ∧ Count secondsBound hours := by
  constructor
  · intro some
    obtain ⟨parts, read⟩ := Option.isSome_iff_exists.mp some
    unfold spanHours? at read
    rcases cut_cases (· == '.') written with ⟨whole, _⟩ | ⟨days, mark, hours, split, rfl, isPoint, _⟩
    · rw [whole] at read
      obtain ⟨hours, readHours, _⟩ := Option.bind_eq_some_iff.mp read
      exact .inl (naturalBelow?_isSome_iff.mp (Option.isSome_of_eq_some readHours))
    · rw [split] at read
      obtain ⟨dayCount, readDays, afterDays⟩ := Option.bind_eq_some_iff.mp read
      obtain ⟨hourCount, readHours, _⟩ := Option.bind_eq_some_iff.mp afterDays
      refine .inr ⟨days, hours, by rw [eq_of_beq isPoint], ?_, ?_⟩
      · exact naturalBelow?_isSome_iff.mp (Option.isSome_of_eq_some readDays)
      · exact naturalBelow?_isSome_iff.mp (Option.isSome_of_eq_some readHours)
  · rintro (hours | ⟨days, hours, rfl, dayCount, hourCount⟩)
    · obtain ⟨number, read⟩ := Option.isSome_iff_exists.mp (naturalBelow?_isSome_iff.mpr hours)
      unfold spanHours?
      rw [cut_of_forall (not_point hours.mem)]
      simp [read]
    · obtain ⟨days', readDays⟩ :=
        Option.isSome_iff_exists.mp (naturalBelow?_isSome_iff.mpr dayCount)
      obtain ⟨hours', readHours⟩ :=
        Option.isSome_iff_exists.mp (naturalBelow?_isSome_iff.mpr hourCount)
      unfold spanHours?
      rw [cut_append (not_point dayCount.mem) (beq_self_eq_true '.')]
      simp [readDays, readHours]

/-- Three fields are read one by one. -/
theorem isSome_spanTotal_fields_iff {first minutes seconds : List Char}
    (noColon : ∀ c ∈ first, (c == ':') = false) (noColon' : ∀ c ∈ minutes, (c == ':') = false) :
    (spanTotal (first ++ ':' :: (minutes ++ ':' :: seconds))).isSome = true ↔
      (spanHours? first).isSome = true ∧ (naturalBelow? 60 minutes).isSome = true ∧
        (spanSeconds? seconds).isSome = true := by
  unfold spanTotal
  rw [cut_append noColon (beq_self_eq_true ':')]
  simp only [Option.bind_eq_bind, Option.bind_some]
  rw [cut_append noColon' (beq_self_eq_true ':')]
  simp only [Option.bind_some]
  cases spanHours? first with
  | none => simp
  | some hours =>
      cases naturalBelow? 60 minutes with
      | none => simp
      | some minutes => cases spanSeconds? seconds <;> simp

theorem exists_fields {written : List Char} (read : (spanTotal written).isSome = true) :
    ∃ first minutes seconds, written = first ++ ':' :: (minutes ++ ':' :: seconds) ∧
      (∀ c ∈ first, (c == ':') = false) ∧ ∀ c ∈ minutes, (c == ':') = false := by
  unfold spanTotal at read
  rcases cut_cases (· == ':') written with
    ⟨whole, _⟩ | ⟨first, mark, rest, split, rfl, isColon, noColon⟩
  · rw [whole] at read
    contradiction
  · rw [split] at read
    simp only [Option.bind_eq_bind, Option.bind_some] at read
    rcases cut_cases (· == ':') rest with
      ⟨whole, _⟩ | ⟨minutes, mark', seconds, _, rfl, isColon', noColon'⟩
    · rw [whole] at read
      -- The other fields may be read, but a third one is missing.
      simp at read
    · refine ⟨first, minutes, seconds, ?_, noColon, noColon'⟩
      rw [eq_of_beq isColon, eq_of_beq isColon']

theorem isSome_spanTotal_iff {written : List Char} :
    (spanTotal written).isSome = true ↔
      ∃ days hours minutes seconds, (span days hours minutes seconds).text = written ∧
        (span days hours minutes seconds).Obeys .accepted := by
  have seconds_iff {seconds : List Char} : (spanSeconds? seconds).isSome = true ↔
      DurationRules.accepted.seconds seconds := by
    constructor
    · intro read
      obtain ⟨value, found⟩ := Option.isSome_iff_exists.mp read
      exact ⟨signed_of_spanSeconds? found, read⟩
    · exact And.right
  constructor
  · intro read
    obtain ⟨first, minutes, seconds, rfl, noColon, noColon'⟩ := exists_fields read
    rw [isSome_spanTotal_fields_iff noColon noColon', isSome_spanHours?_iff, naturalBelow?_isSome_iff,
      seconds_iff] at read
    obtain ⟨hours | ⟨days, hours, rfl, dayCount, hourCount⟩, minutesCount, secondsObey⟩ := read
    · exact ⟨none, first, minutes, seconds, rfl, nofun, hours, minutesCount, secondsObey⟩
    · refine ⟨some days, hours, minutes, seconds, ?_, ?_, hourCount, minutesCount, secondsObey⟩
      · rw [List.append_assoc]
        rfl
      · intro _ among
        cases among
        exact dayCount
  · rintro ⟨days, hours, minutes, seconds, rfl, daysObey, hourCount, minutesCount, secondsObey⟩
    have readSeconds := seconds_iff.mpr secondsObey
    have readMinutes := naturalBelow?_isSome_iff.mpr minutesCount
    match days with
    | none =>
        exact (isSome_spanTotal_fields_iff (not_colon hourCount.mem) (not_colon minutesCount.mem)).mpr
          ⟨isSome_spanHours?_iff.mpr (.inl hourCount), readMinutes, readSeconds⟩
    | some days =>
        have dayCount := daysObey days rfl
        have noColon : ∀ c ∈ days ++ '.' :: hours, (c == ':') = false :=
          List.forall_mem_append.mpr ⟨not_colon dayCount.mem,
            List.forall_mem_cons.mpr ⟨rfl, not_colon hourCount.mem⟩⟩
        have reads := (isSome_spanTotal_fields_iff noColon (not_colon minutesCount.mem)).mpr
          ⟨isSome_spanHours?_iff.mpr (.inr ⟨days, hours, rfl, dayCount, hourCount⟩), readMinutes,
            readSeconds⟩
        rwa [List.append_assoc] at reads

theorem exists_iso_text (mark : Char) (dates : List Component)
    (times : Option (Char × List Component)) :
    ∃ body, (iso mark dates times).text = mark :: body := by
  match times with
  | none => exact ⟨_, rfl⟩
  | some (split, times) => exact ⟨_, rfl⟩

/-- What begins with `P` has designators and no clock fields. -/
theorem isSome_isoSeconds_iff_form {mark : Char} {body : List Char} (marked : mark ∈ ['P', 'p']) :
    (isoSeconds body).isSome = true ↔
      ∃ form : DurationForm, form.text = mark :: body ∧ form.Obeys .accepted := by
  rw [isSome_isoSeconds_iff marked]
  constructor
  · rintro ⟨dates, times, same, obeys⟩
    exact ⟨_, same, obeys⟩
  · rintro ⟨form, same, obeys⟩
    cases form with
    | span days hours minutes seconds =>
        exact absurd same (span_ne_iso (obeys.mono DurationRules.accepted_separable) marked)
    | iso mark' dates times =>
        obtain ⟨body', starts⟩ := exists_iso_text mark' dates times
        obtain ⟨rfl, _⟩ := List.cons.inj (starts.symm.trans same)
        exact ⟨dates, times, same, obeys⟩

/-- A text is read as seconds exactly if it has an accepted form. -/
theorem isSome_parsedSeconds_iff {written : List Char} :
    (parsedSeconds written).isSome = true ↔
      ∃ form : DurationForm, form.text = written ∧ form.Obeys .accepted := by
  unfold parsedSeconds
  split
  case h_1 body => exact isSome_isoSeconds_iff_form (by decide)
  case h_2 body => exact isSome_isoSeconds_iff_form (by decide)
  case h_3 upper lower =>
    rw [isSome_spanTotal_iff]
    constructor
    · rintro ⟨days, hours, minutes, seconds, same, obeys⟩
      exact ⟨_, same, obeys⟩
    · rintro ⟨form, rfl, obeys⟩
      cases form with
      | span days hours minutes seconds => exact ⟨days, hours, minutes, seconds, rfl, obeys⟩
      | iso mark dates times =>
          obtain ⟨body, starts⟩ := exists_iso_text mark dates times
          have marked := obeys.1
          simp only [List.mem_cons, List.not_mem_nil, or_false] at marked
          rcases marked with rfl | rfl
          · exact absurd starts (upper body)
          · exact absurd starts (lower body)

end Duration

end CallCapture
