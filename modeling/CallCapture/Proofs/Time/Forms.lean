import CallCapture.Proofs.Text.Plain
import CallCapture.Proofs.Time.Components

/-!
The two written forms of a duration, as syntax: what a form is written as, and which rules its parts
obey. Under rules that keep the separators apart from what they separate, a text has one form at most.
-/

namespace CallCapture

/-- Designators after `P`, and clock fields with or without days. -/
inductive DurationForm where
  | iso (mark : Char) (dates : List Component) (times : Option (Char × List Component))
  | span (days : Option (List Char)) (hours minutes seconds : List Char)
deriving DecidableEq, Repr

/-- What is asked of the parts of a form. -/
structure DurationRules where
  amount : List Char → Prop
  /-- The letters of the date part in their order, in upper case. -/
  dates : List Char → Prop
  times : List Char → Prop
  /-- Days and hours of the clock fields. -/
  whole : List Char → Prop
  minutes : List Char → Prop
  seconds : List Char → Prop

namespace DurationRules

open Text

/--
The documented forms: letters in order and not repeated, decimals with digits on both sides of a point
or comma, and clock fields of digits only, minutes and seconds below sixty.
-/
def documented : DurationRules where
  amount := Strict ['.', ',']
  dates letters := letters.Sublist ['W', 'D']
  times letters := letters.Sublist ['H', 'M', 'S']
  whole := Digits
  minutes text := Digits text ∧ ofDigits text < 60
  seconds text := Strict ['.'] text ∧ ofDigits (cut (· == '.') text).1 < 60

/-- The documented forms without their bounds on numbers. -/
def regular : DurationRules where
  amount := Strict ['.', ',']
  dates letters := letters.Sublist ['W', 'D']
  times letters := letters.Sublist ['H', 'M', 'S']
  whole := Digits
  minutes := Digits
  seconds := Strict ['.']

/--
What is read as a duration: letters in any order and any number of times, a point or comma at either
end of a decimal, whole numbers with a plus sign, and seconds with a sign and a power of ten.
-/
def accepted : DurationRules where
  amount := Plain ['.', ',']
  dates letters := ∀ letter ∈ letters, letter ∈ ['W', 'D']
  times letters := ∀ letter ∈ letters, letter ∈ ['H', 'M', 'S']
  whole := Count Duration.secondsBound
  minutes := Count 60
  seconds text := Signed Scientific text ∧ (Duration.spanSeconds? text).isSome = true

/-- No part contains what separates it from the next. -/
def separable : DurationRules where
  amount text := ∀ c ∈ text, c.isAlpha = false
  dates letters := ∀ letter ∈ letters, letter.isAlpha = true ∧ letter ≠ 'T'
  times letters := ∀ letter ∈ letters, letter.isAlpha = true
  whole text := ∀ c ∈ text, c.isDigit = true ∨ c = '+'
  minutes text := ∀ c ∈ text, c.isDigit = true ∨ c = '+'
  seconds _ := True

/-- Whatever obeys the one rules obeys the others. -/
structure Stricter (rules others : DurationRules) : Prop where
  amount : ∀ text, rules.amount text → others.amount text
  dates : ∀ letters, rules.dates letters → others.dates letters
  times : ∀ letters, rules.times letters → others.times letters
  whole : ∀ text, rules.whole text → others.whole text
  minutes : ∀ text, rules.minutes text → others.minutes text
  seconds : ∀ text, rules.seconds text → others.seconds text

end DurationRules

/-- Components with amounts and letters as asked. -/
structure Component.Obey (amount letters : List Char → Prop) (written : List Component) : Prop where
  amounts : ∀ component ∈ written, amount component.amount
  letters : letters (written.map (·.designator.toUpper))

theorem Component.Obey.mono {amount amount' letters letters' : List Char → Prop}
    {written : List Component} (obey : Component.Obey amount letters written)
    (amounts : ∀ text, amount text → amount' text) (order : ∀ text, letters text → letters' text) :
    Component.Obey amount' letters' written :=
  ⟨fun component among => amounts _ (obey.amounts component among), order _ obey.letters⟩

namespace DurationForm

def text : DurationForm → List Char
  | .iso mark dates none => mark :: dates.flatMap Component.text
  | .iso mark dates (some (split, times)) =>
      mark :: (dates.flatMap Component.text ++ split :: times.flatMap Component.text)
  | .span none hours minutes seconds => hours ++ ':' :: (minutes ++ ':' :: seconds)
  | .span (some days) hours minutes seconds =>
      days ++ '.' :: (hours ++ ':' :: (minutes ++ ':' :: seconds))

/-- There is at least one component, and at least one after the `T`; letters count in either case. -/
def Obeys (rules : DurationRules) : DurationForm → Prop
  | .iso mark dates times =>
      mark ∈ ['P', 'p'] ∧ Component.Obey rules.amount rules.dates dates ∧
        match times with
        | none => dates ≠ []
        | some (split, times) =>
            split ∈ ['T', 't'] ∧ times ≠ [] ∧ Component.Obey rules.amount rules.times times
  | .span days hours minutes seconds =>
      (∀ written ∈ days, rules.whole written) ∧ rules.whole hours ∧ rules.minutes minutes ∧
        rules.seconds seconds

/-- The text is one of the documented forms. -/
def Documented (written : List Char) : Prop :=
  ∃ form : DurationForm, form.text = written ∧ form.Obeys .documented

variable {rules others : DurationRules} {form : DurationForm}

theorem Obeys.mono (obeys : form.Obeys rules) (stricter : rules.Stricter others) :
    form.Obeys others := by
  cases form with
  | iso mark dates times =>
      obtain ⟨marked, datesObey, rest⟩ := obeys
      refine ⟨marked, datesObey.mono stricter.amount stricter.dates, ?_⟩
      match times with
      | none => exact rest
      | some (split, times) =>
          obtain ⟨separated, some_time, timesObey⟩ := rest
          exact ⟨separated, some_time, timesObey.mono stricter.amount stricter.times⟩
  | span days hours minutes seconds =>
      obtain ⟨daysObey, hoursObey, minutesObey, secondsObey⟩ := obeys
      exact ⟨fun written among => stricter.whole _ (daysObey written among),
        stricter.whole _ hoursObey, stricter.minutes _ minutesObey, stricter.seconds _ secondsObey⟩

end DurationForm

/-! ### Letters -/

theorem Text.isAlpha_of_toUpper {c : Char} (upper : c.toUpper.isAlpha = true) : c.isAlpha = true := by
  unfold Char.toUpper at upper
  split at upper
  case isTrue lower =>
    exact isAlpha_iff.mpr (.inr lower)
  case isFalse => exact upper

namespace DurationRules

open Text

theorem isAmount_of_plain {c : Char} {text : List Char} (plain : Plain ['.', ','] text)
    (written : c ∈ text) : Component.IsAmount c := by
  rcases plain.mem c written with digit | point
  · exact .inl digit
  · simpa [Component.IsAmount] using Or.inr point

theorem dateLetters : ∀ letter ∈ ['W', 'D'], letter.isAlpha = true ∧ letter ≠ 'T' := by
  intro letter among
  simp only [List.mem_cons, List.not_mem_nil, or_false] at among
  rcases among with rfl | rfl <;> decide

theorem timeLetters : ∀ letter ∈ ['H', 'M', 'S'], letter.isAlpha = true :=
  List.all_eq_true.mp rfl

theorem accepted_separable : accepted.Stricter separable where
  amount _ plain _ written := (isAmount_of_plain plain written).not_isAlpha
  dates _ only letter among := dateLetters letter (only letter among)
  times _ only letter among := timeLetters letter (only letter among)
  whole _ count := count.mem
  minutes _ count := count.mem
  seconds _ _ := trivial

theorem documented_separable : documented.Stricter separable where
  amount _ strict _ written := (isAmount_of_plain strict.toPlain written).not_isAlpha
  dates _ ordered letter among := dateLetters letter (ordered.subset among)
  times _ ordered letter among := timeLetters letter (ordered.subset among)
  whole _ digits c written := .inl (digits.decimal c written)
  minutes _ digits c written := .inl (digits.1.decimal c written)
  seconds _ _ := trivial

theorem documented_regular : documented.Stricter regular where
  amount _ strict := strict
  dates _ ordered := ordered
  times _ ordered := ordered
  whole _ digits := digits
  minutes _ digits := digits.1
  seconds _ strict := strict.1

end DurationRules

/-! ### Separators -/

namespace DurationForm

/-- Between the date part and the time part. -/
def isSplit (c : Char) : Bool :=
  c == 'T' || c == 't'

theorem isSplit_iff {c : Char} : isSplit c = true ↔ c ∈ ['T', 't'] := by
  simp [isSplit]

/-- Between clock fields. -/
def isFieldMark (c : Char) : Bool :=
  c == '.' || c == ':'

theorem not_isFieldMark {text : List Char} (whole : ∀ c ∈ text, c.isDigit = true ∨ c = '+') :
    ∀ c ∈ text, isFieldMark c = false := by
  intro c written
  rcases whole c written with digit | rfl
  · rw [isFieldMark, Bool.or_eq_false_iff, beq_eq_false_iff_ne, beq_eq_false_iff_ne]
    exact ⟨Text.ne_of_isDigit digit rfl, Text.ne_of_isDigit digit rfl⟩
  · rfl

theorem not_point {text : List Char} (whole : ∀ c ∈ text, c.isDigit = true ∨ c = '+') :
    ∀ c ∈ text, (c == '.') = false :=
  fun c written => (Bool.or_eq_false_iff.mp (not_isFieldMark whole c written)).1

theorem not_colon {text : List Char} (whole : ∀ c ∈ text, c.isDigit = true ∨ c = '+') :
    ∀ c ∈ text, (c == ':') = false :=
  fun c written => (Bool.or_eq_false_iff.mp (not_isFieldMark whole c written)).2

end DurationForm

/-! ### One form for a text -/

namespace Component

/-- Components whose letters can be told from their amounts. -/
abbrev Separable (letters : List Char → Prop) (written : List Component) : Prop :=
  Obey (fun text => ∀ c ∈ text, c.isAlpha = false) letters written

theorem flatMap_text_inj {first second : List Component}
    (separable : Separable DurationRules.separable.times first)
    (separable' : Separable DurationRules.separable.times second)
    (same : first.flatMap text = second.flatMap text) : first = second := by
  induction first generalizing second with
  | nil =>
      cases second with
      | nil => rfl
      | cons component rest => simp [text] at same
  | cons component rest ih =>
      cases second with
      | nil => simp [text] at same
      | cons component' rest' =>
          obtain ⟨amount, amounts⟩ := List.forall_mem_cons.mp separable.amounts
          obtain ⟨amount', amounts'⟩ := List.forall_mem_cons.mp separable'.amounts
          obtain ⟨letter, letters⟩ := List.forall_mem_cons.mp separable.letters
          obtain ⟨letter', letters'⟩ := List.forall_mem_cons.mp separable'.letters
          simp only [List.flatMap_cons, text, List.append_assoc, List.singleton_append] at same
          obtain ⟨sameAmount, sameLetter, tail⟩ := Text.append_mark_inj amount amount'
            (Text.isAlpha_of_toUpper letter) (Text.isAlpha_of_toUpper letter') same
          have others := ih ⟨amounts, letters⟩ ⟨amounts', letters'⟩ tail
          cases component
          cases component'
          cases sameAmount
          cases sameLetter
          rw [others]

/-- The date part holds no `T`. -/
theorem not_split_of_mem {dates : List Component}
    (separable : Separable DurationRules.separable.dates dates) :
    ∀ c ∈ dates.flatMap text, DurationForm.isSplit c = false := by
  intro c written
  rw [DurationForm.isSplit, Bool.or_eq_false_iff, beq_eq_false_iff_ne, beq_eq_false_iff_ne]
  obtain ⟨component, among, inside⟩ := List.mem_flatMap.mp written
  rcases List.mem_append.mp inside with amount | designator
  · have other := separable.amounts component among c amount
    constructor
    · rintro rfl
      contradiction
    · rintro rfl
      contradiction
  · have other := (separable.letters _ (List.mem_map_of_mem among)).2
    rw [← List.mem_singleton.mp designator] at other
    constructor
    · rintro rfl
      exact other rfl
    · rintro rfl
      exact other rfl

end Component

namespace DurationForm

variable {form other : DurationForm}

/-- Clock fields do not begin with `P`. -/
theorem span_ne_iso {days : Option (List Char)} {hours minutes seconds body : List Char} {mark : Char}
    (obeys : (span days hours minutes seconds).Obeys .separable) (marked : mark ∈ ['P', 'p']) :
    (span days hours minutes seconds).text ≠ mark :: body := by
  have start {field rest : List Char} {separator : Char}
      (whole : ∀ c ∈ field, c.isDigit = true ∨ c = '+') (separates : separator ∈ ['.', ':']) :
      field ++ separator :: rest ≠ mark :: body := by
    intro same
    have first : mark.isDigit = true ∨ mark = '+' ∨ mark ∈ ['.', ':'] := by
      cases field with
      | nil =>
          rw [← (List.cons.inj same).1]
          exact .inr (.inr separates)
      | cons c field =>
          rw [← (List.cons.inj same).1]
          exact (whole c List.mem_cons_self).imp id .inl
    simp only [List.mem_cons, List.not_mem_nil, or_false] at marked
    rcases marked with rfl | rfl <;> exact absurd first (by decide)
  obtain ⟨daysObey, hoursObey, _⟩ := obeys
  cases days with
  | none => exact start hoursObey (by decide)
  | some days => exact start (daysObey days rfl) (by decide)

theorem clock_inj {hours hours' minutes minutes' seconds seconds' : List Char}
    (hoursObey : DurationRules.separable.whole hours)
    (hoursObey' : DurationRules.separable.whole hours')
    (minutesObey : DurationRules.separable.minutes minutes)
    (minutesObey' : DurationRules.separable.minutes minutes')
    (same : hours ++ ':' :: (minutes ++ ':' :: seconds) =
      hours' ++ ':' :: (minutes' ++ ':' :: seconds')) :
    hours = hours' ∧ minutes = minutes' ∧ seconds = seconds' := by
  obtain ⟨first, _, rest⟩ :=
    Text.append_mark_inj (not_colon hoursObey) (not_colon hoursObey') rfl rfl same
  obtain ⟨second, _, third⟩ :=
    Text.append_mark_inj (not_colon minutesObey) (not_colon minutesObey') rfl rfl rest
  exact ⟨first, second, third⟩

theorem span_inj {days days' : Option (List Char)}
    {hours hours' minutes minutes' seconds seconds' : List Char}
    (obeys : (span days hours minutes seconds).Obeys .separable)
    (obeys' : (span days' hours' minutes' seconds').Obeys .separable)
    (same : (span days hours minutes seconds).text = (span days' hours' minutes' seconds').text) :
    span days hours minutes seconds = span days' hours' minutes' seconds' := by
  obtain ⟨daysObey, hoursObey, minutesObey, _⟩ := obeys
  obtain ⟨daysObey', hoursObey', minutesObey', _⟩ := obeys'
  -- What ends the first field tells whether it counts days.
  match days, days' with
  | none, none =>
      obtain ⟨rfl, rfl, rfl⟩ := clock_inj hoursObey hoursObey' minutesObey minutesObey' same
      rfl
  | some days, some days' =>
      obtain ⟨rfl, _, rest⟩ := Text.append_mark_inj (not_isFieldMark (daysObey days rfl))
        (not_isFieldMark (daysObey' days' rfl)) rfl rfl same
      obtain ⟨rfl, rfl, rfl⟩ := clock_inj hoursObey hoursObey' minutesObey minutesObey' rest
      rfl
  | none, some days' =>
      obtain ⟨_, marks, _⟩ := Text.append_mark_inj (not_isFieldMark hoursObey)
        (not_isFieldMark (daysObey' days' rfl)) rfl rfl same
      contradiction
  | some days, none =>
      obtain ⟨_, marks, _⟩ := Text.append_mark_inj (not_isFieldMark (daysObey days rfl))
        (not_isFieldMark hoursObey') rfl rfl same
      contradiction

theorem iso_inj {mark mark' : Char} {dates dates' : List Component}
    {times times' : Option (Char × List Component)} (obeys : (iso mark dates times).Obeys .separable)
    (obeys' : (iso mark' dates' times').Obeys .separable)
    (same : (iso mark dates times).text = (iso mark' dates' times').text) :
    iso mark dates times = iso mark' dates' times' := by
  obtain ⟨_, datesObey, rest⟩ := obeys
  obtain ⟨_, datesObey', rest'⟩ := obeys'
  have letters := datesObey.mono (fun _ => id) fun _ only letter among => (only letter among).1
  have letters' := datesObey'.mono (fun _ => id) fun _ only letter among => (only letter among).1
  have unsplit := Component.not_split_of_mem datesObey
  have unsplit' := Component.not_split_of_mem datesObey'
  match times, times' with
  | none, none =>
      obtain ⟨rfl, body⟩ := List.cons.inj same
      rw [Component.flatMap_text_inj letters letters' body]
  | some (split, times), some (split', times') =>
      obtain ⟨rfl, body⟩ := List.cons.inj same
      obtain ⟨dates, rfl, times⟩ := Text.append_mark_inj unsplit unsplit' (isSplit_iff.mpr rest.1)
        (isSplit_iff.mpr rest'.1) body
      rw [Component.flatMap_text_inj letters letters' dates,
        Component.flatMap_text_inj rest.2.2 rest'.2.2 times]
  | none, some (split', times') =>
      obtain ⟨rfl, body⟩ := List.cons.inj same
      have inside := unsplit split' (body ▸ List.mem_append_right _ List.mem_cons_self)
      rw [isSplit_iff.mpr rest'.1] at inside
      contradiction
  | some (split, times), none =>
      obtain ⟨rfl, body⟩ := List.cons.inj same
      have inside := unsplit' split (body ▸ List.mem_append_right _ List.mem_cons_self)
      rw [isSplit_iff.mpr rest.1] at inside
      contradiction

/-- A text has one form at most. -/
theorem text_inj (obeys : form.Obeys .separable) (obeys' : other.Obeys .separable)
    (same : form.text = other.text) : form = other := by
  cases form with
  | iso mark dates times =>
      cases other with
      | iso => exact iso_inj obeys obeys' same
      | span =>
          match times with
          | none => exact absurd same.symm (span_ne_iso obeys' obeys.1)
          | some (split, times) => exact absurd same.symm (span_ne_iso obeys' obeys.1)
  | span days hours minutes seconds =>
      cases other with
      | span => exact span_inj obeys obeys' same
      | iso mark dates times =>
          match times with
          | none => exact absurd same (span_ne_iso obeys obeys'.1)
          | some (split, times) => exact absurd same (span_ne_iso obeys obeys'.1)

end DurationForm

end CallCapture
