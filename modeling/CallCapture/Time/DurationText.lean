import CallCapture.Error
import CallCapture.Number.Decimal
import CallCapture.Text.Blank

/-!
Reading durations. Two forms are understood: ISO 8601 designators of weeks, days, hours, minutes and
seconds, and `[d.]hh:mm:ss[.f]`. Amounts are doubles, added from left to right.
-/

namespace CallCapture

namespace Duration

/-- The nearest double, and the arithmetic on doubles that sums a duration. -/
def amount (number : Nat) : Magnitude :=
  BinaryFormat.double.ofNat number

def weighted (value : Magnitude) (secondsPerUnit : Nat) : Magnitude :=
  BinaryFormat.double.mul value (amount secondsPerUnit)

/-- Seconds in a unit of the date part. -/
def dateUnit? (designator : Char) : Option Nat :=
  match designator.toUpper with
  | 'W' => some 604800
  | 'D' => some 86400
  | _ => none

/-- Seconds in a unit of the time part. -/
def timeUnit? (designator : Char) : Option Nat :=
  match designator.toUpper with
  | 'H' => some 3600
  | 'M' => some 60
  | 'S' => some 1
  | _ => none

/--
Pairs of a number and the letter after it. `number` holds what has been read of the current number,
with a comma already taken as a point; nothing may be left over at the end.
-/
def components (number : List Char) : List Char → Option (List (Decimal × Char))
  | [] => if number.isEmpty then some [] else none
  | c :: rest =>
      if c.isAlpha then do
        let value ← Decimal.ofPlain? number
        let others ← components [] rest
        some ((value, c) :: others)
      else if c.isDigit || c == '.' then components (number ++ [c]) rest
      else if c == ',' then components (number ++ ['.']) rest
      else none

/-- Adds the components to `total`, each in its unit. -/
def sum (unit? : Char → Option Nat) (total : Magnitude) :
    List (Decimal × Char) → Option Magnitude
  | [] => some total
  | (value, designator) :: rest => do
      let unit ← unit? designator
      sum unit? (BinaryFormat.double.add total (weighted value.toDouble unit)) rest

/-- The part after the leading `P`: dates, then optionally `T` and at least one time. -/
def isoSeconds (body : List Char) : Option Magnitude := do
  let (date, time) := Text.cut (fun c => c == 'T' || c == 't') body
  let dates ← components [] date
  let total ← sum dateUnit? .zero dates
  match time with
  | none => if dates.isEmpty then none else some total
  | some time =>
      let times ← components [] time
      if times.isEmpty then none else sum timeUnit? total times

/-- Seconds of the span form: a number with an optional sign, at least zero and below sixty. -/
def spanSeconds? (text : List Char) : Option Magnitude := do
  let (negative, digits) := Decimal.signed text
  let value := (← Decimal.ofScientific? digits).toDouble
  if value.isBelow 60 && (!negative || value.isZero) then some value else none

/-- Whole days and hours of the span form, separated by a point. -/
def spanHours? (text : List Char) : Option (Nat × Nat) :=
  match Text.cut (· == '.') text with
  | (days, some hours) => do
      some (← naturalBelow? secondsBound days, ← naturalBelow? secondsBound hours)
  | (hours, none) => do some (0, ← naturalBelow? secondsBound hours)

/-- Three fields separated by colons. -/
def spanTotal (text : List Char) : Option Magnitude := do
  let (hours, rest) := Text.cut (· == ':') text
  let (minutes, seconds) := Text.cut (· == ':') (← rest)
  let (days, hours) ← spanHours? hours
  let minutes ← naturalBelow? 60 minutes
  let seconds ← spanSeconds? (← seconds)
  let format := BinaryFormat.double
  let whole := format.add (format.add (weighted (amount days) 86400) (weighted (amount hours) 3600))
    (weighted (amount minutes) 60)
  some (format.add whole seconds)

/-- Seconds written by either form. -/
def parsedSeconds (text : List Char) : Option Magnitude :=
  match text with
  | 'P' :: body => isoSeconds body
  | 'p' :: body => isoSeconds body
  | _ => spanTotal text

/-- Reads a duration; blanks around it do not count. -/
def parse (text : String) : Except Error Duration :=
  let trimmed := Text.trim text.toList
  match parsedSeconds trimmed with
  | none => .error (.invalidRequest (.unrecognizedDuration (String.ofList trimmed)))
  | some seconds =>
      match nearest? seconds with
      | none => .error (.invalidRequest (.durationOutOfRange (String.ofList trimmed)))
      | some duration => .ok duration

end Duration

end CallCapture
