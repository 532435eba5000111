/-!
Points in time and their text in the proleptic Gregorian calendar, in universal time. A leap second has
no number of its own: it lies a whole second past the last second of its minute, and is written as
second 60.
-/

namespace CallCapture

/--
Seconds since the beginning of 1970, leap seconds not counted, and nanoseconds past them; a whole second
of nanoseconds or more lies in a leap second.
-/
structure Timestamp where
  seconds : Int
  nanoseconds : Nat
deriving DecidableEq, Repr

namespace Timestamp

def perSecond : Nat := 1000000000

/-- Leap seconds past the counted one, at most one. -/
def leap (timestamp : Timestamp) : Nat :=
  timestamp.nanoseconds / perSecond

/-- Nanoseconds past the whole second, which may be a leap second. -/
def fraction (timestamp : Timestamp) : Nat :=
  timestamp.nanoseconds % perSecond

structure Date where
  year : Int
  month : Nat
  day : Nat
deriving DecidableEq, Repr

/--
The date a number of days after the beginning of 1970. Years are counted from March, so that a leap
day comes last, in cycles of 400 years, which all have the same number of days.
-/
def date (days : Int) : Date :=
  let shifted := days + 719468
  let cycle := shifted.fdiv 146097
  let dayOfCycle := (shifted.fmod 146097).toNat
  let yearOfCycle :=
    (dayOfCycle - dayOfCycle / 1460 + dayOfCycle / 36524 - dayOfCycle / 146096) / 365
  let dayOfYear := dayOfCycle - (365 * yearOfCycle + yearOfCycle / 4 - yearOfCycle / 100)
  let monthFromMarch := (5 * dayOfYear + 2) / 153
  let month := if monthFromMarch < 10 then monthFromMarch + 3 else monthFromMarch - 9
  { year := cycle * 400 + yearOfCycle + (if month ≤ 2 then 1 else 0)
    month := month
    day := dayOfYear - (153 * monthFromMarch + 2) / 5 + 1 }

/-- Decimal digits, filled up with zeros. -/
def padded (width number : Nat) : String :=
  String.ofList ((Nat.toDigits 10 number).leftpad width '0')

/-- Four digits; a year that does not fit them has a sign. -/
def yearText (year : Int) : String :=
  if 0 ≤ year ∧ year ≤ 9999 then padded 4 year.toNat
  else (if year < 0 then "-" else "+") ++ padded 4 year.natAbs

/-- Date and time of day, a fraction of the second, and the mark of universal time. -/
def textWith (fraction : String) (timestamp : Timestamp) : String :=
  let date := date (timestamp.seconds.fdiv 86400)
  let second := (timestamp.seconds.fmod 86400).toNat
  yearText date.year ++ "-" ++ padded 2 date.month ++ "-" ++ padded 2 date.day ++ "T"
    ++ padded 2 (second / 3600) ++ ":" ++ padded 2 (second / 60 % 60) ++ ":"
    ++ padded 2 (second % 60 + timestamp.leap) ++ fraction ++ "Z"

/-- Three digits of the second's fraction, the rest cut off. -/
def millisecondText (timestamp : Timestamp) : String :=
  timestamp.textWith ("." ++ padded 3 (timestamp.fraction / 1000000))

/-- As many digits of the second's fraction as it needs, in groups of three. -/
def exactText (timestamp : Timestamp) : String :=
  let nanoseconds := timestamp.fraction
  timestamp.textWith <|
    if nanoseconds = 0 then ""
    else if nanoseconds % 1000000 = 0 then "." ++ padded 3 (nanoseconds / 1000000)
    else if nanoseconds % 1000 = 0 then "." ++ padded 6 (nanoseconds / 1000)
    else "." ++ padded 9 nanoseconds

end Timestamp

end CallCapture
