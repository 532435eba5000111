import CallCapture.Number.Shortest

/-!
Spans of time in whole nanoseconds, and their ISO 8601 text.
-/

namespace CallCapture

structure Duration where
  nanoseconds : Nat
deriving DecidableEq, Repr

namespace Duration

def perSecond : Nat := 1000000000

def ofParts (seconds nanoseconds : Nat) : Duration :=
  ⟨seconds * perSecond + nanoseconds⟩

def ofSeconds (seconds : Nat) : Duration :=
  ofParts seconds 0

def zero : Duration := ⟨0⟩

def seconds (duration : Duration) : Nat :=
  duration.nanoseconds / perSecond

/-- Nanoseconds past the last whole second. -/
def fraction (duration : Duration) : Nat :=
  duration.nanoseconds % perSecond

def milliseconds (duration : Duration) : Nat :=
  duration.nanoseconds / 1000000

/-- Durations count their seconds in 64 bits. -/
def secondsBound : Nat := UInt64.size

/--
The duration nearest to a number of seconds, half a nanosecond going to the even neighbour; none if
the seconds do not fit.
-/
def nearest? : Magnitude → Option Duration
  | .infinite => none
  | .finite significand exponent =>
      let value := Magnitude.fraction significand exponent
      let nanoseconds := roundHalfEven (value.1 * perSecond) value.2
      if nanoseconds < secondsBound * perSecond then some ⟨nanoseconds⟩ else none

/-- Seconds as a double: whole seconds and the fraction are each rounded, and then their sum. -/
def secondsDouble (duration : Duration) : Magnitude :=
  let format := BinaryFormat.double
  format.add (format.ofNat duration.seconds) (format.round duration.fraction perSecond)

/-- Seconds only: whole ones exactly, others as the shortest text of their double. -/
def text (duration : Duration) : String :=
  let amount :=
    if duration.fraction = 0 then toString duration.seconds
    else BinaryFormat.double.text duration.secondsDouble
  "PT" ++ amount ++ "S"

end Duration

end CallCapture
