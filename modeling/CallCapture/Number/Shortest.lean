import CallCapture.Number.Binary

/-!
The decimal text of a binary number: the fewest digits that read back as the same value, the nearest
of those, written without an exponent.
-/

namespace CallCapture

/-- The number `digits * 10 ^ exponent`. -/
structure Decimal where
  digits : Nat
  exponent : Int
deriving DecidableEq, Repr

/-- All digits in their places, with a point only where a fraction follows. -/
def Decimal.positional (decimal : Decimal) : String :=
  if 0 ≤ decimal.exponent then
    toString (decimal.digits * Nat.pow 10 decimal.exponent.toNat)
  else
    let places := (-decimal.exponent).toNat
    let digits := (Nat.toDigits 10 decimal.digits).leftpad (places + 1) '0'
    let whole := digits.length - places
    String.ofList (digits.take whole ++ '.' :: digits.drop whole)

/-- The reals that round to a value, all over one denominator. -/
structure RoundingInterval where
  lower : Nat
  value : Nat
  upper : Nat
  denominator : Nat
  /-- Whether the ends themselves round to the value. -/
  closed : Bool

/--
Half the distance to either neighbour. Below a power of two the neighbours lie twice as close.
-/
def BinaryFormat.roundingInterval (format : BinaryFormat) (significand : Nat) (exponent : Int) :
    RoundingInterval :=
  let scaled := scaleByTwo 1 4 exponent
  let below :=
    if significand = Nat.pow 2 (format.precision - 1) ∧ format.minExponent < exponent then 1 else 2
  { lower := (4 * significand - below) * scaled.1
    value := 4 * significand * scaled.1
    upper := (4 * significand + 2) * scaled.1
    denominator := scaled.2
    closed := significand % 2 == 0 }

namespace RoundingInterval

/-- Whether `count` steps of `num / den` each end inside the interval. -/
def holds (interval : RoundingInterval) (num den count : Nat) : Bool :=
  let point := count * num * interval.denominator
  if interval.closed then interval.lower * den ≤ point ∧ point ≤ interval.upper * den
  else interval.lower * den < point ∧ point < interval.upper * den

/-- The exponent of the greatest power of ten that is at most the value, which is positive. -/
def decimalExponent (interval : RoundingInterval) : Int :=
  if interval.denominator ≤ interval.value then
    (BinaryFormat.decimalLength (interval.value / interval.denominator) : Int) - 1
  else -(BinaryFormat.decimalLength ((interval.denominator - 1) / interval.value) : Int)

/--
The multiple of `10 ^ exponent` in the interval that is nearest to the value; of two equally near
ones the greater. Only the two neighbours of the value can be it.
-/
def nearestOnGrid (interval : RoundingInterval) (exponent : Int) : Option Nat :=
  let num := if 0 ≤ exponent then Nat.pow 10 exponent.toNat else 1
  let den := if 0 ≤ exponent then 1 else Nat.pow 10 (-exponent).toNat
  let step := num * interval.denominator
  let below := interval.value * den / step
  let rest := interval.value * den % step
  match interval.holds num den below, interval.holds num den (below + 1) with
  | true, true => some (if 2 * rest < step then below else below + 1)
  | true, false => some below
  | false, true => some (below + 1)
  | false, false => none

/-- Tries one digit, then two, and so on: seventeen suffice for every format up to `double`. -/
def shortest (interval : RoundingInterval) : Decimal :=
  let leading := interval.decimalExponent
  let tried := (List.range 17).findSome? fun (more : Nat) =>
    (interval.nearestOnGrid (leading - more)).map fun digits =>
      if digits = Nat.pow 10 (more + 1) then ⟨1, leading + 1⟩ else ⟨digits, leading - more⟩
  tried.getD ⟨0, 0⟩

end RoundingInterval

namespace BinaryFormat

/-- The shortest decimal that reads back as `significand * 2 ^ exponent`. -/
def shortest (format : BinaryFormat) (significand : Nat) (exponent : Int) : Decimal :=
  if significand = 0 then ⟨0, 0⟩ else (format.roundingInterval significand exponent).shortest

def text (format : BinaryFormat) : Magnitude → String
  | .finite significand exponent => (format.shortest significand exponent).positional
  | .infinite => "Infinity"

/-- The text of a bit pattern: the sign is kept on zero and infinity, and a non-number has none. -/
def valueText (format : BinaryFormat) : BinaryValue → String
  | .notANumber => "NaN"
  | .number true magnitude => "-" ++ format.text magnitude
  | .number false magnitude => format.text magnitude

end BinaryFormat

end CallCapture
