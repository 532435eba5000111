/-!
Binary floating-point numbers as exact values `significand * 2 ^ exponent`. Every operation is the
exact result on natural numbers followed by one rounding to the nearest value of the format, a tie
going to the even significand.
-/

namespace CallCapture

/-- Bits of the significand, and the least and greatest weight of its last bit. -/
structure BinaryFormat where
  precision : Nat
  minExponent : Int
  maxExponent : Int
deriving DecidableEq, Repr

namespace BinaryFormat

def single : BinaryFormat := ⟨24, -149, 104⟩

def double : BinaryFormat := ⟨53, -1074, 971⟩

end BinaryFormat

/-- A number without sign: `significand * 2 ^ exponent`, or past the largest finite value. -/
inductive Magnitude where
  | finite (significand : Nat) (exponent : Int)
  | infinite
deriving DecidableEq, Repr

/-- The nearest integer to `num / den`, a half going to the even neighbour. -/
def roundHalfEven (num den : Nat) : Nat :=
  let quotient := num / den
  let twice := 2 * (num % den)
  if twice > den ∨ (twice = den ∧ quotient % 2 = 1) then quotient + 1 else quotient

/-- The fraction `num / den * 2 ^ exponent`. -/
def scaleByTwo (num den : Nat) (exponent : Int) : Nat × Nat :=
  if 0 ≤ exponent then (num * Nat.pow 2 exponent.toNat, den)
  else (num, den * Nat.pow 2 (-exponent).toNat)

/-- The exponent of the greatest power of two that is at most `num / den`, both positive. -/
def floorLog2 (num den : Nat) : Int :=
  let guess : Int := (num.log2 : Int) - den.log2
  let scaled := scaleByTwo num den (-guess)
  if scaled.2 ≤ scaled.1 then guess else guess - 1

namespace Magnitude

def zero : Magnitude := .finite 0 0

def isZero : Magnitude → Bool
  | .finite significand _ => significand == 0
  | .infinite => false

/-- The finite value as a fraction. -/
def fraction (significand : Nat) (exponent : Int) : Nat × Nat :=
  scaleByTwo significand 1 exponent

def isBelow (bound : Nat) : Magnitude → Bool
  | .finite significand exponent =>
      let value := fraction significand exponent
      value.1 < bound * value.2
  | .infinite => false

end Magnitude

namespace BinaryFormat

variable (format : BinaryFormat)

/-- The value of the format nearest to `num / den`. -/
def round (num den : Nat) : Magnitude :=
  if num = 0 then .zero
  else
    let exponent := max format.minExponent (floorLog2 num den + 1 - format.precision)
    let scaled := scaleByTwo num den (-exponent)
    let significand := roundHalfEven scaled.1 scaled.2
    if significand < Nat.pow 2 format.precision then
      if format.maxExponent < exponent then .infinite else .finite significand exponent
    else
      if format.maxExponent < exponent + 1 then .infinite
      else .finite (Nat.pow 2 (format.precision - 1)) (exponent + 1)

def add : Magnitude → Magnitude → Magnitude
  | .finite m e, .finite n f =>
      let left := Magnitude.fraction m e
      let right := Magnitude.fraction n f
      format.round (left.1 * right.2 + right.1 * left.2) (left.2 * right.2)
  | _, _ => .infinite

def mul : Magnitude → Magnitude → Magnitude
  | .finite m e, .finite n f =>
      let left := Magnitude.fraction m e
      let right := Magnitude.fraction n f
      format.round (left.1 * right.1) (left.2 * right.2)
  | _, _ => .infinite

def ofNat (number : Nat) : Magnitude :=
  format.round number 1

/-- Number of decimal digits, none for zero. -/
def decimalLength (number : Nat) : Nat :=
  if number = 0 then 0 else (Nat.toDigits 10 number).length

/--
The value nearest to `digits * 10 ^ exponent`. A number of magnitude `10 ^ 400` or more is past
every format and one below `10 ^ (-400)` is nearest to zero, so huge exponents are never expanded.
-/
def ofDecimal (digits : Nat) (exponent : Int) : Magnitude :=
  let leading := exponent + decimalLength digits
  if digits = 0 ∨ leading < -400 then .zero
  else if 400 < leading then .infinite
  else if 0 ≤ exponent then format.round (digits * Nat.pow 10 exponent.toNat) 1
  else format.round digits (Nat.pow 10 (-exponent).toNat)

end BinaryFormat

/-- What a bit pattern of a binary format stands for. -/
inductive BinaryValue where
  | notANumber
  | number (negative : Bool) (magnitude : Magnitude)
deriving DecidableEq, Repr

namespace BinaryFormat

/--
Reads sign, biased exponent and fraction, from the most significant bit down. The exponent field of
all ones is infinity or not a number, the one of all zeros has no implied leading bit.
-/
def ofBits (format : BinaryFormat) (exponentBits : Nat) (bits : Nat) : BinaryValue :=
  let fractionBits := format.precision - 1
  let fraction := bits % Nat.pow 2 fractionBits
  let field := bits / Nat.pow 2 fractionBits % Nat.pow 2 exponentBits
  let negative := bits / Nat.pow 2 (fractionBits + exponentBits) % 2 == 1
  if field = Nat.pow 2 exponentBits - 1 then
    if fraction = 0 then .number negative .infinite else .notANumber
  else if field = 0 then .number negative (.finite fraction format.minExponent)
  else
    .number negative
      (.finite (Nat.pow 2 fractionBits + fraction) (format.minExponent + field - 1))

end BinaryFormat

end CallCapture
