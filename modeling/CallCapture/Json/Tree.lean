import CallCapture.Number.Decimal

/-!
JSON documents as trees. The fields of an object keep their order and may repeat. A string that is
no sequence of characters, because a surrogate stands alone in it or a byte is not UTF-8, has no
value: it does no harm where it is skipped.
-/

namespace CallCapture

/-- A numeral in parts, each as it was written. -/
structure JsonNumber where
  negative : Bool
  whole : List Char
  fraction : List Char
  power : Int
  /-- Neither a fraction nor a power was written. -/
  integral : Bool
deriving DecidableEq, Repr

inductive JsonTree where
  | null
  | bool (value : Bool)
  | number (value : JsonNumber)
  | string (value : Option String)
  | array (items : List JsonTree)
  | object (fields : List (Option String × JsonTree))

namespace JsonNumber

def ofNat (number : Nat) : JsonNumber :=
  ⟨false, Nat.toDigits 10 number, [], 0, true⟩

/-- Whole numbers are read into 64 bits. -/
def wordBound : Nat := UInt64.size

/-- The numeral as a whole number; one with a sign, a fraction or a power is none. -/
def natural? (number : JsonNumber) : Option Nat :=
  let value := ofDigits number.whole
  if number.negative || !number.integral || wordBound ≤ value then none else some value

/-- Takes digits onto a number for as long as it fits a word, and counts the digits left. -/
def absorb (value : Nat) : List Char → Nat × Nat
  | [] => (value, 0)
  | digit :: rest =>
      let next := ofDigits [digit] + 10 * value
      if next < wordBound then absorb next rest else (value, rest.length + 1)

/--
Whether the numeral is in the range of a double, judged by its leading digits: those that fit a
word, times a power of ten. Digits left over in the whole part raise the power, others are dropped.
-/
def fitsDouble (number : JsonNumber) : Bool :=
  let (whole, left) := absorb 0 number.whole
  let (digits, dropped) := absorb whole number.fraction
  let power := number.power + left - (number.fraction.length - dropped : Nat)
  let format := BinaryFormat.double
  digits == 0 || power < 0 ||
    (power ≤ 308 && format.mul (format.ofNat digits) (format.ofDecimal 1 power) != .infinite)

end JsonNumber

namespace JsonTree

def text (value : String) : JsonTree :=
  .string (some value)

def natural (value : Nat) : JsonTree :=
  .number (.ofNat value)

def texts (values : List String) : JsonTree :=
  .array (values.map text)

/-- An object whose fields all have names. -/
def record (fields : List (String × JsonTree)) : JsonTree :=
  .object (fields.map fun field => (some field.1, field.2))

end JsonTree

end CallCapture
