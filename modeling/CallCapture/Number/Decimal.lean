import CallCapture.Number.Shortest
import CallCapture.Text.Split

/-!
Reading decimal numerals: whole numbers, numbers with a point, and numbers with a power of ten.
-/

namespace CallCapture

def ofDigits (digits : List Char) : Nat :=
  digits.foldl (fun number digit => 10 * number + (digit.toNat - '0'.toNat)) 0

/-- Digits with an optional plus sign in front, below `bound`. -/
def naturalBelow? (bound : Nat) (text : List Char) : Option Nat :=
  let digits := (Text.dropPrefix? ['+'] text).getD text
  if digits.isEmpty || !digits.all Char.isDigit then none
  else
    let number := ofDigits digits
    if number < bound then some number else none

namespace Decimal

/-- Digits with at most one point anywhere among them, at least one digit in all. -/
def ofPlain? (text : List Char) : Option Decimal :=
  match Text.cut (· == '.') text with
  | (whole, none) =>
      if whole.isEmpty || !whole.all Char.isDigit then none else some ⟨ofDigits whole, 0⟩
  | (whole, some fraction) =>
      let digits := whole ++ fraction
      if digits.isEmpty || !digits.all Char.isDigit then none
      else some ⟨ofDigits digits, -(fraction.length : Int)⟩

/-- A sign in front of a numeral, and what it stands before. -/
def signed (text : List Char) : Bool × List Char :=
  match text with
  | '-' :: rest => (true, rest)
  | '+' :: rest => (false, rest)
  | _ => (false, text)

/-- A plain decimal, after which `e` and a whole number with an optional sign may follow. -/
def ofScientific? (text : List Char) : Option Decimal := do
  let (mantissa, power) := Text.cut (fun c => c == 'e' || c == 'E') text
  let plain ← ofPlain? mantissa
  match power with
  | none => some plain
  | some power =>
      let (negative, digits) := signed power
      if digits.isEmpty || !digits.all Char.isDigit then none
      else
        let shift : Int := ofDigits digits
        some { plain with exponent := plain.exponent + if negative then -shift else shift }

def toDouble (decimal : Decimal) : Magnitude :=
  BinaryFormat.double.ofDecimal decimal.digits decimal.exponent

end Decimal

end CallCapture
