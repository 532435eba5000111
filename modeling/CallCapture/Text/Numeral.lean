/-!
Numerals of the messages: decimal text, and hexadecimal text in either case, padded to a fixed width
or not.
-/

namespace CallCapture.Text

/-- Lower-case hexadecimal digits, at least one. -/
def hexDigits (number : Nat) : List Char :=
  Nat.toDigits 16 number

/-- Lower-case hexadecimal digits, filled up with zeros to `width`. -/
def hexPadded (width number : Nat) : List Char :=
  (hexDigits number).leftpad width '0'

/-- The mark `0x` and the upper-case hexadecimal form of a byte, always two digits. -/
def upperHexByte (byte : UInt8) : String :=
  "0x" ++ String.ofList ((hexPadded 2 byte.toNat).map Char.toUpper)

/-- The mark `0x` and the shortest lower-case hexadecimal form. -/
def shortHex (number : Nat) : String :=
  "0x" ++ String.ofList (hexDigits number)

/-- The mark `0x` and eight lower-case hexadecimal digits. -/
def hexWord (word : UInt32) : String :=
  "0x" ++ String.ofList (hexPadded 8 word.toNat)

end CallCapture.Text
