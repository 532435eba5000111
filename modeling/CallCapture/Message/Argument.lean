import CallCapture.Message.Template
import CallCapture.Number.Shortest

/-!
The values of arguments and their text. Strings and characters are quoted, with escapes for the
quote, the backslash and all control characters.
-/

namespace CallCapture

/--
A captured value. Numbers are carried as what they stand for, floating-point ones as their bits.
-/
inductive Argument where
  | null
  | bool (value : Bool)
  | char (value : Char)
  | integer (value : Int)
  /-- A native-sized integer in two's complement. -/
  | address (value : UInt64)
  | single (bits : UInt32)
  | double (bits : UInt64)
  | string (value : String)
  | object (typeName : String) (display : Option String)
  | unsupported
deriving DecidableEq, Repr

namespace Argument

def isControl (c : Char) : Bool :=
  c.toNat < 0x20 || (0x7F ≤ c.toNat && c.toNat < 0xA0)

def escape (quote c : Char) : List Char :=
  if c = '\\' then ['\\', '\\']
  else if c = '\n' then ['\\', 'n']
  else if c = '\r' then ['\\', 'r']
  else if c = '\t' then ['\\', 't']
  else if c = '\x00' then ['\\', '0']
  else if c = quote then ['\\', quote]
  else if isControl c then '\\' :: 'u' :: Text.hexPadded 4 c.toNat
  else [c]

def quoted (quote : Char) (text : List Char) : String :=
  String.ofList (quote :: (text.flatMap (escape quote) ++ [quote]))

def text : Argument → String
  | .null => "null"
  | .bool value => if value then "true" else "false"
  | .char value => quoted '\'' [value]
  | .integer value => toString value
  | .address value => Text.shortHex value.toNat
  | .single bits => BinaryFormat.single.valueText (BinaryFormat.single.ofBits 8 bits.toNat)
  | .double bits => BinaryFormat.double.valueText (BinaryFormat.double.ofBits 11 bits.toNat)
  | .string value => quoted '"' value.toList
  | .object typeName none => "\x7b" ++ typeName ++ "\x7d"
  | .object _ (some display) => display
  | .unsupported => Template.unsupportedText

end Argument

end CallCapture
