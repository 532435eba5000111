import CallCapture.Json.Tree
import CallCapture.Text.Numeral

/-!
The compact text of a JSON tree. Only the quote, the backslash and control characters below the
space are escaped.
-/

namespace CallCapture.JsonTree

def escape (c : Char) : List Char :=
  if c = '"' then ['\\', '"']
  else if c = '\\' then ['\\', '\\']
  else if c = '\n' then ['\\', 'n']
  else if c = '\r' then ['\\', 'r']
  else if c = '\t' then ['\\', 't']
  else if c = '\x08' then ['\\', 'b']
  else if c = '\x0c' then ['\\', 'f']
  else if c.toNat < 0x20 then '\\' :: 'u' :: Text.hexPadded 4 c.toNat
  else [c]

def quote (text : List Char) : List Char :=
  '"' :: (text.flatMap escape ++ ['"'])

/-- The characters of a numeral; only whole numbers are ever printed. -/
def numeral (number : JsonNumber) : List Char :=
  number.whole

/-- A string without a value prints as an empty one. -/
def quoteOption (text : Option String) : List Char :=
  quote ((text.map String.toList).getD [])

mutual

def chars : JsonTree → List Char
  | .null => "null".toList
  | .bool true => "true".toList
  | .bool false => "false".toList
  | .number value => numeral value
  | .string value => quoteOption value
  | .array [] => ['[', ']']
  | .array (item :: items) => '[' :: (chars item ++ (moreItems items ++ [']']))
  | .object [] => ['\x7b', '\x7d']
  | .object ((key, value) :: fields) =>
      '\x7b' :: (quoteOption key ++ (':' :: (chars value ++ (moreFields fields ++ ['\x7d']))))

/-- Each further item after a comma. -/
def moreItems : List JsonTree → List Char
  | [] => []
  | item :: items => ',' :: (chars item ++ moreItems items)

/-- Each further field after a comma. -/
def moreFields : List (Option String × JsonTree) → List Char
  | [] => []
  | (key, value) :: fields => ',' :: (quoteOption key ++ (':' :: (chars value ++ moreFields fields)))

end

def print (tree : JsonTree) : String :=
  String.ofList tree.chars

end CallCapture.JsonTree
