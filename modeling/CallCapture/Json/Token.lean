import CallCapture.Json.Tree
import CallCapture.Text.Utf8

/-!
The tokens of a JSON text. Symbols are fed one by one; a gap is a byte that belongs to no character,
and is allowed only inside a string.
-/

namespace CallCapture

inductive JsonToken where
  | beginArray
  | endArray
  | beginObject
  | endObject
  | colon
  | comma
  | null
  | bool (value : Bool)
  | number (value : JsonNumber)
  | string (value : Option String)
deriving DecidableEq, Repr

/-- What a string is made of: a character or gap, or a code unit written by its number. -/
inductive StringPiece where
  | plain (symbol : Option Char)
  | unit (code : Nat)
deriving DecidableEq, Repr

namespace StringPiece

def isLead (code : Nat) : Bool :=
  0xD800 ≤ code && code < 0xDC00

def isTrail (code : Nat) : Bool :=
  0xDC00 ≤ code && code < 0xE000

/-- The characters that the pieces stand for; two units next to each other may be one. -/
def decode : List StringPiece → Option (List Char)
  | [] => some []
  | .plain none :: _ => none
  | .plain (some c) :: rest => (decode rest).map (c :: ·)
  | .unit lead :: .unit trail :: rest =>
      if isLead lead then
        if isTrail trail then
          (decode rest).map (Char.ofNat (0x10000 + (lead - 0xD800) * 0x400 + (trail - 0xDC00)) :: ·)
        else none
      else if isTrail lead then none
      else (decode (.unit trail :: rest)).map (Char.ofNat lead :: ·)
  | .unit code :: rest =>
      if isLead code || isTrail code then none
      else (decode rest).map (Char.ofNat code :: ·)

end StringPiece

namespace JsonNumber

def digitsOf (text : List Char) : Option (List Char) :=
  if text.isEmpty || !text.all Char.isDigit then none else some text

/-- A whole part has no zero in front of other digits. -/
def wholeOf (text : List Char) : Option (List Char) := do
  let digits ← digitsOf text
  if digits.head? == some '0' && digits.length != 1 then none else some digits

/-- Sign, whole part, optional fraction, optional power. -/
def ofChars? (text : List Char) : Option JsonNumber := do
  let negative := text.head? == some '-'
  let unsigned := if negative then text.tail else text
  let (mantissa, power) := Text.cut (fun c => c == 'e' || c == 'E') unsigned
  let (whole, fraction) := Text.cut (· == '.') mantissa
  let whole ← wholeOf whole
  let fractionDigits ← match fraction with
    | none => some []
    | some digits => digitsOf digits
  let exponent ← match power with
    | none => some (0 : Int)
    | some text => do
        let (negativePower, digits) := Decimal.signed text
        let amount : Int := ofDigits (← digitsOf digits)
        some (if negativePower then -amount else amount)
  some ⟨negative, whole, fractionDigits, exponent, fraction.isNone && power.isNone⟩

end JsonNumber

namespace JsonToken

/-- What is being read; characters and pieces are collected in reverse. -/
inductive Mode where
  | between
  | word (chars : List Char)
  | numeral (chars : List Char)
  | inString (pieces : List StringPiece)
  | escape (pieces : List StringPiece)
  | hex (pieces : List StringPiece) (digits : List Char)
deriving DecidableEq, Repr

/-- The tokens so far, in reverse, and what comes after them. -/
structure Scan where
  tokens : List JsonToken
  mode : Mode
deriving DecidableEq, Repr

def isBlank (c : Char) : Bool :=
  c == ' ' || c == '\t' || c == '\n' || c == '\r'

def isNumeral (c : Char) : Bool :=
  c.isDigit || c == '-' || c == '+' || c == '.' || c == 'e' || c == 'E'

def ofWord? (word : String) : Option JsonToken :=
  match word with
  | "null" => some .null
  | "true" => some (.bool true)
  | "false" => some (.bool false)
  | _ => none

def punctuation? : Char → Option JsonToken
  | '[' => some .beginArray
  | ']' => some .endArray
  | '\x7b' => some .beginObject
  | '\x7d' => some .endObject
  | ':' => some .colon
  | ',' => some .comma
  | _ => none

def escaped? : Char → Option Char
  | '"' => some '"'
  | '\\' => some '\\'
  | '/' => some '/'
  | 'b' => some '\x08'
  | 'f' => some '\x0c'
  | 'n' => some '\n'
  | 'r' => some '\r'
  | 't' => some '\t'
  | _ => none

def hexValue? (c : Char) : Option Nat :=
  if c.isDigit then some (c.toNat - '0'.toNat)
  else if 'a' ≤ c ∧ c ≤ 'f' then some (c.toNat - 'a'.toNat + 10)
  else if 'A' ≤ c ∧ c ≤ 'F' then some (c.toNat - 'A'.toNat + 10)
  else none

def hexNumber (digits : List Char) : Nat :=
  digits.foldl (fun number digit => 16 * number + (hexValue? digit).getD 0) 0

namespace Scan

def start : Scan := ⟨[], .between⟩

def push (scan : Scan) (token : JsonToken) : Scan :=
  ⟨token :: scan.tokens, .between⟩

/-- Ends a word or a numeral, which nothing but what follows them ends. -/
def settle (scan : Scan) : Option Scan :=
  match scan.mode with
  | .word chars => (ofWord? (String.ofList chars.reverse)).map scan.push
  | .numeral chars => (JsonNumber.ofChars? chars.reverse).map fun value => scan.push (.number value)
  | _ => some scan

def begin (scan : Scan) : Option Char → Option Scan
  | none => none
  | some c =>
      if isBlank c then some scan
      else if c = '"' then some { scan with mode := .inString [] }
      else if c = '-' ∨ c.isDigit then some { scan with mode := .numeral [c] }
      else if c.isAlpha then some { scan with mode := .word [c] }
      else (punctuation? c).map scan.push

/-- A symbol inside a string; control characters have to be escaped. -/
def continueString (scan : Scan) (pieces : List StringPiece) : Option Char → Option Scan
  | none => some { scan with mode := .inString (.plain none :: pieces) }
  | some c =>
      if c = '"' then
        some (scan.push (.string ((StringPiece.decode pieces.reverse).map String.ofList)))
      else if c = '\\' then some { scan with mode := .escape pieces }
      else if c.toNat < 0x20 then none
      else some { scan with mode := .inString (.plain (some c) :: pieces) }

def continueEscape (scan : Scan) (pieces : List StringPiece) (symbol : Option Char) :
    Option Scan := do
  let c ← symbol
  if c = 'u' then some { scan with mode := .hex pieces [] }
  else
    let plain ← escaped? c
    some { scan with mode := .inString (.plain (some plain) :: pieces) }

def continueHex (scan : Scan) (pieces : List StringPiece) (digits : List Char)
    (symbol : Option Char) : Option Scan := do
  let c ← symbol
  let _ ← hexValue? c
  let digits := digits ++ [c]
  if digits.length < 4 then some { scan with mode := .hex pieces digits }
  else some { scan with mode := .inString (.unit (hexNumber digits) :: pieces) }

def step (scan : Scan) (symbol : Option Char) : Option Scan :=
  match scan.mode with
  | .inString pieces => scan.continueString pieces symbol
  | .escape pieces => scan.continueEscape pieces symbol
  | .hex pieces digits => scan.continueHex pieces digits symbol
  | .word chars =>
      match symbol with
      | some c =>
          if c.isAlpha then some { scan with mode := .word (c :: chars) }
          else scan.settle.bind (·.begin symbol)
      | none => none
  | .numeral chars =>
      match symbol with
      | some c =>
          if isNumeral c then some { scan with mode := .numeral (c :: chars) }
          else scan.settle.bind (·.begin symbol)
      | none => none
  | .between => scan.begin symbol

def finish (scan : Scan) : Option (List JsonToken) := do
  let settled ← scan.settle
  match settled.mode with
  | .between => some settled.tokens.reverse
  | _ => none

end Scan

def scan (symbols : List (Option Char)) : Option (List JsonToken) :=
  (symbols.foldlM Scan.step Scan.start).bind Scan.finish

def scanBytes (bytes : List UInt8) : Option (List JsonToken) :=
  (Utf8.foldM? Scan.step Scan.start bytes).bind Scan.finish

end JsonToken

end CallCapture
