import CallCapture.Text.Numeral

/-!
Metadata tokens: a table in the high byte and a row of that table in the low 24 bits.
-/

namespace CallCapture

structure Token where
  value : UInt32
deriving DecidableEq, Repr

namespace Token

def typeRefs : UInt32 := 0x01000000
def typeDefs : UInt32 := 0x02000000
def standaloneSigs : UInt32 := 0x11000000
def typeSpecs : UInt32 := 0x1B000000

def table (token : Token) : Nat :=
  token.value.toNat / 0x1000000

def row (token : Token) : Nat :=
  token.value.toNat % 0x1000000

def isNull (token : Token) : Bool :=
  token.value == 0

/-- Whether the token names an existing row of a table of types, and so can be boxed as. -/
def isType (token : Token) : Bool :=
  token.row != 0 && [0x02, 0x01, 0x1B].contains token.table

def text (token : Token) : String :=
  Text.hexWord token.value

/-- The token with its parts spelled out. -/
def details (token : Token) : String :=
  "Token(" ++ token.text ++ ", table: 0x" ++ String.ofList (Text.hexPadded 2 token.table)
    ++ ", row: " ++ toString token.row ++ ")"

end Token

end CallCapture
