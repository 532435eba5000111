/-!
Scalar types, which have fixed boxing codes.
-/

namespace CallCapture

inductive Primitive where
  | boolean
  | char
  | sbyte
  | byte
  | int16
  | uint16
  | int32
  | uint32
  | int64
  | uint64
  | intPtr
  | uintPtr
  | single
  | double
deriving DecidableEq, Repr

namespace Primitive

/-- In the order of their boxing codes. -/
def all : List Primitive :=
  [.boolean, .char, .sbyte, .byte, .int16, .uint16, .int32, .uint32, .int64, .uint64, .intPtr,
    .uintPtr, .single, .double]

/-- The name of the type in the namespace `System`. -/
def name : Primitive → String
  | .boolean => "Boolean"
  | .char => "Char"
  | .sbyte => "SByte"
  | .byte => "Byte"
  | .int16 => "Int16"
  | .uint16 => "UInt16"
  | .int32 => "Int32"
  | .uint32 => "UInt32"
  | .int64 => "Int64"
  | .uint64 => "UInt64"
  | .intPtr => "IntPtr"
  | .uintPtr => "UIntPtr"
  | .single => "Single"
  | .double => "Double"

def ofName? (name : String) : Option Primitive :=
  all.find? (·.name == name)

def code : Primitive → UInt32
  | .boolean => 1
  | .char => 2
  | .sbyte => 3
  | .byte => 4
  | .int16 => 5
  | .uint16 => 6
  | .int32 => 7
  | .uint32 => 8
  | .int64 => 9
  | .uint64 => 10
  | .intPtr => 11
  | .uintPtr => 12
  | .single => 13
  | .double => 14

def ofCode? (code : UInt32) : Option Primitive :=
  all.find? (·.code == code)

end Primitive

end CallCapture
