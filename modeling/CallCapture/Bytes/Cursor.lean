import CallCapture.Error
import CallCapture.Metadata.Token

/-!
Reading bytes from the front. A reader that fails leaves the cursor where it stopped; the readers of
this module move it only past bytes they used.
-/

namespace CallCapture

/-- Bytes not read yet, and how many were read before them. -/
structure Cursor where
  pos : Nat
  rest : List UInt8
deriving DecidableEq, Repr

abbrev Reader := EStateM Error Cursor

namespace Cursor

def ofBytes (bytes : List UInt8) : Cursor :=
  ⟨0, bytes⟩

def remaining (cursor : Cursor) : Nat :=
  cursor.rest.length

end Cursor

namespace Reader

/-- The next byte, which stays unread. -/
def peek : Reader UInt8 := fun cursor =>
  match cursor.rest with
  | [] => .error .outOfBounds cursor
  | next :: _ => .ok next cursor

/-- All of the next `count` bytes, or none of them. -/
def take (count : Nat) : Reader (List UInt8) := fun cursor =>
  if cursor.remaining < count then .error .outOfBounds cursor
  else .ok (cursor.rest.take count) ⟨cursor.pos + count, cursor.rest.drop count⟩

def skip (count : Nat) : Reader Unit := do
  let _ ← take count

def byte : Reader UInt8 := fun cursor =>
  match cursor.rest with
  | [] => .error .outOfBounds cursor
  | next :: rest => .ok next ⟨cursor.pos + 1, rest⟩

def pos : Reader Nat := fun cursor =>
  .ok cursor.pos cursor

def remaining : Reader Nat := fun cursor =>
  .ok cursor.remaining cursor

end Reader

/-- The number whose base 256 digits are the bytes, least significant first. -/
def littleEndian : List UInt8 → Nat
  | [] => 0
  | first :: rest => first.toNat + 256 * littleEndian rest

/-- The `width` least significant base 256 digits, least significant first. -/
def littleEndianBytes : Nat → Nat → List UInt8
  | 0, _ => []
  | width + 1, number => UInt8.ofNat number :: littleEndianBytes width (number / 256)

namespace Reader

/-- A little-endian integer of `width` bytes. -/
def unsigned (width : Nat) : Reader Nat := do
  return littleEndian (← take width)

/-- A little-endian integer of `width` bytes in two's complement. -/
def signed (width : Nat) : Reader Int := do
  return (← unsigned width : Int).bmod (Nat.pow 256 width)

/--
A compressed integer. The high bits of the first byte tell its width, and the other bits follow from
the most significant to the least.
-/
def compressed : Reader Nat := do
  let lead ← byte
  let first := lead.toNat
  if first < 0x80 then return first
  else if first < 0xC0 then return (← take 1).foldl join (first - 0x80)
  else if first < 0xE0 then return (← take 3).foldl join (first - 0xC0)
  else throw (.malformed (.compressedInteger lead))
where
  join (value : Nat) (byte : UInt8) : Nat := 256 * value + byte.toNat

/-- The table of types that the two low bits of a compressed token select. -/
def tokenTable? : Nat → Option UInt32
  | 0 => some Token.typeDefs
  | 1 => some Token.typeRefs
  | 2 => some Token.typeSpecs
  | _ => none

/-- A compressed integer that holds a row above two bits that select its table. -/
def token : Reader Token := do
  let encoded ← compressed
  match tokenTable? (encoded % 4) with
  | some table => return ⟨table ||| UInt32.ofNat (encoded / 4)⟩
  | none => throw (.malformed (.compressedToken encoded))

/-- What a reader makes of a whole blob; bytes left over do not matter. -/
def ofBlob {α : Type} (reader : Reader α) (blob : List UInt8) : Except Error α :=
  match reader (Cursor.ofBytes blob) with
  | .ok value _ => .ok value
  | .error error _ => .error error

end Reader

end CallCapture
