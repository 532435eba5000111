import CallCapture.Bytes.Cursor
import CallCapture.Managed.Primitive

/-!
How each argument of a call is handed to the probe, and the stream of words in which a list of such
instructions reaches the native side.
-/

namespace CallCapture

inductive Boxing where
  | unsupported
  /-- A reference, passed as it is. -/
  | passThrough
  | primitive (scalar : Primitive)
  /-- A value type that a token of the method's module names. -/
  | token (token : Token)
  /-- A value type that only its encoded signature names. -/
  | blob (bytes : List UInt8)
deriving DecidableEq, Repr

namespace Boxing

def isSupported : Boxing → Bool
  | .unsupported => false
  | _ => true

def unsupportedCode : UInt32 := 0xFFFFFFFF

def passThroughCode : UInt32 := 0

def blobCode : UInt32 := 0xFFFFFFFE

/-- Four bytes to a word, the first the least significant; the last word is filled up with zeros. -/
def packWords : List UInt8 → List UInt32
  | a :: b :: c :: d :: rest => UInt32.ofNat (littleEndian [a, b, c, d]) :: packWords rest
  | [] => []
  | short => [UInt32.ofNat (littleEndian short)]

def unpackWords (words : List UInt32) : List UInt8 :=
  words.flatMap fun word => littleEndianBytes 4 word.toNat

/-- One word, except that a blob follows its code and its length. -/
def encode : Boxing → List UInt32
  | .unsupported => [unsupportedCode]
  | .passThrough => [passThroughCode]
  | .primitive scalar => [scalar.code]
  | .token named => [named.value]
  | .blob bytes => blobCode :: UInt32.ofNat bytes.length :: packWords bytes

def encodeAll (instructions : List Boxing) : List UInt32 :=
  instructions.flatMap encode

/-- What a word alone stands for, the code of a blob apart. -/
def ofCode (code : UInt32) : Except Error Boxing :=
  if code = unsupportedCode then .ok .unsupported
  else if code = passThroughCode then .ok .passThrough
  else if Token.isType ⟨code⟩ then .ok (.token ⟨code⟩)
  else
    match Primitive.ofCode? code with
    | some scalar => .ok (.primitive scalar)
    | none => .error (.malformed (.boxingCode code))

def decodeAll : List UInt32 → Except Error (List Boxing)
  | [] => .ok []
  | code :: rest =>
      if code = blobCode then
        match rest with
        | [] => .error .outOfBounds
        | announced :: packed =>
            let length := announced.toNat
            let words := (length + 3) / 4
            if packed.length < words then .error .outOfBounds
            else
              let bytes := (unpackWords (packed.take words)).take length
              (decodeAll (packed.drop words)).map (.blob bytes :: ·)
      else
        match ofCode code with
        | .error error => .error error
        | .ok instruction => (decodeAll rest).map (instruction :: ·)
termination_by words => words.length
decreasing_by
  · simp only [List.length_cons, List.length_drop]; omega
  · simp

end Boxing

end CallCapture
