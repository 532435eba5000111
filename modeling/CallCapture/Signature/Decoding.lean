import CallCapture.Bytes.Cursor
import CallCapture.Signature.Basic

/-!
Decoding signature blobs. The reader of a type is given the reader of the types nested in it, so a
budget of nested types bounds the recursion: a limit of `n` admits fewer than `n` types inside each
other.
-/

namespace CallCapture

/-- What the first byte of a type announces. -/
inductive Element where
  | leaf (kind : Leaf)
  | wrapper (kind : Wrapper)
  | named (kind : NamedKind)
  | genericParameter (owner : GenericOwner)
  | array
  | instantiation
  | functionPointer
  | modifier (required : Bool)
deriving DecidableEq, Repr

namespace Element

def code : Element → UInt8
  | .leaf kind => kind.code
  | .wrapper .pointer => 0x0F
  | .wrapper .byRef => 0x10
  | .wrapper .pinned => 0x45
  | .wrapper .szArray => 0x1D
  | .named .valueType => 0x11
  | .named .reference => 0x12
  | .genericParameter .type => 0x13
  | .genericParameter .method => 0x1E
  | .array => 0x14
  | .instantiation => 0x15
  | .functionPointer => 0x1B
  | .modifier true => 0x1F
  | .modifier false => 0x20

def all : List Element :=
  Leaf.all.map .leaf ++
    [.wrapper .pointer, .wrapper .byRef, .wrapper .pinned, .wrapper .szArray, .named .valueType,
      .named .reference, .genericParameter .type, .genericParameter .method, .array, .instantiation,
      .functionPointer, .modifier true, .modifier false]

def ofCode? (code : UInt8) : Option Element :=
  all.find? (·.code == code)

end Element

def sentinelCode : UInt8 := 0x41

def localsHeader : UInt8 := 0x07

def defaultNestingLimit : Nat := 50

namespace Reader

def times {α : Type} (reader : Reader α) : Nat → Reader (List α)
  | 0 => return []
  | count + 1 => do
      let first ← reader
      let others ← times reader count
      return first :: others

/-- A number of items, each of which takes a byte at least. -/
def count (items : Counted) : Reader Nat := do
  let announced ← compressed
  let left ← remaining
  if left < announced then throw (.malformed (.count items announced left))
  return announced

def accept (code : UInt8) : Reader Bool := do
  if (← peek) == code then
    skip 1
    return true
  return false

/-- As many modifiers as follow, at most `fuel`; each takes a byte at least. -/
def modifiersWithin : Nat → Reader (List Modifier)
  | 0 => return []
  | fuel + 1 => fun cursor =>
      match cursor.rest.head?.bind Element.ofCode? with
      | some (.modifier required) =>
          let reader : Reader (List Modifier) := do
            skip 1
            let type ← token
            let others ← modifiersWithin fuel
            return ⟨required, type⟩ :: others
          reader cursor
      | _ => .ok [] cursor

def modifiers : Reader (List Modifier) := do
  modifiersWithin (← remaining)

def modifierTokens : Reader (List Token) := do
  return (← modifiers).map Modifier.type

/-- Modifiers, an optional by-reference mark, and the type whose bytes the span covers. -/
def parameter (nested : Reader TypeSig) : Reader ParameterSig := do
  let modifiers ← modifierTokens
  let byRef ← accept (Element.wrapper .byRef).code
  let start ← pos
  let type ← nested
  let stop ← pos
  return ⟨modifiers, byRef, type, ⟨start, stop⟩⟩

def varargs (nested : Reader TypeSig) (count : Nat) : Reader (List ParameterSig) :=
  times (parameter nested) count

/-- Fixed parameters, and variable ones once a sentinel has come. -/
def parameters (nested : Reader TypeSig) :
    Nat → Reader (List ParameterSig × List ParameterSig)
  | 0 => return ([], [])
  | count + 1 => do
      if ← accept sentinelCode then
        return ([], ← varargs nested (count + 1))
      let first ← parameter nested
      let (fixed, after) ← parameters nested count
      return (first :: fixed, after)

/--
Header, number of generic parameters if there are any, and number and types of the parameters.
-/
def methodOver (nested : Reader TypeSig) : Reader MethodSig := do
  let convention := CallingConvention.ofHeader (← byte)
  let genericCount ← if convention.generic then compressed else pure 0
  let announced ← count .parameter
  let returnType ← parameter nested
  let (fixed, after) ← parameters nested announced
  return ⟨convention, genericCount, returnType, fixed, after⟩

/-- Reads a number and then that many compressed integers, and drops them. -/
def skipBounds : Reader Unit := do
  let bounds ← compressed
  let _ ← times compressed bounds

/-- A class or value type, applied to types. -/
def instantiation (nested : Reader TypeSig) : Reader TypeSig := do
  let code ← peek
  match Element.ofCode? code with
  | some (.named _) =>
      let generic ← nested
      let announced ← count .genericArgument
      return .instantiation generic (← times nested announced)
  | _ => throw (.malformed (.genericOver code))

/-- One type, given how the types inside it are read. -/
def typeOver (nested : Reader TypeSig) : Reader TypeSig := do
  let code ← byte
  match Element.ofCode? code with
  | some (.leaf kind) => return .leaf kind
  | some (.wrapper kind) => return .wrapped kind (← nested)
  | some (.named kind) => return .named kind (← token)
  | some (.genericParameter owner) => return .genericParameter owner (← compressed)
  | some .array =>
      let element ← nested
      let rank ← compressed
      skipBounds
      skipBounds
      return .array element rank
  | some .instantiation => instantiation nested
  | some .functionPointer => return .functionPointer (← methodOver nested)
  | some (.modifier required) =>
      let first ← token
      let others ← modifiers
      return .modified (⟨required, first⟩ :: others) (← nested)
  | none => throw (.malformed (.elementType code))

/-- A type within a budget of nested types; what fails is reported by the whole limit. -/
def typeWithin (limit : Nat) : Nat → Reader TypeSig
  | 0 => throw (.recursionLimit limit)
  | 1 => throw (.recursionLimit limit)
  | budget + 2 => typeOver (typeWithin limit (budget + 1))

def type (limit : Nat) : Reader TypeSig :=
  typeWithin limit limit

def method (limit : Nat) : Reader MethodSig :=
  methodOver (type limit)

/--
Modifiers and pinned marks in any order, at most `fuel` marks. Something has to follow them, and each
takes a byte at least.
-/
def localPrelude : Nat → Reader (List Token × Bool)
  | 0 => throw .outOfBounds
  | fuel + 1 => do
      let modifiers ← modifierTokens
      if ← accept (Element.wrapper .pinned).code then
        let (others, _) ← localPrelude fuel
        return (modifiers ++ others, true)
      return (modifiers, false)

def localVariable (limit : Nat) : Reader LocalSig := do
  if ← accept Leaf.typedByRef.code then
    return ⟨[], false, false, .leaf .typedByRef⟩
  let (modifiers, pinned) ← localPrelude (← remaining)
  let byRef ← accept (Element.wrapper .byRef).code
  return ⟨modifiers, byRef, pinned, ← type limit⟩

def localVariables (limit : Nat) : Reader (List LocalSig) := do
  let header ← byte
  if header != localsHeader then throw (.malformed (.localHeader header))
  let announced ← count .localVariable
  times (localVariable limit) announced

end Reader

end CallCapture
