import CallCapture.Signature.Decoding

/-!
A decoder that reads one blob, one signature after another. It counts the types that it is inside
of and refuses a type at its limit; a read that fails leaves the cursor where it stopped.
-/

namespace CallCapture

structure Decoder where
  cursor : Cursor
  /-- How many types are being read, each inside the one before it. -/
  depth : Nat
  limit : Nat
deriving DecidableEq, Repr

abbrev Decoding := EStateM Error Decoder

namespace Decoder

/-- What comes of reading bytes moves the cursor and leaves the count. -/
def advance {α : Type} (decoder : Decoder) :
    EStateM.Result Error Cursor α → EStateM.Result Error Decoder α
  | .ok value cursor => .ok value { decoder with cursor }
  | .error error cursor => .error error { decoder with cursor }

instance : MonadLift Reader Decoding where
  monadLift reader := fun decoder => decoder.advance (reader decoder.cursor)

def ofBytes (limit : Nat) (bytes : List UInt8) : Decoder :=
  ⟨.ofBytes bytes, 0, limit⟩

/-- One more type is counted while its contents are read. -/
def counted {α : Type} (contents : Decoding α) : Decoding α := fun decoder =>
  if decoder.limit ≤ decoder.depth + 1 then .error (.recursionLimit decoder.limit) decoder
  else
    match contents { decoder with depth := decoder.depth + 1 } with
    | .ok value after => .ok value { after with depth := after.depth - 1 }
    | .error error after => .error error { after with depth := after.depth - 1 }

def times {α : Type} (item : Decoding α) : Nat → Decoding (List α)
  | 0 => return []
  | count + 1 => do
      let first ← item
      let others ← times item count
      return first :: others

def parameter (nested : Decoding TypeSig) : Decoding ParameterSig := do
  let modifiers ← Reader.modifierTokens
  let byRef ← Reader.accept (Element.wrapper .byRef).code
  let start ← Reader.pos
  let type ← nested
  let stop ← Reader.pos
  return ⟨modifiers, byRef, type, ⟨start, stop⟩⟩

def parameters (nested : Decoding TypeSig) :
    Nat → Decoding (List ParameterSig × List ParameterSig)
  | 0 => return ([], [])
  | count + 1 => do
      if ← Reader.accept sentinelCode then
        return ([], ← times (parameter nested) (count + 1))
      let first ← parameter nested
      let (fixed, after) ← parameters nested count
      return (first :: fixed, after)

def methodOver (nested : Decoding TypeSig) : Decoding MethodSig := do
  let convention := CallingConvention.ofHeader (← Reader.byte)
  let genericCount ← if convention.generic then Reader.compressed else pure 0
  let announced ← Reader.count .parameter
  let returnType ← parameter nested
  let (fixed, after) ← parameters nested announced
  return ⟨convention, genericCount, returnType, fixed, after⟩

def instantiation (nested : Decoding TypeSig) : Decoding TypeSig := do
  let code ← Reader.peek
  match Element.ofCode? code with
  | some (.named _) =>
      let generic ← nested
      let announced ← Reader.count .genericArgument
      return .instantiation generic (← times nested announced)
  | _ => throw (.malformed (.genericOver code))

def contents (nested : Decoding TypeSig) : Decoding TypeSig := do
  let code ← Reader.byte
  match Element.ofCode? code with
  | some (.leaf kind) => return .leaf kind
  | some (.wrapper kind) => return .wrapped kind (← nested)
  | some (.named kind) => return .named kind (← Reader.token)
  | some (.genericParameter owner) => return .genericParameter owner (← Reader.compressed)
  | some .array =>
      let element ← nested
      let rank ← Reader.compressed
      Reader.skipBounds
      Reader.skipBounds
      return .array element rank
  | some .instantiation => instantiation nested
  | some .functionPointer => return .functionPointer (← methodOver nested)
  | some (.modifier required) =>
      let first ← Reader.token
      let others ← Reader.modifiers
      return .modified (⟨required, first⟩ :: others) (← nested)
  | none => throw (.malformed (.elementType code))

/-- A type inside of which at most `room` types stand; the count may refuse it before. -/
def typeWithin : Nat → Decoding TypeSig
  | 0 => fun decoder => .error (.recursionLimit decoder.limit) decoder
  | room + 1 => counted (contents (typeWithin room))

/-- Room for as many types as the limit never runs out before the count refuses a type. -/
def type : Decoding TypeSig := fun decoder =>
  typeWithin decoder.limit decoder

def method : Decoding MethodSig :=
  methodOver type

def localVariable : Decoding LocalSig := do
  if ← Reader.accept Leaf.typedByRef.code then
    return ⟨[], false, false, .leaf .typedByRef⟩
  let (modifiers, pinned) ← Reader.localPrelude (← Reader.remaining)
  let byRef ← Reader.accept (Element.wrapper .byRef).code
  return ⟨modifiers, byRef, pinned, ← type⟩

def localVariables : Decoding (List LocalSig) := do
  let header ← Reader.byte
  if header != localsHeader then throw (.malformed (.localHeader header))
  let announced ← Reader.count .localVariable
  times localVariable announced

/-- What can be asked of a decoder. -/
inductive Read where
  | type
  | method
  | localVariables
deriving DecidableEq, Repr

inductive Answer where
  | type (type : TypeSig)
  | method (signature : MethodSig)
  | localVariables (locals : List LocalSig)

def Read.decoding : Read → Decoding Answer
  | .type => return .type (← Decoder.type)
  | .method => return .method (← Decoder.method)
  | .localVariables => return .localVariables (← Decoder.localVariables)

/-- What a read answers, and the decoder that is left for the next one. -/
def perform (decoder : Decoder) (read : Read) : Except Error Answer × Decoder :=
  match read.decoding decoder with
  | .ok answer after => (.ok answer, after)
  | .error error after => (.error error, after)

/-- The decoder after reads one after another, whether or not they failed. -/
def performAll (decoder : Decoder) (reads : List Read) : Decoder :=
  reads.foldl (fun decoder read => (decoder.perform read).2) decoder

end Decoder

end CallCapture
