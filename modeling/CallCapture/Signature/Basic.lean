import CallCapture.Metadata.Token

/-!
Types, methods and local variables as signature blobs write them. Each parameter remembers which
bytes of its blob encode its type.
-/

namespace CallCapture

/-- Types that one code writes completely. -/
inductive Leaf where
  | void
  | boolean
  | char
  | i1
  | u1
  | i2
  | u2
  | i4
  | u4
  | i8
  | u8
  | r4
  | r8
  | i
  | u
  | string
  | object
  | typedByRef
  | internal
deriving DecidableEq, Repr

namespace Leaf

def all : List Leaf :=
  [.void, .boolean, .char, .i1, .u1, .i2, .u2, .i4, .u4, .i8, .u8, .r4, .r8, .i, .u, .string,
    .object, .typedByRef, .internal]

def code : Leaf → UInt8
  | .void => 0x01
  | .boolean => 0x02
  | .char => 0x03
  | .i1 => 0x04
  | .u1 => 0x05
  | .i2 => 0x06
  | .u2 => 0x07
  | .i4 => 0x08
  | .u4 => 0x09
  | .i8 => 0x0A
  | .u8 => 0x0B
  | .r4 => 0x0C
  | .r8 => 0x0D
  | .i => 0x18
  | .u => 0x19
  | .string => 0x0E
  | .object => 0x1C
  | .typedByRef => 0x16
  | .internal => 0x21

/-- Whether values of the type have a fixed boxing code. -/
def isPrimitive : Leaf → Bool
  | .void | .string | .object | .typedByRef | .internal => false
  | _ => true

end Leaf

/-- Types around exactly one other type. -/
inductive Wrapper where
  | pointer
  | byRef
  | pinned
  | szArray
deriving DecidableEq, Repr

inductive NamedKind where
  | valueType
  | reference
deriving DecidableEq, Repr

inductive GenericOwner where
  | type
  | method
deriving DecidableEq, Repr

structure Modifier where
  required : Bool
  type : Token
deriving DecidableEq, Repr

/-- Offsets into a blob: the first byte, and the one after the last. -/
structure Span where
  start : Nat
  stop : Nat
deriving DecidableEq, Repr

def Span.slice (span : Span) (blob : List UInt8) : List UInt8 :=
  (blob.drop span.start).take (span.stop - span.start)

/-- The first byte of a method signature. -/
structure CallingConvention where
  generic : Bool
  hasThis : Bool
  explicitThis : Bool
  kind : Nat
deriving DecidableEq, Repr

namespace CallingConvention

def ofHeader (header : UInt8) : CallingConvention :=
  { generic := header &&& 0x10 != 0
    hasThis := header &&& 0x20 != 0
    explicitThis := header &&& 0x40 != 0
    kind := header.toNat % 16 }

def flagBits (convention : CallingConvention) : Nat :=
  (if convention.generic then 0x10 else 0) + (if convention.hasThis then 0x20 else 0)
    + (if convention.explicitThis then 0x40 else 0)

/-- Whether an implicit `this` precedes the parameters. -/
def implicitThis (convention : CallingConvention) : Bool :=
  convention.hasThis && !convention.explicitThis

def isVararg (convention : CallingConvention) : Bool :=
  convention.kind == 5

end CallingConvention

mutual

inductive TypeSig where
  | leaf (kind : Leaf)
  | wrapped (wrapper : Wrapper) (inner : TypeSig)
  | named (kind : NamedKind) (token : Token)
  | genericParameter (owner : GenericOwner) (index : Nat)
  /-- Sizes and lower bounds of an array are not kept. -/
  | array (element : TypeSig) (rank : Nat)
  | instantiation (generic : TypeSig) (arguments : List TypeSig)
  | functionPointer (signature : MethodSig)
  | modified (modifiers : List Modifier) (base : TypeSig)

structure MethodSig where
  convention : CallingConvention
  genericCount : Nat
  returnType : ParameterSig
  parameters : List ParameterSig
  /-- Parameters after the sentinel. -/
  varargs : List ParameterSig

structure ParameterSig where
  modifiers : List Token
  byRef : Bool
  type : TypeSig
  span : Span

end

structure LocalSig where
  modifiers : List Token
  byRef : Bool
  pinned : Bool
  type : TypeSig

/-- Whether values of the type have a fixed boxing code. -/
def TypeSig.isPrimitive : TypeSig → Bool
  | .leaf kind => kind.isPrimitive
  | _ => false

mutual

/-- Equality of types, spans of function pointer parameters included. -/
def TypeSig.same : TypeSig → TypeSig → Bool
  | .leaf kind, .leaf kind' => kind == kind'
  | .wrapped wrapper inner, .wrapped wrapper' inner' => wrapper == wrapper' && inner.same inner'
  | .named kind token, .named kind' token' => kind == kind' && token == token'
  | .genericParameter owner index, .genericParameter owner' index' =>
      owner == owner' && index == index'
  | .array element rank, .array element' rank' => element.same element' && rank == rank'
  | .instantiation generic arguments, .instantiation generic' arguments' =>
      generic.same generic' && TypeSig.sameAll arguments arguments'
  | .functionPointer signature, .functionPointer signature' => signature.same signature'
  | .modified modifiers base, .modified modifiers' base' =>
      modifiers == modifiers' && base.same base'
  | _, _ => false

def TypeSig.sameAll : List TypeSig → List TypeSig → Bool
  | [], [] => true
  | type :: types, type' :: types' => type.same type' && TypeSig.sameAll types types'
  | _, _ => false

def MethodSig.same : MethodSig → MethodSig → Bool
  | ⟨convention, count, returnType, parameters, varargs⟩,
    ⟨convention', count', returnType', parameters', varargs'⟩ =>
      convention == convention' && count == count' && returnType.same returnType'
        && ParameterSig.sameAll parameters parameters' && ParameterSig.sameAll varargs varargs'

def ParameterSig.same : ParameterSig → ParameterSig → Bool
  | ⟨modifiers, byRef, type, span⟩, ⟨modifiers', byRef', type', span'⟩ =>
      modifiers == modifiers' && byRef == byRef' && type.same type' && span == span'

def ParameterSig.sameAll : List ParameterSig → List ParameterSig → Bool
  | [], [] => true
  | parameter :: parameters, parameter' :: parameters' =>
      parameter.same parameter' && ParameterSig.sameAll parameters parameters'
  | _, _ => false

end

end CallCapture
