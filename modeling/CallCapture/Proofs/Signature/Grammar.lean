import CallCapture.Proofs.Bytes.Compressed
import CallCapture.Signature.Decoding

/-!
The grammar of signature blobs, written without a reader. Runs of modifiers and of marks are as long
as possible, so what comes after a run never starts with a further one.

The forms of parameters, methods and locals are given the form of the types inside them: `TypeForm`
for types of any depth, `Within limit` for types that nest less deep than a limit.
-/

namespace CallCapture

/-- The bytes start with the code of the element. -/
def Announces (element : Element) (bytes : List UInt8) : Prop :=
  bytes.head? = some element.code

/-- Custom modifiers one after another. -/
inductive ModifierRun : List UInt8 → List Modifier → Prop where
  | nil : ModifierRun [] []
  | cons {named rest : List UInt8} {type : Token} {others : List Modifier} (required : Bool) :
      TokenForm named type → ModifierRun rest others →
      ModifierRun ((Element.modifier required).code :: (named ++ rest)) (⟨required, type⟩ :: others)

def NoModifier (bytes : List UInt8) : Prop :=
  ∀ required, ¬ Announces (.modifier required) bytes

/-- A number of bounds, and the bounds. -/
inductive BoundsForm : Form Unit where
  | intro {start : Nat} {count bytes : List UInt8} {bounds : List Nat} :
      CompressedForm count bounds.length →
      Sequence (fun _ => CompressedForm) (start + count.length) bytes bounds →
      BoundsForm start (count ++ bytes) ()

/-- Only generic methods announce how many generic parameters they have. -/
inductive GenericCountForm : Bool → List UInt8 → Nat → Prop where
  | absent : GenericCountForm false [] 0
  | present {bytes : List UInt8} {number : Nat} :
      CompressedForm bytes number → GenericCountForm true bytes number

section Nested

variable (nested : Form TypeSig)

/-- Modifiers, an optional by-reference mark, and the type. -/
inductive ParameterForm : Form ParameterSig where
  | byValue {start : Nat} {run bytes : List UInt8} {modifiers : List Modifier} {type : TypeSig} :
      ModifierRun run modifiers → NoModifier bytes → ¬ Announces (.wrapper .byRef) bytes →
      nested (start + run.length) bytes type →
      ParameterForm start (run ++ bytes) ⟨modifiers.map Modifier.type, false, type,
        ⟨start + run.length, start + run.length + bytes.length⟩⟩
  | byReference {start : Nat} {run bytes : List UInt8} {modifiers : List Modifier}
      {type : TypeSig} :
      ModifierRun run modifiers → nested (start + run.length + 1) bytes type →
      ParameterForm start (run ++ (Element.wrapper .byRef).code :: bytes)
        ⟨modifiers.map Modifier.type, true, type,
          ⟨start + run.length + 1, start + run.length + 1 + bytes.length⟩⟩

/-- Parameters one after another. A sentinel may come before one of them, once. -/
inductive ParametersForm : Form (List ParameterSig × List ParameterSig) where
  | nil (start : Nat) : ParametersForm start [] ([], [])
  | sentinel {start : Nat} {bytes : List UInt8} {after : List ParameterSig} :
      after ≠ [] → Sequence (ParameterForm nested) (start + 1) bytes after →
      ParametersForm start (sentinelCode :: bytes) ([], after)
  | cons {start : Nat} {front back : List UInt8} {first : ParameterSig}
      {fixed after : List ParameterSig} :
      ParameterForm nested start front first →
      ParametersForm (start + front.length) back (fixed, after) →
      ParametersForm start (front ++ back) (first :: fixed, after)

inductive MethodForm : Form MethodSig where
  | intro {start : Nat} {header : UInt8} {generics count result bytes : List UInt8}
      {genericCount : Nat} {returnType : ParameterSig} {fixed after : List ParameterSig} :
      GenericCountForm (CallingConvention.ofHeader header).generic generics genericCount →
      CompressedForm count (fixed.length + after.length) →
      ParameterForm nested (start + 1 + generics.length + count.length) result returnType →
      ParametersForm nested (start + 1 + generics.length + count.length + result.length) bytes
        (fixed, after) →
      MethodForm start (header :: (generics ++ (count ++ (result ++ bytes))))
        ⟨.ofHeader header, genericCount, returnType, fixed, after⟩

/-- What comes after the code of an element. -/
inductive ContentsForm : Element → Form TypeSig where
  | leaf (start : Nat) (kind : Leaf) : ContentsForm (.leaf kind) start [] (.leaf kind)
  | wrapped {start : Nat} {bytes : List UInt8} {inner : TypeSig} (kind : Wrapper) :
      nested start bytes inner → ContentsForm (.wrapper kind) start bytes (.wrapped kind inner)
  | named {bytes : List UInt8} {token : Token} (start : Nat) (kind : NamedKind) :
      TokenForm bytes token → ContentsForm (.named kind) start bytes (.named kind token)
  | genericParameter {bytes : List UInt8} {index : Nat} (start : Nat) (owner : GenericOwner) :
      CompressedForm bytes index →
      ContentsForm (.genericParameter owner) start bytes (.genericParameter owner index)
  | array {start rank : Nat} {bytes rankBytes sizes lowerBounds : List UInt8} {inner : TypeSig} :
      nested start bytes inner → CompressedForm rankBytes rank →
      BoundsForm (start + bytes.length + rankBytes.length) sizes () →
      BoundsForm (start + bytes.length + rankBytes.length + sizes.length) lowerBounds () →
      ContentsForm .array start (bytes ++ (rankBytes ++ (sizes ++ lowerBounds)))
        (.array inner rank)
  | instantiation {start : Nat} {generic count bytes : List UInt8} {kind : NamedKind}
      {token : Token} {arguments : List TypeSig} :
      nested start generic (.named kind token) → CompressedForm count arguments.length →
      Sequence nested (start + generic.length + count.length) bytes arguments →
      ContentsForm .instantiation start (generic ++ (count ++ bytes))
        (.instantiation (.named kind token) arguments)
  | functionPointer {start : Nat} {bytes : List UInt8} {signature : MethodSig} :
      MethodForm nested start bytes signature →
      ContentsForm .functionPointer start bytes (.functionPointer signature)
  | modified {start : Nat} {first run bytes : List UInt8} {type : Token}
      {others : List Modifier} {base : TypeSig} (required : Bool) :
      TokenForm first type → ModifierRun run others → NoModifier bytes →
      nested (start + first.length + run.length) bytes base →
      ContentsForm (.modifier required) start (first ++ (run ++ bytes))
        (.modified (⟨required, type⟩ :: others) base)

end Nested

/-- A type: the code of an element, and what the element announces. -/
inductive TypeForm : Form TypeSig where
  | intro {start : Nat} {bytes : List UInt8} {type : TypeSig} (element : Element) :
      ContentsForm TypeForm element (start + 1) bytes type →
      TypeForm start (element.code :: bytes) type

/-- Custom modifiers and pinned marks in any order. -/
inductive MarkRun : List UInt8 → List Token → Bool → Prop where
  | nil : MarkRun [] [] false
  | modifier {named rest : List UInt8} {type : Token} {others : List Token} {pinned : Bool}
      (required : Bool) :
      TokenForm named type → MarkRun rest others pinned →
      MarkRun ((Element.modifier required).code :: (named ++ rest)) (type :: others) pinned
  | pinned {rest : List UInt8} {others : List Token} {pinned : Bool} :
      MarkRun rest others pinned →
      MarkRun ((Element.wrapper .pinned).code :: rest) others true

section Nested

variable (nested : Form TypeSig)

/-- Marks, an optional by-reference mark, and the type. -/
inductive MarkedForm : Form LocalSig where
  | byValue {start : Nat} {run bytes : List UInt8} {modifiers : List Token} {pinned : Bool}
      {type : TypeSig} :
      MarkRun run modifiers pinned → NoModifier bytes → ¬ Announces (.wrapper .pinned) bytes →
      ¬ Announces (.wrapper .byRef) bytes → nested (start + run.length) bytes type →
      MarkedForm start (run ++ bytes) ⟨modifiers, false, pinned, type⟩
  | byReference {start : Nat} {run bytes : List UInt8} {modifiers : List Token} {pinned : Bool}
      {type : TypeSig} :
      MarkRun run modifiers pinned → nested (start + run.length + 1) bytes type →
      MarkedForm start (run ++ (Element.wrapper .byRef).code :: bytes)
        ⟨modifiers, true, pinned, type⟩

/-- A typed reference alone counts as no type inside the local. -/
inductive LocalForm : Form LocalSig where
  | typedReference (start : Nat) :
      LocalForm start [(Element.leaf .typedByRef).code] ⟨[], false, false, .leaf .typedByRef⟩
  | marked {start : Nat} {bytes : List UInt8} {slot : LocalSig} :
      MarkedForm nested start bytes slot → LocalForm start bytes slot

inductive LocalsForm : Form (List LocalSig) where
  | intro {start : Nat} {count bytes : List UInt8} {locals : List LocalSig} :
      CompressedForm count locals.length →
      Sequence (LocalForm nested) (start + 1 + count.length) bytes locals →
      LocalsForm start (localsHeader :: (count ++ bytes)) locals

end Nested

mutual

/--
How many types stand inside each other, the type itself included. The generic type of an
instantiation counts as inside it, as its arguments do.
-/
def TypeSig.nesting : TypeSig → Nat
  | .leaf _ | .named _ _ | .genericParameter _ _ => 1
  | .wrapped _ inner => inner.nesting + 1
  | .array inner _ => inner.nesting + 1
  | .instantiation generic arguments => max generic.nesting (TypeSig.deepest arguments) + 1
  | .functionPointer signature => signature.nesting + 1
  | .modified _ base => base.nesting + 1

def TypeSig.deepest : List TypeSig → Nat
  | [] => 0
  | type :: types => max type.nesting (TypeSig.deepest types)

def MethodSig.nesting : MethodSig → Nat
  | ⟨_, _, returnType, parameters, varargs⟩ =>
      max returnType.nesting
        (max (ParameterSig.deepest parameters) (ParameterSig.deepest varargs))

def ParameterSig.nesting : ParameterSig → Nat
  | ⟨_, _, type, _⟩ => type.nesting

def ParameterSig.deepest : List ParameterSig → Nat
  | [] => 0
  | parameter :: parameters => max parameter.nesting (ParameterSig.deepest parameters)

end

/-- Types with fewer than `limit` types inside each other. -/
def Within (limit : Nat) : Form TypeSig := fun start bytes type =>
  TypeForm start bytes type ∧ type.nesting < limit

end CallCapture
