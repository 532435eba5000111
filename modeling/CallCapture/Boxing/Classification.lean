import CallCapture.Boxing.Instruction
import CallCapture.Managed.Module
import CallCapture.Signature.Decoding

/-!
The boxing instruction of every argument of a method, an implicit `this` first. Introspection
decides most of them. A value type it cannot name in the method's module is looked up in the
method's signature: a token there names it, and a generic instantiation is accepted if a local
variable of the module has the same type. Whatever stays undecided is not captured.
-/

namespace CallCapture

namespace Boxing

/-- A receiver of a value type is a managed pointer, which cannot be boxed. -/
def ofReceiver (declaringType : Option RuntimeType) : Boxing :=
  if declaringType.any RuntimeType.isValueType then .unsupported else .passThrough

/-- The token by which a module names a value type without generic arguments. -/
def valueTypeToken? (module : LoadedModule) (type : RuntimeType) : Option Token :=
  if !type.arguments.isEmpty then none
  else if type.module.any (Name.sameIgnoringCase · module.name) then type.token
  else module.findTypeRef? type.namespace type.name

/-- What introspection alone decides about a type. -/
def ofType? (module : LoadedModule) (type : RuntimeType) : Option Boxing :=
  if type.isOpen then some .unsupported
  else
    match type.kind with
    | .byRef | .pointer | .byRefLike | .functionPointer | .genericParameter _ _ =>
        some .unsupported
    | .primitive scalar => some (.primitive scalar)
    | .string | .object | .classType | .interface | .array _ | .szArray => some .passThrough
    | .valueType | .enum => (valueTypeToken? module type).map .token

/-- Whether a local variable of the module, not by reference, has the type. -/
def instantiates (limit : Nat) (module : LoadedModule) (type : TypeSig) : Bool :=
  module.localSignatures.any fun blob =>
    match (Reader.localVariables limit).ofBlob blob with
    | .ok locals => locals.any fun slot => !slot.byRef && slot.type.same type
    | .error _ => false

/-- What a decoded parameter decides, given the blob it was decoded from. -/
def ofParameter (limit : Nat) (module : LoadedModule) (blob : List UInt8)
    (parameter : ParameterSig) : Boxing :=
  if parameter.byRef then .unsupported
  else
    match parameter.type with
    | .named .valueType named => if named.isType then .token named else .unsupported
    | .instantiation (.named .valueType _) _ =>
        if instantiates limit module parameter.type then .blob (parameter.span.slice blob)
        else .unsupported
    | _ => .unsupported

/-- The decoded parameters of a method, if its signature agrees with the declared ones in number. -/
def decodedParameters? (limit : Nat) (method : Method) : Option (List ParameterSig) :=
  match (Reader.method limit).ofBlob method.signature with
  | .ok signature =>
      if signature.parameters.length = method.parameters.length then some signature.parameters
      else none
  | .error _ => none

/-- The instructions so far, with the slots in which one is pending and the parameters it is for. -/
abbrev Slots : Type :=
  List Boxing × List (Nat × Nat)

/-- Introspection of one parameter, which leaves its slot unsupported and pending if it decides
nothing. -/
def introspect (module : LoadedModule) (slots : Slots) (declared : Parameter × Nat) : Slots :=
  match ofType? module declared.1.type with
  | some instruction => (slots.1 ++ [instruction], slots.2)
  | none => (slots.1 ++ [.unsupported], slots.2 ++ [(slots.1.length, declared.2)])

/-- Overwrites a pending slot by what the signature decides about its parameter. -/
def resolveSlot (limit : Nat) (module : LoadedModule) (blob : List UInt8)
    (decoded : List ParameterSig) (instructions : List Boxing) (pending : Nat × Nat) :
    List Boxing :=
  match decoded[pending.2]? with
  | some parameter => instructions.set pending.1 (ofParameter limit module blob parameter)
  | none => instructions

/-- Resolves what is pending, unless the signature is missing or does not agree. -/
def resolvePending (limit : Nat) (module : LoadedModule) (method : Method) (slots : Slots) :
    List Boxing :=
  if method.signature.isEmpty then slots.1
  else
    match decodedParameters? limit method with
    | some decoded =>
        slots.2.foldl (resolveSlot limit module method.signature decoded) slots.1
    | none => slots.1

def classify (limit : Nat) (module : LoadedModule) (method : Method) : List Boxing :=
  let receiver := if method.hasThis then [ofReceiver method.declaringType] else []
  let slots := method.parameters.zipIdx.foldl (introspect module) (receiver, [])
  if slots.2.isEmpty then slots.1 else resolvePending limit module method slots

end Boxing

end CallCapture
