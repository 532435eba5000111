import CallCapture.Managed.Name
import CallCapture.Managed.Primitive
import CallCapture.Metadata.Token

/-!
Types as introspection of the running process reports them, and the names they are shown under.
-/

namespace CallCapture

inductive TypeKind where
  | primitive (scalar : Primitive)
  | string
  | object
  /-- Any other reference type. -/
  | classType
  | interface
  | valueType
  | enum
  | array (rank : Nat)
  | szArray
  | byRef
  | pointer
  /-- A value type confined to the stack. -/
  | byRefLike
  | genericParameter (index : Nat) (ofMethod : Bool)
  | functionPointer
deriving DecidableEq, Repr

def TypeKind.elementSuffix : TypeKind → String
  | .byRef => "&"
  | .pointer => "*"
  | .array rank => "[" ++ String.ofList (List.replicate (rank - 1) ',') ++ "]"
  | _ => "[]"

/-- A type around an element type if it has one, else a named type applied to its arguments. -/
structure RuntimeType where
  name : String
  «namespace» : String
  kind : TypeKind
  /-- File name of the defining module and the row that defines the type there, where known. -/
  module : Option String
  token : Option Token
  arguments : List RuntimeType
  element : Option RuntimeType
deriving Repr

namespace RuntimeType

def ofKind (scope name : String) (kind : TypeKind) : RuntimeType :=
  ⟨name, scope, kind, none, none, [], none⟩

def primitive (scalar : Primitive) : RuntimeType :=
  ofKind "System" scalar.name (.primitive scalar)

def string : RuntimeType :=
  ofKind "System" "String" .string

def object : RuntimeType :=
  ofKind "System" "Object" .object

/-- A type around an element, in the namespace of the element and named after it. -/
def around (element : RuntimeType) (kind : TypeKind) : RuntimeType :=
  { ofKind element.namespace (element.name ++ kind.elementSuffix) kind with
    element := some element }

def fullName (type : RuntimeType) : String :=
  Name.qualify type.namespace type.name

def isValueType (type : RuntimeType) : Bool :=
  match type.kind with
  | .primitive _ | .valueType | .enum | .byRefLike => true
  | _ => false

def isGenericParameter : TypeKind → Bool
  | .genericParameter _ _ => true
  | _ => false

mutual

/-- Whether the type is, or is made of, an open generic parameter. -/
def isOpen : RuntimeType → Bool
  | ⟨_, _, kind, _, _, arguments, element⟩ =>
      isGenericParameter kind || anyOpen arguments || elementOpen element

def anyOpen : List RuntimeType → Bool
  | [] => false
  | type :: types => isOpen type || anyOpen types

def elementOpen : Option RuntimeType → Bool
  | none => false
  | some element => isOpen element

end

mutual

/-- The name that overload filters use: arguments in square brackets, an element with its suffix. -/
def reflectionName : RuntimeType → String
  | ⟨_, _, kind, _, _, _, some element⟩ => reflectionName element ++ kind.elementSuffix
  | ⟨name, scope, _, _, _, arguments, none⟩ =>
      let applied :=
        if arguments.isEmpty then "" else "[" ++ ",".intercalate (reflectionNames arguments) ++ "]"
      Name.qualify scope name ++ applied

def reflectionNames : List RuntimeType → List String
  | [] => []
  | type :: types => reflectionName type :: reflectionNames types

end

mutual

/--
The name for readers: arguments in angle brackets in place of the arity. Only the outermost type
shows its namespace, and only if `qualified`.
-/
def displayName (qualified : Bool) : RuntimeType → String
  | ⟨_, _, kind, _, _, _, some element⟩ => displayName qualified element ++ kind.elementSuffix
  | ⟨name, scope, _, _, _, arguments, none⟩ =>
      let base := Name.stripArity name
      let applied :=
        if arguments.isEmpty then "" else "<" ++ ", ".intercalate (displayNames arguments) ++ ">"
      (if qualified then Name.qualify scope base else base) ++ applied

def displayNames : List RuntimeType → List String
  | [] => []
  | type :: types => displayName false type :: displayNames types

end

/-- The name of a declaring type, or a mark for functions that have none. -/
def label : Option RuntimeType → String
  | none => "<global>"
  | some type => type.displayName true

end RuntimeType

end CallCapture
