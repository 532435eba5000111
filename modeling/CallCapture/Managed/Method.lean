import CallCapture.Managed.RuntimeType

/-!
Methods as enumerated from a loaded module.
-/

namespace CallCapture

inductive Passing where
  | byValue
  | readOnly
  | out
  | reference
deriving DecidableEq, Repr

def Passing.keyword? : Passing → Option String
  | .byValue => none
  | .readOnly => some "in"
  | .out => some "out"
  | .reference => some "ref"

structure Parameter where
  name : String
  type : RuntimeType
  passing : Passing
deriving Repr

/-- A reference without a declared keyword counts as `ref`. -/
def Parameter.effectivePassing (parameter : Parameter) : Passing :=
  if parameter.passing = .byValue ∧ parameter.type.kind = .byRef then .reference
  else parameter.passing

structure Method where
  token : Token
  name : String
  /-- Functions of the module itself have none. -/
  declaringType : Option RuntimeType
  /-- Whether an implicit `this` precedes the parameters. -/
  hasThis : Bool
  genericArguments : List RuntimeType
  parameters : List Parameter
  /-- Empty if not available. -/
  signature : List UInt8
deriving Repr

namespace Method

def declaringTypeName (method : Method) : String :=
  (method.declaringType.map RuntimeType.fullName).getD ""

def «namespace» (method : Method) : String :=
  (method.declaringType.map RuntimeType.namespace).getD ""

end Method

end CallCapture
