import CallCapture.Managed.Method

/-!
Modules loaded in the process, in load order.
-/

namespace CallCapture

structure TypeRef where
  token : Token
  «namespace» : String
  name : String
deriving DecidableEq, Repr

structure LoadedModule where
  id : UInt32
  name : String
  /-- Emitted at run time. -/
  dynamic : Bool
  /-- Loaded for inspection only. -/
  reflectionOnly : Bool
  typeRefs : List TypeRef
  localSignatures : List (List UInt8)
  methods : List Method
deriving Repr

abbrev Catalog := List LoadedModule

namespace LoadedModule

/-- Whether code of the module can run and be instrumented. -/
def isExecutable (module : LoadedModule) : Bool :=
  !module.dynamic && !module.reflectionOnly

def findTypeRef? (module : LoadedModule) (scope name : String) : Option Token :=
  (module.typeRefs.find? fun row => row.namespace == scope && row.name == name).map TypeRef.token

/-- The module in the upper 32 bits and the method's token in the lower ones. -/
def methodId (module : LoadedModule) (method : Method) : UInt64 :=
  UInt64.ofNat (module.id.toNat * UInt32.size + method.token.value.toNat)

end LoadedModule

end CallCapture
