import CallCapture.Managed.Module

/-!
Textual descriptions of methods to capture.
-/

namespace CallCapture

structure Description where
  moduleName : String
  /-- Full name of the declaring type. -/
  className : String
  methodName : String
  /-- Whether only the overload with exactly these parameter types is meant. -/
  filterByParameters : Bool
  parameterTypes : Option (List String)
deriving DecidableEq, Repr

namespace Description

/-- Every overload of a method. -/
def anyOverload (moduleName className methodName : String) : Description :=
  ⟨moduleName, className, methodName, false, none⟩

/-- The same method, restricted to one overload. -/
def withParameterTypes (description : Description) (types : List String) : Description :=
  { description with filterByParameters := true, parameterTypes := some types }

def qualifiedName (description : Description) : String :=
  Name.qualify description.className description.methodName

def matchesModule (description : Description) (module : LoadedModule) : Bool :=
  Name.sameIgnoringCase module.name description.moduleName

/-- A name answers to itself and to its form without arity. -/
def answersTo (name wanted : String) : Bool :=
  name == wanted || Name.stripArity name == wanted

def matchesParameters (description : Description) (parameters : List Parameter) : Bool :=
  !description.filterByParameters ||
    description.parameterTypes.getD [] == parameters.map (·.type.reflectionName)

def matchesMethod (description : Description) (method : Method) : Bool :=
  answersTo method.declaringTypeName description.className
    && answersTo method.name description.methodName
    && description.matchesParameters method.parameters

end Description

end CallCapture
