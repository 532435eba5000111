import CallCapture.Error
import CallCapture.Resolution.Description

/-!
Finding the methods that descriptions mean. A batch of descriptions resolves completely or not at
all.
-/

namespace CallCapture

/-- A method together with the module that defines it. -/
structure ResolvedMethod where
  module : LoadedModule
  method : Method
deriving Repr

/-- Identifies the method in the whole process. -/
def ResolvedMethod.id (resolved : ResolvedMethod) : UInt64 :=
  resolved.module.methodId resolved.method

namespace Description

/-- The methods of one module that the description means. -/
def methodsIn (description : Description) (module : LoadedModule) : List ResolvedMethod :=
  (module.methods.filter description.matchesMethod).map (⟨module, ·⟩)

/-- All methods of executable modules that the description means, in load order. -/
def resolve (catalog : Catalog) (description : Description) : List ResolvedMethod :=
  (catalog.filter fun module => module.isExecutable && description.matchesModule module).flatMap
    description.methodsIn

/-- The positions of the descriptions that mean no method. -/
def unresolved (catalog : Catalog) (descriptions : List Description) : List Nat :=
  (descriptions.zipIdx.filter fun entry => (entry.1.resolve catalog).isEmpty).map Prod.snd

/-- All methods that the descriptions mean, each once and in the order of its first match. -/
def resolveAll (catalog : Catalog) (descriptions : List Description) :
    Except Error (List ResolvedMethod) :=
  match unresolved catalog descriptions with
  | [] =>
      .ok ((descriptions.flatMap (resolve catalog)).eraseDupsBy fun left right =>
        left.id == right.id)
  | indices => .error (.unresolvedMethods indices)

end Description

end CallCapture
