import CallCapture.Boxing.Classification
import CallCapture.Message.Template
import CallCapture.PositionSet
import CallCapture.Resolution.Lookup

/-!
What is kept of a method that is being captured, and what the native side is told about a batch of
them.
-/

namespace CallCapture

structure Instrumented where
  id : UInt64
  /-- One for each argument, an implicit `this` first. -/
  instructions : List Boxing
  supported : PositionSet
  template : String
  supportedCount : Nat
  moduleName : String
  typeName : String
  methodName : String
  «namespace» : String
deriving DecidableEq, Repr

namespace Instrumented

def build (limit : Nat) (resolved : ResolvedMethod) : Instrumented :=
  let method := resolved.method
  let instructions := Boxing.classify limit resolved.module method
  let supported := PositionSet.ofPredicate instructions.length fun position =>
    instructions[position]?.any Boxing.isSupported
  { id := resolved.id
    instructions := instructions
    supported := supported
    template := Template.ofMethod method instructions
    supportedCount := supported.count
    moduleName := resolved.module.name
    typeName := RuntimeType.label method.declaringType
    methodName := Name.stripArity method.name
    «namespace» := method.namespace }

def argumentCount (entry : Instrumented) : Nat :=
  entry.instructions.length

def boxingTokens (entry : Instrumented) : List UInt32 :=
  Boxing.encodeAll entry.instructions

end Instrumented

/-- Parallel lists, one element for each method. -/
structure InstallBatch where
  methodIds : List UInt64
  boxingTokens : List (List UInt32)
  /-- What fits in 32 bits of the numbers of arguments. -/
  argumentCounts : List Nat
deriving DecidableEq, Repr

def InstallBatch.ofMethods (entries : List Instrumented) : InstallBatch :=
  ⟨entries.map Instrumented.id, entries.map Instrumented.boxingTokens,
    entries.map (·.argumentCount % UInt32.size)⟩

/-- The methods being captured; the first entry of an id stays until all are dropped. -/
structure MethodCache where
  entries : List Instrumented
deriving DecidableEq, Repr

namespace MethodCache

def empty : MethodCache := ⟨[]⟩

def get? (cache : MethodCache) (id : UInt64) : Option Instrumented :=
  cache.entries.find? (·.id == id)

def size (cache : MethodCache) : Nat :=
  cache.entries.length

/-- Publishes an entry unless its id is taken, and tells whether it did. -/
def insert (cache : MethodCache) (entry : Instrumented) : Bool × MethodCache :=
  match cache.get? entry.id with
  | some _ => (false, cache)
  | none => (true, ⟨cache.entries ++ [entry]⟩)

/-- Publishes entries in order, and gives for each the one that then stands under its id. -/
def publish : MethodCache → List Instrumented → List Instrumented × MethodCache
  | cache, [] => ([], cache)
  | cache, entry :: rest =>
      let next := (cache.insert entry).2
      let (others, last) := publish next rest
      ((next.get? entry.id).getD entry :: others, last)

def populate (cache : MethodCache) (limit : Nat) (methods : List ResolvedMethod) :
    List Instrumented × MethodCache :=
  cache.publish (methods.map (Instrumented.build limit))

end MethodCache

end CallCapture
