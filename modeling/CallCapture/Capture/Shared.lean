import CallCapture.Capture.Instrumented

/-!
Entries as they lie in memory. An entry is made once; the cache holds references to entries, as does
everybody who was given one.
-/

namespace CallCapture

structure SharedCache where
  /-- All entries made so far; a reference is a position among them. -/
  memory : List Instrumented
  /-- The references in the cache, in the order in which they were published. -/
  published : List Nat
deriving DecidableEq, Repr

namespace SharedCache

def empty : SharedCache := ⟨[], []⟩

/-- What is left of the references: the entries that the cache holds. -/
def toCache (shared : SharedCache) : MethodCache :=
  ⟨shared.published.filterMap (shared.memory[·]?)⟩

def get? (shared : SharedCache) (id : UInt64) : Option Nat :=
  shared.published.find? fun reference => shared.memory[reference]?.any (·.id == id)

/-- Makes entries that nobody refers to yet. -/
def make (shared : SharedCache) (entries : List Instrumented) : SharedCache :=
  { shared with memory := shared.memory ++ entries }

/--
A reference to an entry: the one that the caller holds, if there is one and it is to this entry, or
else a new one.
-/
def refer (shared : SharedCache) (entry : Instrumented) (held : Option Nat) : Nat × SharedCache :=
  match held.filter fun reference => shared.memory[reference]? = some entry with
  | some reference => (reference, shared)
  | none => (shared.memory.length, shared.make [entry])

/-- Publishes a reference under an id unless that is taken, and tells whether it did. -/
def insert (shared : SharedCache) (id : UInt64) (reference : Nat) : Bool × SharedCache :=
  match shared.get? id with
  | some _ => (false, shared)
  | none => (true, { shared with published := shared.published ++ [reference] })

/-- Publishes entries that lie at these places, and gives for each the reference that then stands. -/
def publish : SharedCache → List (Instrumented × Nat) → List Nat × SharedCache
  | shared, [] => ([], shared)
  | shared, (entry, reference) :: rest =>
      let next := (shared.insert entry.id reference).2
      let (others, last) := publish next rest
      ((next.get? entry.id).getD reference :: others, last)

def populate (shared : SharedCache) (limit : Nat) (methods : List ResolvedMethod) :
    List Nat × SharedCache :=
  let built := methods.map (Instrumented.build limit)
  (shared.make built).publish (built.zipIdx shared.memory.length)

/-- The entries stay in memory, for those who refer to them. -/
def clear (shared : SharedCache) : SharedCache :=
  { shared with published := [] }

end SharedCache

end CallCapture
