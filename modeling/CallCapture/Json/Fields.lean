import CallCapture.Json.Reading

/-!
Reading values of known shape out of a JSON tree.
-/

namespace CallCapture.JsonTree

def text? : JsonTree → Option String
  | .string value => value
  | _ => none

def bool? : JsonTree → Option Bool
  | .bool value => some value
  | _ => none

def natural? : JsonTree → Option Nat
  | .number value => value.natural?
  | _ => none

def list? {α : Type} (item? : JsonTree → Option α) : JsonTree → Option (List α)
  | .array items => items.mapM item?
  | _ => none

/-- Absence of a value is written `null`. -/
def optional? {α : Type} (value? : JsonTree → Option α) : JsonTree → Option (Option α)
  | .null => some none
  | tree => (value? tree).map some

/-- The value of a field; a name that occurs twice has none. -/
def lookup (fields : List (Option String × JsonTree)) (name : String) :
    Option (Option JsonTree) :=
  match fields.filter (·.1 == some name) with
  | [] => some none
  | [field] => some (some field.2)
  | _ => none

/--
The values of the named fields, in the order of the names. They may also be given as an array, whose
end may be missing. Fields of other names do not matter, but every key must have a value.
-/
def slots (names : List String) : JsonTree → Option (List (Option JsonTree))
  | .object fields =>
      if fields.all (·.1.isSome) then names.mapM (lookup fields) else none
  | .array items =>
      if items.length ≤ names.length then
        some ((List.range names.length).map fun index => items[index]?)
      else none
  | _ => none

def required {α : Type} (value? : JsonTree → Option α) (slot : Option JsonTree) : Option α :=
  slot.bind value?

/-- A default stands in for a field that is absent. -/
def orDefault {α : Type} (default : α) (value? : JsonTree → Option α) :
    Option JsonTree → Option α
  | none => some default
  | some tree => value? tree

end CallCapture.JsonTree
