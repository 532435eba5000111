/-!
Names of types and methods. A generic one ends in its arity: a grave accent and decimal digits.
-/

namespace CallCapture.Name

/-- What follows the last grave accent, or the whole name if there is none. -/
def afterLastMark (name : List Char) : List Char :=
  (name.reverse.takeWhile (· != '\x60')).reverse

/-- The name up to its last grave accent, if nothing but decimal digits follows that. -/
def dropArity (name : List Char) : List Char :=
  let tail := afterLastMark name
  if tail.length < name.length && tail.all Char.isDigit then
    name.take (name.length - tail.length - 1)
  else name

def stripArity (name : String) : String :=
  String.ofList (dropArity name.toList)

/-- Equality of names up to the case of ASCII letters. -/
def sameIgnoringCase (left right : String) : Bool :=
  left.toList.map Char.toLower == right.toList.map Char.toLower

/-- A name in its namespace, which may be empty. -/
def qualify (scope name : String) : String :=
  if scope.isEmpty then name else scope ++ "." ++ name

end CallCapture.Name
