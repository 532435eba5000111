import CallCapture.Number.Decimal

/-!
Filling in a template: `{n}` becomes the argument at position `n`, and doubled braces become single
ones. A brace that is part of neither stands for itself.
-/

namespace CallCapture.Template

/--
The argument that a placeholder names, given what follows its opening brace, and how long that is.
-/
def placeholder? (arguments : List String) (text : List Char) : Option (String × Nat) :=
  match Text.cut (· == '\x7d') text with
  | (digits, some _) =>
      if digits.isEmpty || !digits.all Char.isDigit then none
      else arguments[ofDigits digits]?.map fun argument => (argument, digits.length + 1)
  | (_, none) => none

def fill (arguments : List String) : List Char → List Char
  | [] => []
  | '\x7b' :: '\x7b' :: rest => '\x7b' :: fill arguments rest
  | '\x7d' :: '\x7d' :: rest => '\x7d' :: fill arguments rest
  | '\x7b' :: rest =>
      match placeholder? arguments rest with
      | some (argument, length) => argument.toList ++ fill arguments (rest.drop length)
      | none => '\x7b' :: fill arguments rest
  | c :: rest => c :: fill arguments rest
termination_by text => text.length
decreasing_by all_goals (simp only [List.length_cons, List.length_drop]; omega)

def render (template : String) (arguments : List String) : String :=
  String.ofList (fill arguments template.toList)

end CallCapture.Template
