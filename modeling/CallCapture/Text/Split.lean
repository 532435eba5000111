/-!
Cutting text at its first mark.
-/

namespace CallCapture.Text

/-- The text before the first character that is a mark, and the text after it if there is one. -/
def cut (isMark : Char → Bool) : List Char → List Char × Option (List Char)
  | [] => ([], none)
  | c :: rest =>
      if isMark c then ([], some rest)
      else
        let (before, after) := cut isMark rest
        (c :: before, after)

/-- Whether a list of characters starts with another, and what follows it. -/
def dropPrefix? : List Char → List Char → Option (List Char)
  | [], text => some text
  | _ :: _, [] => none
  | c :: expected, d :: text => if c = d then dropPrefix? expected text else none

end CallCapture.Text
