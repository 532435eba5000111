/-!
Text as bytes. Reading is lenient: a byte that starts no character is kept as a gap, because a
document may hold such bytes where nobody looks.
-/

namespace CallCapture.Utf8

def encode (text : String) : List UInt8 :=
  text.toUTF8.toList

/-- The character that the first bytes encode, if any; no character takes more than four. -/
def firstChar? (bytes : List UInt8) : Option Char :=
  (ByteArray.mk (bytes.take 4).toArray).utf8DecodeChar? 0

/-- The characters of the bytes, and a gap for each byte that belongs to none. -/
def decode : List UInt8 → List (Option Char)
  | [] => []
  | byte :: rest =>
      match firstChar? (byte :: rest) with
      | some c => some c :: decode (rest.drop (c.utf8Size - 1))
      | none => none :: decode rest
termination_by bytes => bytes.length
decreasing_by all_goals (simp only [List.length_cons, List.length_drop]; omega)

/-- Feeds the characters and gaps of the bytes to a step, for as long as it goes on. -/
def foldM? {State : Type} (step : State → Option Char → Option State) (state : State) :
    List UInt8 → Option State
  | [] => some state
  | byte :: rest =>
      match firstChar? (byte :: rest) with
      | some c =>
          (step state (some c)).bind fun next => foldM? step next (rest.drop (c.utf8Size - 1))
      | none => (step state none).bind fun next => foldM? step next rest
termination_by bytes => bytes.length
decreasing_by all_goals (simp only [List.length_cons, List.length_drop]; omega)

end CallCapture.Utf8
