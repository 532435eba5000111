import CallCapture.Json.Token

/-!
The tree of a JSON text. Tokens are taken one by one; what is open around the current place is kept
on a stack.
-/

namespace CallCapture

namespace JsonTree

/-- An array or object that is still open, with what it holds so far in reverse. -/
inductive Open where
  | items (done : List JsonTree)
  | fields (done : List (Option String × JsonTree)) (key : Option String)

inductive Place where
  | value
  /-- A value, or the end of the array that was just opened. -/
  | firstItem
  | key (done : List (Option String × JsonTree))
  /-- A key, or the end of the object that was just opened. -/
  | firstKey
  | colon (done : List (Option String × JsonTree)) (key : Option String)
  | after (tree : JsonTree)

structure Builder where
  place : Place
  stack : List Open

namespace Builder

def start : Builder := ⟨.value, []⟩

/-- A token where a value must come. -/
def takeValue (stack : List Open) : JsonToken → Option Builder
  | .null => some ⟨.after .null, stack⟩
  | .bool value => some ⟨.after (.bool value), stack⟩
  | .number value => some ⟨.after (.number value), stack⟩
  | .string value => some ⟨.after (.string value), stack⟩
  | .beginArray => some ⟨.firstItem, stack⟩
  | .beginObject => some ⟨.firstKey, stack⟩
  | _ => none

/-- A token after a value, which goes into what is open around it. -/
def takeAfter (tree : JsonTree) : List Open → JsonToken → Option Builder
  | .items done :: stack, .comma => some ⟨.value, .items (tree :: done) :: stack⟩
  | .items done :: stack, .endArray => some ⟨.after (.array (tree :: done).reverse), stack⟩
  | .fields done key :: stack, .comma => some ⟨.key ((key, tree) :: done), stack⟩
  | .fields done key :: stack, .endObject =>
      some ⟨.after (.object ((key, tree) :: done).reverse), stack⟩
  | _, _ => none

def step (builder : Builder) (token : JsonToken) : Option Builder :=
  match builder.place, token with
  | .value, token => takeValue builder.stack token
  | .firstItem, .endArray => some ⟨.after (.array []), builder.stack⟩
  | .firstItem, token => takeValue (.items [] :: builder.stack) token
  | .firstKey, .endObject => some ⟨.after (.object []), builder.stack⟩
  | .firstKey, .string key => some ⟨.colon [] key, builder.stack⟩
  | .key done, .string key => some ⟨.colon done key, builder.stack⟩
  | .colon done key, .colon => some ⟨.value, .fields done key :: builder.stack⟩
  | .after tree, token => takeAfter tree builder.stack token
  | _, _ => none

def finish (builder : Builder) : Option JsonTree :=
  match builder.place, builder.stack with
  | .after tree, [] => some tree
  | _, _ => none

end Builder

def ofTokens? (tokens : List JsonToken) : Option JsonTree :=
  (tokens.foldlM Builder.step Builder.start).bind Builder.finish

def parse? (text : String) : Option JsonTree :=
  (JsonToken.scan (text.toList.map some)).bind ofTokens?

def parseBytes? (bytes : List UInt8) : Option JsonTree :=
  (JsonToken.scanBytes bytes).bind ofTokens?

end JsonTree

end CallCapture
