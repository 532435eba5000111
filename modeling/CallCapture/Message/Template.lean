import CallCapture.Boxing.Instruction
import CallCapture.Managed.Method

/-!
Templates of call messages: literal text in which braces are doubled, and placeholders `{n}` for the
captured arguments.
-/

namespace CallCapture

inductive Segment where
  | literal (text : String)
  | placeholder (index : Nat)
deriving DecidableEq, Repr

namespace Template

def doubleBraces : List Char → List Char
  | [] => []
  | c :: rest =>
      if c = '\x7b' ∨ c = '\x7d' then c :: c :: doubleBraces rest else c :: doubleBraces rest

def ofSegment : Segment → String
  | .literal text => String.ofList (doubleBraces text.toList)
  | .placeholder index => "\x7b" ++ toString index ++ "\x7d"

def ofSegments (segments : List Segment) : String :=
  String.join (segments.map ofSegment)

def unsupportedText : String := "\x7bunsupported\x7d"

/-- The label of a declared parameter: its keyword, and its name or else its position. -/
def parameterLabel (index : Nat) (parameter : Parameter) : String :=
  let keyword :=
    match parameter.effectivePassing.keyword? with
    | some keyword => keyword ++ " "
    | none => ""
  keyword ++ if parameter.name.isEmpty then "arg" ++ toString index else parameter.name

/-- The labels of all arguments, an implicit `this` first. -/
def argumentLabels (method : Method) : List String :=
  (if method.hasThis then ["this"] else []) ++ method.parameters.mapIdx parameterLabel

/--
Labelled arguments, separated by commas. Supported ones take placeholders in order from `next`; an
argument without an instruction is not captured.
-/
def arguments (isFirst : Bool) (next : Nat) : List String → List Boxing → List Segment
  | [], _ => []
  | label :: labels, instructions =>
      let lead := (if isFirst then "" else ", ") ++ label ++ ": "
      if instructions.head?.any Boxing.isSupported then
        .literal lead :: .placeholder next :: arguments false (next + 1) labels instructions.tail
      else
        .literal lead :: .literal unsupportedText :: arguments false next labels instructions.tail

/-- Everything up to the opening parenthesis: declaring type, method and generic arguments. -/
def callee (method : Method) : String :=
  let declaring :=
    match method.declaringType with
    | some type => type.displayName true ++ "."
    | none => ""
  let applied :=
    if method.genericArguments.isEmpty then ""
    else "<" ++ ", ".intercalate (RuntimeType.displayNames method.genericArguments) ++ ">"
  declaring ++ Name.stripArity method.name ++ applied

def segments (method : Method) (instructions : List Boxing) : List Segment :=
  .literal (callee method ++ "(") :: arguments true 0 (argumentLabels method) instructions
    ++ [.literal ")"]

def ofMethod (method : Method) (instructions : List Boxing) : String :=
  ofSegments (segments method instructions)

end Template

end CallCapture
