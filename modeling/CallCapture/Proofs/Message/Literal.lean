import CallCapture.Probe.Manager
import CallCapture.Proofs.Boxing.Classified
import CallCapture.Proofs.Message.Filling

/-!
What the message of a captured call reads. It is the call spelled out, with the text of each value
that could be captured and a fixed text for the others, and no name or value is taken for a part of
the template.
-/

namespace CallCapture

theorem RuntimeType.displayNames_eq_map (types : List RuntimeType) :
    displayNames types = types.map (displayName false) := by
  induction types with
  | nil => rfl
  | cons type types ih => rw [displayNames, ih, List.map_cons]

theorem intercalate_cons (separator first : String) (rest : List String) :
    separator.intercalate (first :: rest) =
      first ++ ((if rest.isEmpty then "" else separator) ++ separator.intercalate rest) := by
  cases rest with
  | nil => simp
  | cons second rest => simp [String.append_assoc]

/-! The call spelled out. -/

namespace SpelledCall

/-- A keyword, if there is one, and the name of a parameter, or its position if it has none. -/
def parameterLabel (index : Nat) (parameter : Parameter) : String :=
  let name := if parameter.name = "" then "arg" ++ toString index else parameter.name
  match parameter.effectivePassing.keyword? with
  | some keyword => keyword ++ " " ++ name
  | none => name

/-- What the arguments are called, an implicit `this` first. -/
def labels (method : Method) : List String :=
  let declared := method.parameters.mapIdx parameterLabel
  if method.hasThis then "this" :: declared else declared

/-- The text of the value at a position, if the instruction there is to capture it. -/
def shown (instructions : List Boxing) (values : List Argument) (position : Nat) : String :=
  match instructions[position]?, values[position]? with
  | some instruction, some value =>
      if instruction.isSupported then value.text else "\x7bunsupported\x7d"
  | _, _ => "\x7bunsupported\x7d"

/-- A label and what is shown of the value, for every argument. -/
def arguments (labels : List String) (instructions : List Boxing) (values : List Argument) :
    List String :=
  labels.mapIdx fun position label => label ++ ": " ++ shown instructions values position

/-- The declaring type, if there is one, and a dot. -/
def declaringPart (method : Method) : String :=
  match method.declaringType with
  | some type => type.displayName true ++ "."
  | none => ""

/-- The generic arguments in angle brackets, if there are any. -/
def genericPart (method : Method) : String :=
  match method.genericArguments with
  | [] => ""
  | types => "<" ++ ", ".intercalate (types.map (RuntimeType.displayName false)) ++ ">"

def text (method : Method) (instructions : List Boxing) (values : List Argument) : String :=
  declaringPart method ++ Name.stripArity method.name ++ genericPart method ++ "("
    ++ ", ".intercalate (arguments (labels method) instructions values) ++ ")"

theorem labels_length (method : Method) :
    (labels method).length = (if method.hasThis then 1 else 0) + method.parameters.length := by
  unfold labels
  split
  · simp [Nat.add_comm]
  · simp

theorem argumentLabels_eq (method : Method) : Template.argumentLabels method = labels method := by
  have declared : Template.parameterLabel = parameterLabel := by
    funext index parameter
    simp only [Template.parameterLabel, parameterLabel, String.isEmpty_iff]
    cases parameter.effectivePassing.keyword? with
    | none => exact String.empty_append
    | some keyword => rfl
  unfold Template.argumentLabels labels
  rw [declared]
  split <;> rfl

theorem text_eq (method : Method) (instructions : List Boxing) (values : List Argument) :
    text method instructions values = Template.callee method ++ "("
      ++ (", ".intercalate (arguments (labels method) instructions values) ++ ")") := by
  have callee : Template.callee method = declaringPart method ++ Name.stripArity method.name
      ++ genericPart method := by
    unfold Template.callee declaringPart genericPart
    rw [RuntimeType.displayNames_eq_map]
    cases method.declaringType <;> cases method.genericArguments <;> rfl
  rw [text, callee]
  simp only [String.append_assoc]

theorem shown_succ (instructions : List Boxing) (values : List Argument) (position : Nat) :
    shown instructions values (position + 1) =
      shown instructions.tail values.tail position := by
  simp only [shown, List.getElem?_tail]

theorem arguments_cons (label : String) (labels : List String) (instructions : List Boxing)
    (values : List Argument) :
    arguments (label :: labels) instructions values =
      (label ++ ": " ++ shown instructions values 0)
        :: arguments labels instructions.tail values.tail := by
  simp only [arguments, List.mapIdx_cons, shown_succ]

theorem arguments_isEmpty (labels : List String) (instructions : List Boxing)
    (values : List Argument) : (arguments labels instructions values).isEmpty = labels.isEmpty := by
  cases labels with
  | nil => rfl
  | cons label labels => rw [arguments_cons]; rfl

/-- Arguments after a separator, unless there are none or the first of them is the very first. -/
def tail (isFirst : Bool) (labels : List String) (instructions : List Boxing)
    (values : List Argument) : String :=
  (if isFirst || labels.isEmpty then "" else ", ")
    ++ ", ".intercalate (arguments labels instructions values)

theorem tail_cons (isFirst : Bool) (label : String) (labels : List String)
    (instructions : List Boxing) (values : List Argument) :
    tail isFirst (label :: labels) instructions values =
      ((if isFirst then "" else ", ") ++ label ++ ": ") ++
        (shown instructions values 0 ++ tail false labels instructions.tail values.tail) := by
  simp only [tail, arguments_cons, intercalate_cons, arguments_isEmpty, List.isEmpty_cons,
    Bool.or_false, Bool.false_or, String.append_assoc]

end SpelledCall

/-- The texts of the values that are captured, in the order in which they are. -/
def capturedTexts (instructions : List Boxing) (values : List Argument) : List String :=
  ((instructions.zip values).filter (·.1.isSupported)).map (·.2.text)

theorem capturedTexts_cons (instruction : Boxing) (instructions : List Boxing) (value : Argument)
    (values : List Argument) :
    capturedTexts (instruction :: instructions) (value :: values) =
      if instruction.isSupported then value.text :: capturedTexts instructions values
      else capturedTexts instructions values := by
  simp only [capturedTexts, List.zip_cons_cons, List.filter_cons]
  split <;> rfl

/--
The labelled arguments of a template, from any of them on: the captured texts not used so far are
those of the values not reached so far.
-/
theorem fills_arguments {captured : List String} (isFirst : Bool) (next : Nat)
    (labels : List String) {instructions : List Boxing} {values : List Argument}
    (enough : instructions.length ≤ values.length)
    (left : captured.drop next = capturedTexts instructions values) :
    Template.Fills captured (Template.arguments isFirst next labels instructions)
      (SpelledCall.tail isFirst labels instructions values) := by
  induction labels generalizing isFirst next instructions values with
  | nil =>
      have nothing : SpelledCall.tail isFirst [] instructions values = "" := by
        simp [SpelledCall.tail, SpelledCall.arguments]
      rw [nothing]
      exact .nil
  | cons label labels ih =>
      rw [SpelledCall.tail_cons]
      cases instructions with
      | nil => exact .literal _ (.literal _ (ih false next (Nat.zero_le _) left))
      | cons instruction instructions =>
          cases values with
          | nil => simp at enough
          | cons value values =>
              have fewer : instructions.length ≤ values.length := by simpa using enough
              rw [capturedTexts_cons] at left
              by_cases supported : instruction.isSupported
              · rw [if_pos supported] at left
                have found : captured[next]? = some value.text := by
                  rw [← List.head?_drop, left]
                  rfl
                have unused : captured.drop (next + 1) = capturedTexts instructions values := by
                  rw [← List.tail_drop, left]
                  rfl
                have shown : SpelledCall.shown (instruction :: instructions) (value :: values) 0 =
                    value.text := by
                  simp [SpelledCall.shown, supported]
                simp only [Template.arguments, List.head?_cons, Option.any_some, supported, if_true,
                  shown]
                exact .literal _ (.placeholder found (ih false (next + 1) fewer unused))
              · rw [if_neg supported] at left
                have shown : SpelledCall.shown (instruction :: instructions) (value :: values) 0 =
                    Template.unsupportedText := by
                  simp [SpelledCall.shown, supported, Template.unsupportedText]
                simp only [Template.arguments, List.head?_cons, Option.any_some, supported, shown,
                  Bool.false_eq_true, if_false]
                exact .literal _ (.literal _ (ih false next fewer left))

/-- The whole template is filled in to the call spelled out. -/
theorem render_ofMethod (method : Method) {instructions : List Boxing} {values : List Argument}
    (enough : instructions.length ≤ values.length) :
    Template.render (Template.ofMethod method instructions) (capturedTexts instructions values) =
      SpelledCall.text method instructions values := by
  have spelled : SpelledCall.text method instructions values =
      ((Template.callee method ++ "(") ++
        SpelledCall.tail true (SpelledCall.labels method) instructions values) ++ (")" ++ "") := by
    simp only [SpelledCall.text_eq, SpelledCall.tail, Bool.true_or, if_true, String.empty_append,
      String.append_empty, String.append_assoc]
  have middle := fills_arguments true 0 (SpelledCall.labels method) enough List.drop_zero
  rw [spelled, Template.ofMethod, Template.segments, SpelledCall.argumentLabels_eq]
  exact Template.Fills.render ((Template.Fills.literal _ middle).append (.literal ")" .nil))

/-- The positions to capture are those of the instructions to capture. -/
theorem filter_zipIdx (flags : List Bool) (values : List Argument) (start : Nat) :
    ((values.zipIdx start).filter fun entry => (flags.getD entry.2 false)).map (·.1.text) =
      (((flags.drop start).zip values).filter (·.1)).map (·.2.text) := by
  induction values generalizing start with
  | nil => simp
  | cons value values ih =>
      have next := ih (start + 1)
      rw [← List.tail_drop] at next
      rw [List.zipIdx_cons, List.filter_cons, List.getD_eq_getElem?_getD, ← List.head?_drop]
      cases remaining : flags.drop start with
      | nil =>
          rw [remaining] at next
          exact next
      | cons flag flags =>
          rw [remaining] at next
          cases flag with
          | false => exact next
          | true => exact congrArg (value.text :: ·) next

theorem contains_build (limit : Nat) (resolved : ResolvedMethod) (position : Nat) :
    (Instrumented.build limit resolved).supported.contains position =
      ((Instrumented.build limit resolved).instructions.map Boxing.isSupported).getD position
        false := by
  have built : (Instrumented.build limit resolved).supported =
      .ofPredicate (Instrumented.build limit resolved).instructions.length fun position =>
        (Instrumented.build limit resolved).instructions[position]?.any Boxing.isSupported := rfl
  rw [built, PositionSet.contains_ofPredicate, List.getD_eq_getElem?_getD, List.getElem?_map]
  by_cases declared : position < (Instrumented.build limit resolved).instructions.length
  · simp [declared]
  · simp [declared]

theorem capturedArguments_build (limit : Nat) (resolved : ResolvedMethod)
    (values : List Argument) :
    ProbeManager.capturedArguments (Instrumented.build limit resolved) values =
      capturedTexts (Instrumented.build limit resolved).instructions values := by
  have positions := filter_zipIdx
    ((Instrumented.build limit resolved).instructions.map Boxing.isSupported) values 0
  rw [List.drop_zero, List.zip_map_left, List.filter_map, List.map_map] at positions
  simp only [ProbeManager.capturedArguments, contains_build]
  exact positions

namespace ProbeManager

/-- The entry for a call of a method, if the call is logged. -/
def loggedEntry (limit : Nat) (resolved : ResolvedMethod) (call : ProbeCall) (moment : Moment) :
    LogEntry :=
  let built := Instrumented.build limit resolved
  .ofCall built (capturedArguments built call.arguments) call.context moment.timestamp

/--
Every argument of a method has an instruction, and the message for a call with no fewer values
spells out the call. A call of a captured method, on a thread that is not excluded, offers an entry
with this message to the log and does nothing else.
-/
theorem onEnter_spells_call (limit : Nat) (resolved : ResolvedMethod) (call : ProbeCall)
    (moment : Moment)
    (enough : (Instrumented.build limit resolved).argumentCount ≤ call.arguments.length) :
    (Instrumented.build limit resolved).instructions.length =
        (SpelledCall.labels resolved.method).length ∧
      (loggedEntry limit resolved call moment).message =
        SpelledCall.text resolved.method (Instrumented.build limit resolved).instructions
          call.arguments ∧
      ∀ (manager : ProbeManager) (thread : Option String), manager.capturing = true →
        manager.cache.get? call.methodId = some (Instrumented.build limit resolved) →
        (call.context.threadName.or thread).any manager.logger.excludesThread = false →
        manager.onEnter thread moment call =
          { manager with
            logger := (manager.logger.enqueue (call.context.threadName.or thread) moment.elapsed
              (loggedEntry limit resolved call moment)).2 } := by
  refine ⟨?_, ?_, ?_⟩
  · rw [SpelledCall.labels_length]
    exact Boxing.length_classify limit resolved.module resolved.method
  · have filled := render_ofMethod resolved.method enough
    rw [← capturedArguments_build] at filled
    exact filled
  · intro manager thread capturing cached included
    simp only [onEnter, capturing, cached, included, Bool.not_true, Bool.false_eq_true, if_false]
    rfl

/-- A method whose name and parameters look like placeholders, and which has a pointer parameter. -/
def bracedMethod : ResolvedMethod :=
  let int : RuntimeType := .primitive .int32
  let method : Method := ⟨⟨0x06000001⟩, "\x7b0\x7d", some (.ofKind "App" "Foo" .classType), true,
    [int], [⟨"\x7b1\x7d", int, .byValue⟩, ⟨"", .around int .pointer, .out⟩], []⟩
  ⟨⟨1, "App.dll", false, false, [], [], [method]⟩, method⟩

def bracedCall : ProbeCall :=
  ⟨bracedMethod.id, [.string "\x7b0\x7d", .integer 5, .unsupported], ⟨none, none, some "main"⟩⟩

/-- A manager that captures just one method. -/
def capturingOne (limit : Nat) (resolved : ResolvedMethod) : ProbeManager :=
  { create .initial ⟨.steady, 4, ["worker"], 0, [], none, [], false, false, 0, 0, [], 0, [], 0⟩ with
    capturing := true
    cache := ⟨[Instrumented.build limit resolved]⟩ }

theorem onEnter_spells_call_braced :
    (Instrumented.build 100 bracedMethod).argumentCount ≤ bracedCall.arguments.length ∧
    (loggedEntry 100 bracedMethod bracedCall ⟨⟨0, 0⟩, 0⟩).message =
      "App.Foo.\x7b0\x7d<Int32>(this: \"\x7b0\x7d\", \x7b1\x7d: 5, out arg1: \x7bunsupported\x7d)" ∧
    (capturingOne 100 bracedMethod).onEnter none ⟨⟨0, 0⟩, 0⟩ bracedCall =
      { capturingOne 100 bracedMethod with
        logger := ((capturingOne 100 bracedMethod).logger.enqueue (some "main") 0
          (loggedEntry 100 bracedMethod bracedCall ⟨⟨0, 0⟩, 0⟩)).2 } := by
  have enough : (Instrumented.build 100 bracedMethod).argumentCount ≤
      bracedCall.arguments.length := by decide
  obtain ⟨_, message, entered⟩ :=
    onEnter_spells_call 100 bracedMethod bracedCall ⟨⟨0, 0⟩, 0⟩ enough
  refine ⟨enough, message.trans (by decide), ?_⟩
  exact entered (capturingOne 100 bracedMethod) none rfl rfl (by decide)

end ProbeManager

end CallCapture
