import CallCapture.Message.Rendering
import CallCapture.Message.Template
import CallCapture.Proofs.Text.Numeral

/-!
Filling in a template made of segments. Literal text comes out as it was, whatever braces are in it,
and an argument comes out where its placeholder stands and is not looked at again. A placeholder
without an argument comes out as it stands.
-/

namespace CallCapture.Template

variable {arguments : List String}

/-- Doubled braces become single again, in whatever text they stand. -/
theorem fill_doubleBraces (text rest : List Char) :
    fill arguments (doubleBraces text ++ rest) = text ++ fill arguments rest := by
  induction text with
  | nil => rfl
  | cons c text ih =>
      by_cases opens : c = '\x7b'
      · subst opens
        simp only [doubleBraces, true_or, if_true, List.cons_append, fill, ih]
      · by_cases closes : c = '\x7d'
        · subst closes
          simp only [doubleBraces, or_true, if_true, List.cons_append, fill, ih]
        · simp only [doubleBraces, opens, closes, or_self, if_false, List.cons_append]
          rw [fill, ih]
          · exact fun _ same _ => opens same
          · exact fun _ same _ => closes same
          · exact opens

/-- The digits of a placeholder end at its closing brace. -/
theorem placeholder?_decimal (index : Nat) (rest : List Char) :
    placeholder? arguments (Nat.toDigits 10 index ++ '\x7d' :: rest) =
      arguments[index]?.map fun argument => (argument, (Nat.toDigits 10 index).length + 1) := by
  have decimal : ∀ digit ∈ Nat.toDigits 10 index, digit.isDigit = true :=
    fun _ => Text.isDigit_of_mem_decimal
  have inside : ∀ digit ∈ Nat.toDigits 10 index, (digit == '\x7d') = false := by
    intro digit among
    exact beq_false_of_ne (Text.ne_of_isDigit (decimal digit among) rfl)
  have digits : (Nat.toDigits 10 index).all Char.isDigit = true := List.all_eq_true.mpr decimal
  have nonempty : (Nat.toDigits 10 index).isEmpty = false :=
    List.isEmpty_eq_false_iff.mpr Nat.toDigits_ne_nil
  have number : ofDigits (Nat.toDigits 10 index) = index := Nat.ofDigitChars_ten_toDigits
  simp only [placeholder?, Text.cut_append inside (beq_self_eq_true _), digits, nonempty, number,
    Bool.not_true, Bool.or_self, Bool.false_eq_true, if_false]

/-- An opened placeholder becomes its argument, or else only its opening brace is passed. -/
theorem fill_opened (index : Nat) (rest : List Char) :
    fill arguments ((ofSegment (.placeholder index)).toList ++ rest) =
      match arguments[index]? with
      | some argument => argument.toList ++ fill arguments rest
      | none => '\x7b' :: fill arguments (Nat.toDigits 10 index ++ '\x7d' :: rest) := by
  have text : (ofSegment (.placeholder index)).toList ++ rest =
      '\x7b' :: (Nat.toDigits 10 index ++ '\x7d' :: rest) := by
    simp [ofSegment]
  have notDoubled : ∀ more, Nat.toDigits 10 index ++ '\x7d' :: rest ≠ '\x7b' :: more := by
    intro more same
    cases digits : Nat.toDigits 10 index with
    | nil => exact Nat.toDigits_ne_nil digits
    | cons first others =>
        have among : first ∈ Nat.toDigits 10 index := by simp [digits]
        rw [digits] at same
        exact Text.ne_of_isDigit (Text.isDigit_of_mem_decimal among) rfl (List.cons.inj same).1
  rw [text, fill, placeholder?_decimal]
  · cases found : arguments[index]? with
    | none => rfl
    | some argument => simp
  · exact notDoubled

theorem fill_placeholder {index : Nat} {argument : String}
    (found : arguments[index]? = some argument) (rest : List Char) :
    fill arguments ((ofSegment (.placeholder index)).toList ++ rest) =
      argument.toList ++ fill arguments rest := by
  rw [fill_opened, found]

/-- Filling in segments gives a text, whatever comes after them. -/
def Fills (arguments : List String) (segments : List Segment) (text : String) : Prop :=
  ∀ rest, fill arguments ((ofSegments segments).toList ++ rest) =
    text.toList ++ fill arguments rest

namespace Fills

variable {segments others : List Segment} {text tail argument : String}

theorem nil : Fills arguments [] "" := by
  intro rest
  simp [ofSegments]

theorem literal (literal : String) (fills : Fills arguments segments text) :
    Fills arguments (.literal literal :: segments) (literal ++ text) := by
  intro rest
  simp only [ofSegments, List.map_cons, String.join_cons, ofSegment, String.toList_append,
    String.toList_ofList, List.append_assoc, fill_doubleBraces]
  rw [← fills rest]
  rfl

theorem placeholder {index : Nat} (found : arguments[index]? = some argument)
    (fills : Fills arguments segments text) :
    Fills arguments (.placeholder index :: segments) (argument ++ text) := by
  intro rest
  simp only [ofSegments, List.map_cons, String.join_cons, String.toList_append,
    List.append_assoc, fill_placeholder found]
  rw [← fills rest]
  rfl

theorem append (first : Fills arguments segments text) (second : Fills arguments others tail) :
    Fills arguments (segments ++ others) (text ++ tail) := by
  intro rest
  have joined : (ofSegments (segments ++ others)).toList ++ rest =
      (ofSegments segments).toList ++ ((ofSegments others).toList ++ rest) := by
    simp [ofSegments]
  rw [joined, first, second, String.toList_append, List.append_assoc]

theorem render (fills : Fills arguments segments text) :
    render (ofSegments segments) arguments = text := by
  have whole := fills []
  simp only [List.append_nil, fill] at whole
  rw [Template.render, whole, String.ofList_toList]

end Fills

/-! ### Placeholders without an argument -/

/-- What a segment comes to. A placeholder without an argument stays as it is. -/
def filled (arguments : List String) : Segment → String
  | .literal text => text
  | .placeholder index =>
      match arguments[index]? with
      | some argument => argument
      | none => "\x7b" ++ toString index ++ "\x7d"

theorem doubleBraces_of_plain {text : List Char}
    (plain : ∀ c ∈ text, c ≠ '\x7b' ∧ c ≠ '\x7d') : doubleBraces text = text := by
  induction text with
  | nil => rfl
  | cons c text ih =>
      obtain ⟨⟨opens, closes⟩, others⟩ := List.forall_mem_cons.mp plain
      simp only [doubleBraces, opens, closes, or_self, if_false, ih others]

/-- A closing brace in front of the text stands for itself, and takes nothing with it. -/
def LeavesBrace (arguments : List String) (rest : List Char) : Prop :=
  fill arguments ('\x7d' :: rest) = '\x7d' :: fill arguments rest

theorem leavesBrace_of_head {rest : List Char} (other : ∀ c ∈ rest.head?, c ≠ '\x7d') :
    LeavesBrace arguments rest := by
  unfold LeavesBrace
  rw [fill]
  · exact fun _ opens => absurd opens (by decide)
  · rintro more _ rfl
    exact other '\x7d' rfl rfl
  · decide

/--
Of closing braces in a row, pairs are taken from the left. Behind a single one, those of literal text
are paired one place off, and the one left over at the end is the last of them.
-/
theorem LeavesBrace.doubleBraces {rest : List Char} (leaves : LeavesBrace arguments rest)
    (text : List Char) : LeavesBrace arguments (doubleBraces text ++ rest) := by
  induction text with
  | nil => exact leaves
  | cons c text ih =>
      by_cases closes : c = '\x7d'
      · subst closes
        unfold LeavesBrace at ih ⊢
        simp only [Template.doubleBraces, or_true, if_true, List.cons_append, fill, ih]
      · apply leavesBrace_of_head
        intro first starts
        unfold Template.doubleBraces at starts
        split at starts <;> cases starts <;> exact closes

theorem leavesBrace_ofSegments (segments : List Segment) :
    LeavesBrace arguments (ofSegments segments).toList := by
  induction segments with
  | nil => exact leavesBrace_of_head (by simp [ofSegments])
  | cons segment segments ih =>
      have split : (ofSegments (segment :: segments)).toList =
          (ofSegment segment).toList ++ (ofSegments segments).toList := by
        simp [ofSegments]
      rw [split]
      cases segment with
      | literal text =>
          rw [ofSegment, String.toList_ofList]
          exact ih.doubleBraces text.toList
      | placeholder index => exact leavesBrace_of_head (by simp [ofSegment])

theorem fill_missing {index : Nat} (missing : arguments[index]? = none) {rest : List Char}
    (leaves : LeavesBrace arguments rest) :
    fill arguments ((ofSegment (.placeholder index)).toList ++ rest) =
      (ofSegment (.placeholder index)).toList ++ fill arguments rest := by
  have plain : ∀ digit ∈ Nat.toDigits 10 index, digit ≠ '\x7b' ∧ digit ≠ '\x7d' := by
    intro digit among
    have decimal := Text.isDigit_of_mem_decimal among
    exact ⟨Text.ne_of_isDigit decimal rfl, Text.ne_of_isDigit decimal rfl⟩
  have digits := @fill_doubleBraces arguments (Nat.toDigits 10 index) ('\x7d' :: rest)
  rw [doubleBraces_of_plain plain, leaves] at digits
  rw [fill_opened, missing]
  simp [ofSegment, digits]

/--
Literal text comes out as it was, a placeholder with an argument as that argument, and one without
as it stands in the template, whatever stands on either side.
-/
theorem render_ofSegments (segments : List Segment) (arguments : List String) :
    render (ofSegments segments) arguments = String.join (segments.map (filled arguments)) := by
  suffices text : fill arguments (ofSegments segments).toList =
      (String.join (segments.map (filled arguments))).toList by
    rw [render, text, String.ofList_toList]
  induction segments with
  | nil => simp [ofSegments, fill]
  | cons segment segments ih =>
      rw [List.map_cons, String.join_cons, String.toList_append, ← ih, ofSegments, List.map_cons,
        String.join_cons, String.toList_append, ← ofSegments]
      cases segment with
      | literal text => rw [ofSegment, String.toList_ofList, fill_doubleBraces, filled]
      | placeholder index =>
          cases found : arguments[index]? with
          | some argument => rw [fill_placeholder found, filled, found]
          | none =>
              rw [fill_missing found (leavesBrace_ofSegments segments), filled, found]
              rfl

/-- Braces next to placeholders, one of which has no argument. -/
example : render (ofSegments [.literal "\x7b", .placeholder 0, .placeholder 1, .literal "\x7d\x7d"])
    ["\x7b1\x7d"] = "\x7b\x7b1\x7d\x7b1\x7d\x7d\x7d" := by
  decide +kernel

end CallCapture.Template
