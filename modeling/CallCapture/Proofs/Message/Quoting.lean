import CallCapture.Message.Argument
import CallCapture.Proofs.Text.Hexadecimal
import CallCapture.Proofs.Text.Positional

/-!
Quoted text stands on one line, ends at its first quote without a backslash, and is read in one way.
No other value has the text of a string or a character, except an object whose host shows it so.
-/

namespace CallCapture.Argument

def IsQuote (c : Char) : Prop :=
  c = '"' ∨ c = '\''
deriving Decidable

/-- Text in which no quote is found by a reader who passes each backslash with what follows it. -/
inductive Escaped (quote : Char) : List Char → Prop where
  | nil : Escaped quote []
  | plain {c : Char} {rest : List Char} : c ≠ quote → c ≠ '\\' → Escaped quote rest →
      Escaped quote (c :: rest)
  | pair (c : Char) {rest : List Char} : Escaped quote rest → Escaped quote ('\\' :: c :: rest)

structure QuotedBy (quote : Char) (text : String) : Prop where
  oneLine : ∀ c ∈ text.toList, isControl c = false
  enclosed : ∃ inner, text.toList = quote :: (inner ++ [quote]) ∧ Escaped quote inner

/-- What a mark behind a backslash stands for. -/
def marked (mark : Char) : Char :=
  if mark = 'n' then '\n'
  else if mark = 'r' then '\r'
  else if mark = 't' then '\t'
  else if mark = '0' then '\x00'
  else mark

/-- Reads one character of escaped text, and gives what follows its spelling. -/
def unescape? : List Char → Option (Char × List Char)
  | [] => none
  | '\\' :: 'u' :: text => some (Char.ofNat (JsonToken.hexNumber (text.take 4)), text.drop 4)
  | '\\' :: mark :: text => some (marked mark, text)
  | c :: text => some (c, text)

variable {quote c : Char} {rest : List Char}

/-! ### The spelling of a character -/

/-- A spelling of a character inside of quotes. -/
structure Spells (quote c : Char) (text : List Char) : Prop where
  oneLine : ∀ d ∈ text, isControl d = false
  escaped : ∀ {rest}, Escaped quote rest → Escaped quote (text ++ rest)
  reads : ∀ rest, unescape? (text ++ rest) = some (c, rest)

theorem Spells.plain (unquoted : c ≠ quote) (single : c ≠ '\\') (visible : isControl c = false) :
    Spells quote c [c] where
  oneLine := by simpa using visible
  escaped := .plain unquoted single
  reads rest := by
    rw [List.singleton_append, unescape?]
    · exact fun _ backslash => absurd backslash single
    · exact fun _ _ backslash => absurd backslash single

theorem Spells.pair {mark : Char} (visible : isControl mark = false) (notNumber : mark ≠ 'u')
    (stands : marked mark = c) : Spells quote c ['\\', mark] where
  oneLine := by
    have backslash : isControl '\\' = false := by decide
    simp [backslash, visible]
  escaped := .pair mark
  reads rest := by
    rw [List.cons_append, List.singleton_append, unescape?, stands]
    exact notNumber

theorem Escaped.append_hex {digits : List Char} (isQuote : IsQuote quote)
    (hex : ∀ digit ∈ digits, (JsonToken.hexValue? digit).isSome = true)
    (escaped : Escaped quote rest) : Escaped quote (digits ++ rest) := by
  induction digits with
  | nil => exact escaped
  | cons digit digits ih =>
      obtain ⟨first, others⟩ := List.forall_mem_cons.mp hex
      have range := JsonToken.toNat_of_hexValue? first
      refine .plain ?_ ?_ (ih others)
      · rintro rfl
        rcases isQuote with rfl | rfl <;> revert range <;> decide
      · rintro rfl
        exact range.2.2 rfl

theorem Spells.number (isQuote : IsQuote quote) (narrow : c.toNat < 0x100) :
    Spells quote c ('\\' :: 'u' :: Text.hexPadded 4 c.toNat) := by
  obtain ⟨four, hex, value⟩ := JsonToken.hexPadded_code narrow
  refine ⟨?_, fun escaped => .pair 'u' (escaped.append_hex isQuote hex), fun rest => ?_⟩
  · have marks : isControl '\\' = false ∧ isControl 'u' = false := by decide
    refine List.forall_mem_cons.mpr ⟨marks.1, List.forall_mem_cons.mpr ⟨marks.2, ?_⟩⟩
    intro digit among
    have range := JsonToken.toNat_of_hexValue? (hex digit among)
    simp only [isControl, Bool.or_eq_false_iff, Bool.and_eq_false_iff, decide_eq_false_iff_not]
    omega
  · rw [List.cons_append, List.cons_append, unescape?, List.take_left' four, List.drop_left' four,
      value, Char.ofNat_toNat]

theorem spells_escape (isQuote : IsQuote quote) (c : Char) : Spells quote c (escape quote c) := by
  unfold escape
  split
  case isTrue backslash => exact .pair (by decide) (by decide) backslash.symm
  rename_i single
  split
  case isTrue newline => exact .pair (by decide) (by decide) newline.symm
  split
  case isTrue ret => exact .pair (by decide) (by decide) ret.symm
  split
  case isTrue tab => exact .pair (by decide) (by decide) tab.symm
  split
  case isTrue zero => exact .pair (by decide) (by decide) zero.symm
  split
  case isTrue quoted =>
    subst quoted
    rcases isQuote with rfl | rfl <;> exact .pair (by decide) (by decide) rfl
  rename_i unquoted
  split
  case isTrue control =>
    refine .number isQuote ?_
    simp only [isControl, Bool.or_eq_true, Bool.and_eq_true, decide_eq_true_eq] at control
    omega
  case isFalse visible => exact .plain unquoted single (Bool.eq_false_iff.mpr visible)

/-! ### Quoted text -/

theorem quotedBy_quoted (isQuote : IsQuote quote) (text : List Char) :
    QuotedBy quote (quoted quote text) := by
  have mark : isControl quote = false := by
    rcases isQuote with rfl | rfl <;> decide
  refine ⟨?_, text.flatMap (escape quote), by rw [quoted, String.toList_ofList], ?_⟩
  · intro c among
    rw [quoted, String.toList_ofList, List.mem_cons, List.mem_append, List.mem_singleton,
      List.mem_flatMap] at among
    obtain rfl | ⟨d, _, spelled⟩ | rfl := among
    · exact mark
    · exact (spells_escape isQuote d).oneLine c spelled
    · exact mark
  · induction text with
    | nil => exact .nil
    | cons c text ih => exact (spells_escape isQuote c).escaped ih

theorem flatMap_escape_injective (isQuote : IsQuote quote) {left right : List Char}
    (same : left.flatMap (escape quote) = right.flatMap (escape quote)) : left = right := by
  have reads (c : Char) (others : List Char) :
      unescape? ((c :: others).flatMap (escape quote)) = some (c, others.flatMap (escape quote)) :=
    (spells_escape isQuote c).reads _
  -- Reading a character off both texts leaves the spellings of the rest, which are equal again.
  induction left generalizing right with
  | nil =>
      cases right with
      | nil => rfl
      | cons d right =>
          have ended := congrArg unescape? same
          rw [reads] at ended
          contradiction
  | cons c left ih =>
      have read := congrArg unescape? same
      cases right with
      | nil =>
          rw [reads] at read
          contradiction
      | cons d right =>
          rw [reads, reads, Option.some.injEq, Prod.mk.injEq] at read
          rw [read.1, ih read.2]

theorem quoted_injective {other : Char} (isQuote : IsQuote quote) {left right : List Char}
    (same : quoted quote left = quoted other right) : quote = other ∧ left = right := by
  obtain ⟨rfl, inner⟩ := List.cons.inj (String.ofList_injective same)
  exact ⟨rfl, flatMap_escape_injective isQuote (List.append_cancel_right inner)⟩

/-! ### Text without quotes -/

/-- Text that does not begin with a quote. -/
def Unquoted (text : String) : Prop :=
  text.toList.head?.all (fun c => ¬ IsQuote c) = true
deriving Decidable

theorem Unquoted.append {first : String} (unquoted : Unquoted first) (nonempty : first ≠ "")
    (rest : String) : Unquoted (first ++ rest) := by
  have chars : first.toList ≠ [] := by simpa using nonempty
  obtain ⟨c, others, starts⟩ := List.exists_cons_of_ne_nil chars
  rw [Unquoted, starts] at unquoted
  rw [Unquoted, String.toList_append, starts]
  exact unquoted

theorem quoted_not_unquoted (isQuote : IsQuote quote) (text : List Char) :
    ¬ Unquoted (quoted quote text) := by
  simp [Unquoted, quoted, isQuote]

theorem unquoted_digits {text : List Char}
    (decimal : ∀ c ∈ text, c.isDigit = true ∨ c = '.') : Unquoted (String.ofList text) := by
  rw [Unquoted, String.toList_ofList, Option.all_eq_true]
  intro c head
  have among := decimal c (List.mem_of_mem_head? head)
  apply decide_eq_true
  rintro (rfl | rfl) <;> exact absurd among (by decide)

theorem unquoted_natural (number : Nat) : Unquoted (toString number) :=
  unquoted_digits fun _ written => .inl (Text.isDigit_of_mem_decimal written)

theorem unquoted_integer (number : Int) : Unquoted (toString number) := by
  cases number with
  | ofNat number => exact unquoted_natural number
  | negSucc number =>
      have minus : Unquoted "-" := by decide
      exact minus.append (by decide) _

theorem unquoted_positional (decimal : Decimal) : Unquoted decimal.positional := by
  have numeral := unquoted_digits fun _ written => decimal.mem_positional written
  rwa [String.ofList_toList] at numeral

theorem unquoted_magnitude (format : BinaryFormat) (magnitude : Magnitude) :
    Unquoted (format.text magnitude) := by
  cases magnitude with
  | finite significand exponent => exact unquoted_positional _
  | infinite => exact (by decide : Unquoted "Infinity")

theorem unquoted_value (format : BinaryFormat) (value : BinaryValue) :
    Unquoted (format.valueText value) := by
  match value with
  | .notANumber => exact (by decide : Unquoted "NaN")
  | .number true magnitude =>
      have minus : Unquoted "-" := by decide
      exact minus.append (by decide) _
  | .number false magnitude => exact unquoted_magnitude format magnitude

theorem cases_of_quoted (isQuote : IsQuote quote) {value : Argument} {inner : List Char}
    (same : value.text = quoted quote inner) :
    (∃ string, value = .string string ∧ '"' = quote ∧ string.toList = inner) ∨
      (∃ c, value = .char c ∧ '\'' = quote ∧ [c] = inner) ∨
      ∃ typeName, value = .object typeName (some (quoted quote inner)) := by
  -- Apart from an object that shows what it likes, whatever else there is begins without a quote.
  have notBare (unquoted : Unquoted value.text) : False :=
    quoted_not_unquoted isQuote inner (same ▸ unquoted)
  cases value with
  | string string => exact .inl ⟨string, rfl, quoted_injective (.inl rfl) same⟩
  | char c => exact .inr (.inl ⟨c, rfl, quoted_injective (.inr rfl) same⟩)
  | object typeName display =>
      cases display with
      | some shown => exact .inr (.inr ⟨typeName, by rw [← same, text]⟩)
      | none =>
          have brace : Unquoted "\x7b" := by decide
          exact (notBare ((brace.append (by decide) typeName).append (by simp) _)).elim
  | null => exact (notBare (by decide)).elim
  | bool flag => exact (notBare (by cases flag <;> decide)).elim
  | integer number => exact (notBare (unquoted_integer number)).elim
  | address word =>
      have mark : Unquoted "0x" := by decide
      exact (notBare (mark.append (by decide) _)).elim
  | single bits => exact (notBare (unquoted_value _ _)).elim
  | double bits => exact (notBare (unquoted_value _ _)).elim
  | unsupported => exact (notBare (by decide)).elim

theorem text_eq_string_iff (value : Argument) (string : String) :
    value.text = text (.string string) ↔
      value = .string string ∨ ∃ typeName, value = .object typeName (some (text (.string string))) := by
  constructor
  · intro same
    rcases cases_of_quoted (.inl rfl) same with ⟨other, rfl, _, chars⟩ | ⟨c, _, mark, _⟩ | shown
    · exact .inl (by rw [String.toList_inj.mp chars])
    · exact absurd mark (by decide)
    · exact .inr shown
  · rintro (rfl | ⟨typeName, rfl⟩) <;> rfl

theorem text_eq_char_iff (value : Argument) (c : Char) :
    value.text = text (.char c) ↔
      value = .char c ∨ ∃ typeName, value = .object typeName (some (text (.char c))) := by
  constructor
  · intro same
    rcases cases_of_quoted (.inr rfl) same with ⟨string, _, mark, _⟩ | ⟨other, rfl, _, chars⟩ | shown
    · exact absurd mark (by decide)
    · exact .inl (by rw [(List.cons.inj chars).1])
    · exact .inr shown
  · rintro (rfl | ⟨typeName, rfl⟩) <;> rfl

/--
Strings and characters are quoted, and their text determines them among all values, apart from
objects whose host shows them as that very text.
-/
theorem quoted_text_determines :
    (∀ string : String, QuotedBy '"' (text (.string string)) ∧
      ∀ value : Argument, value.text = text (.string string) ↔
        value = .string string ∨
          ∃ typeName, value = .object typeName (some (text (.string string)))) ∧
    ∀ c : Char, QuotedBy '\'' (text (.char c)) ∧
      ∀ value : Argument, value.text = text (.char c) ↔
        value = .char c ∨ ∃ typeName, value = .object typeName (some (text (.char c))) := by
  constructor
  · intro string
    exact ⟨quotedBy_quoted (.inl rfl) _, fun value => text_eq_string_iff value string⟩
  · intro c
    exact ⟨quotedBy_quoted (.inr rfl) _, fun value => text_eq_char_iff value c⟩

/-- A string with a line break, quotes of both kinds, a backslash and a control character. -/
example : text (.string "a\n\"b'\\\x01") = "\"a\\n\\\"b'\\\\\\u0001\"" := by
  decide +kernel

end CallCapture.Argument
