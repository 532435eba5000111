import CallCapture.Json.Printing
import CallCapture.Json.Token
import CallCapture.Proofs.Text.Encoding
import CallCapture.Proofs.Text.Hexadecimal
import CallCapture.Proofs.Text.Numeral

/-!
Printed trees as tokens. A tree is legible if what it prints stands for it; the scanner reads the
printed characters of such a tree as its tokens.
-/

namespace CallCapture

namespace JsonTree

/-- Every string has a value, and every number is a whole number. -/
inductive Legible : JsonTree → Prop where
  | null : Legible .null
  | bool (value : Bool) : Legible (.bool value)
  | natural (value : Nat) : Legible (.natural value)
  | text (value : String) : Legible (.text value)
  | array {items : List JsonTree} : (∀ item ∈ items, Legible item) → Legible (.array items)
  | object {fields : List (Option String × JsonTree)} : (∀ field ∈ fields, field.1.isSome) →
      (∀ field ∈ fields, Legible field.2) → Legible (.object fields)

mutual

/-- The tokens of the printed tree. -/
def tokens : JsonTree → List JsonToken
  | .null => [.null]
  | .bool value => [.bool value]
  | .number value => [.number value]
  | .string value => [.string value]
  | .array [] => [.beginArray, .endArray]
  | .array (item :: items) => .beginArray :: (tokens item ++ (itemTokens items ++ [.endArray]))
  | .object [] => [.beginObject, .endObject]
  | .object ((key, value) :: fields) =>
      .beginObject :: .string key :: .colon :: (tokens value ++ (fieldTokens fields ++ [.endObject]))

/-- Each further item after a comma. -/
def itemTokens : List JsonTree → List JsonToken
  | [] => []
  | item :: items => .comma :: (tokens item ++ itemTokens items)

/-- Each further field after a comma. -/
def fieldTokens : List (Option String × JsonTree) → List JsonToken
  | [] => []
  | (key, value) :: fields =>
      .comma :: .string key :: .colon :: (tokens value ++ fieldTokens fields)

end

end JsonTree

namespace JsonToken

/-- Text that is read as tokens, the last of which may still wait for its end. -/
def Writes (text : List Char) (tokens : List JsonToken) : Prop :=
  ∀ read, ∃ scan, (text.map some).foldlM Scan.step ⟨read, .between⟩ = some scan ∧
    scan.settle = some ⟨tokens.reverse ++ read, .between⟩

theorem punctuation_ends {mark : Char} {token : JsonToken}
    (punctuation : punctuation? mark = some token) :
    mark.isAlpha = false ∧ isNumeral mark = false ∧ ∀ scan : Scan,
      scan.begin (some mark) = some (scan.push token) := by
  unfold punctuation? at punctuation
  split at punctuation <;> first
    | contradiction
    | cases punctuation
      exact ⟨rfl, rfl, fun _ => rfl⟩

/-- Punctuation ends what is in front of it. -/
theorem Scan.step_punctuation {scan : Scan} {read : List JsonToken} {mark : Char}
    {token : JsonToken} (settled : scan.settle = some ⟨read, .between⟩)
    (punctuation : punctuation? mark = some token) :
    scan.step (some mark) = some ⟨token :: read, .between⟩ := by
  obtain ⟨alpha, numeral, begins⟩ := punctuation_ends punctuation
  obtain ⟨before, mode⟩ := scan
  cases mode with
  | between =>
      cases settled
      exact begins ⟨read, .between⟩
  | word chars =>
      simp only [step, alpha, Bool.false_eq_true, if_false, settled, Option.bind_some]
      exact begins ⟨read, .between⟩
  | numeral chars =>
      simp only [step, numeral, Bool.false_eq_true, if_false, settled, Option.bind_some]
      exact begins ⟨read, .between⟩
  | inString pieces => cases settled
  | escape pieces => cases settled
  | hex pieces digits => cases settled

namespace Writes

variable {text rest : List Char} {tokens more : List JsonToken}

theorem nil : Writes [] [] :=
  fun read => ⟨⟨read, .between⟩, rfl, rfl⟩

theorem punctuated {mark : Char} {token : JsonToken} (first : Writes text tokens)
    (punctuation : punctuation? mark = some token) (last : Writes rest more) :
    Writes (text ++ mark :: rest) (tokens ++ token :: more) := by
  intro read
  obtain ⟨middle, scanned, settled⟩ := first read
  obtain ⟨scan, scannedRest, settledRest⟩ := last (token :: (tokens.reverse ++ read))
  refine ⟨scan, ?_, ?_⟩
  · rw [List.map_append, List.foldlM_append, scanned, List.map_cons]
    simp only [bind, Option.bind, List.foldlM_cons, Scan.step_punctuation settled punctuation]
    exact scannedRest
  · rw [settledRest]
    simp only [List.reverse_append, List.reverse_cons, List.append_assoc, List.cons_append,
      List.nil_append]

theorem mark {mark : Char} {token : JsonToken} (punctuation : punctuation? mark = some token)
    (last : Writes rest more) : Writes (mark :: rest) (token :: more) :=
  nil.punctuated punctuation last

/-- A text that ends here has just its tokens. -/
theorem scan_eq (writes : Writes text tokens) : scan (text.map some) = some tokens := by
  obtain ⟨last, scanned, settled⟩ := writes []
  have finished : last.finish = some tokens := by
    simp only [Scan.finish, settled, bind, Option.bind_some, List.append_nil, List.reverse_reverse]
  rw [scan, Scan.start, scanned, Option.bind_some, finished]

end Writes

/-- The digits of a whole number are read as that number. -/
theorem ofChars?_decimal (number : Nat) :
    JsonNumber.ofChars? (Nat.toDigits 10 number) = some (.ofNat number) := by
  have digits : ∀ digit ∈ Nat.toDigits 10 number, digit.isDigit = true :=
    fun _ written => Text.isDigit_of_mem_decimal written
  have distinct : ∀ mark : Char, mark.isDigit = false →
      ∀ digit ∈ Nat.toDigits 10 number, (digit == mark) = false := by
    intro mark other digit written
    exact beq_false_of_ne (Text.ne_of_isDigit (digits digit written) other)
  have noPower : Text.cut (fun c => c == 'e' || c == 'E') (Nat.toDigits 10 number) =
      (Nat.toDigits 10 number, none) := by
    apply Text.cut_of_forall
    intro digit written
    rw [distinct 'e' rfl digit written, distinct 'E' rfl digit written]
    rfl
  have noFraction : Text.cut (· == '.') (Nat.toDigits 10 number) =
      (Nat.toDigits 10 number, none) :=
    Text.cut_of_forall (distinct '.' rfl)
  have whole : JsonNumber.wholeOf (Nat.toDigits 10 number) = some (Nat.toDigits 10 number) := by
    have nonempty : (Nat.toDigits 10 number).isEmpty = false := by
      simp [Nat.toDigits_ne_nil]
    have all : (Nat.toDigits 10 number).all Char.isDigit = true := List.all_eq_true.mpr digits
    have single : ((Nat.toDigits 10 number).head? == some '0' &&
        (Nat.toDigits 10 number).length != 1) = false := by
      by_cases leading : (Nat.toDigits 10 number).head? = some '0'
      · rw [Text.eq_zero_of_leading_zero leading]
        rfl
      · simp [leading]
    simp only [JsonNumber.wholeOf, JsonNumber.digitsOf, nonempty, all, single, bind,
      Option.bind_some, Bool.not_true, Bool.or_self, Bool.false_eq_true, if_false]
  have unsigned : ((Nat.toDigits 10 number).head? == some '-') = false := by
    apply beq_false_of_ne
    intro signed
    exact absurd (digits _ (List.mem_of_mem_head? signed)) (by decide)
  simp only [JsonNumber.ofChars?, unsigned, Bool.false_eq_true, if_false, noPower, noFraction, whole,
    bind, Option.bind_some]
  rfl

theorem Scan.read_digits {digits : List Char} (read : List JsonToken) (before : List Char)
    (decimal : ∀ digit ∈ digits, digit.isDigit = true) :
    (digits.map some).foldlM step ⟨read, .numeral before⟩ =
      some ⟨read, .numeral (digits.reverse ++ before)⟩ := by
  induction digits generalizing before with
  | nil => rfl
  | cons digit rest ih =>
      obtain ⟨first, others⟩ := List.forall_mem_cons.mp decimal
      have continues : step ⟨read, .numeral before⟩ (some digit) =
          some ⟨read, .numeral (digit :: before)⟩ := by
        simp only [step, isNumeral, first, Bool.true_or, if_true]
      simp only [List.map_cons, List.foldlM_cons, continues, bind, Option.bind_some]
      rw [ih (digit :: before) others, List.reverse_cons, List.append_assoc]
      rfl

theorem writes_natural (number : Nat) :
    Writes (Nat.toDigits 10 number) [.number (.ofNat number)] := by
  intro read
  have decimal : ∀ digit ∈ Nat.toDigits 10 number, digit.isDigit = true :=
    fun _ written => Text.isDigit_of_mem_decimal written
  have value := ofChars?_decimal number
  have nonempty : Nat.toDigits 10 number ≠ [] := Nat.toDigits_ne_nil
  cases split : Nat.toDigits 10 number with
  | nil => contradiction
  | cons first rest =>
      rw [split] at decimal value
      obtain ⟨firstDecimal, restDecimal⟩ := List.forall_mem_cons.mp decimal
      have begins : Scan.step ⟨read, .between⟩ (some first) = some ⟨read, .numeral [first]⟩ := by
        have distinct : ∀ mark : Char, mark.isDigit = false → first ≠ mark :=
          fun _ other => Text.ne_of_isDigit firstDecimal other
        have visible : isBlank first = false := by
          simp [isBlank, distinct ' ' rfl, distinct '\t' rfl, distinct '\n' rfl, distinct '\r' rfl]
        have unquoted : first ≠ '"' := distinct '"' rfl
        simp only [Scan.step, Scan.begin, visible, unquoted, firstDecimal, Bool.false_eq_true,
          if_false, or_true, if_true]
      refine ⟨⟨read, .numeral (rest.reverse ++ [first])⟩, ?_, ?_⟩
      · simp only [List.map_cons, List.foldlM_cons, begins, bind, Option.bind_some]
        exact Scan.read_digits read [first] restDecimal
      · simp only [Scan.settle, List.reverse_append, List.reverse_reverse, List.reverse_singleton,
          value, Option.map_some, Scan.push, List.cons_append, List.nil_append]

/-- Four digits after the mark are one code unit. -/
theorem Scan.read_hex {digits : List Char} (read : List JsonToken) (pieces : List StringPiece)
    (four : digits.length = 4) (hex : ∀ digit ∈ digits, (hexValue? digit).isSome = true) :
    (digits.map some).foldlM step ⟨read, .hex pieces []⟩ =
      some ⟨read, .inString (.unit (hexNumber digits) :: pieces)⟩ := by
  obtain ⟨first, second, third, fourth, same⟩ : ∃ a b c d, digits = [a, b, c, d] := by
    match digits, four with
    | [a, b, c, d], _ => exact ⟨a, b, c, d, rfl⟩
  subst same
  simp only [List.forall_mem_cons, Option.isSome_iff_exists] at hex
  obtain ⟨⟨_, firstHex⟩, ⟨_, secondHex⟩, ⟨_, thirdHex⟩, ⟨_, fourthHex⟩, _⟩ := hex
  simp [step, continueHex, firstHex, secondHex, thirdHex, fourthHex]

/-- A control character by its number is never half of a pair. -/
theorem decode_control {c : Char} (control : c.toNat < 0x20) (rest : List StringPiece) :
    StringPiece.decode (.unit c.toNat :: rest) = (StringPiece.decode rest).map (c :: ·) := by
  have lead : StringPiece.isLead c.toNat = false := by
    simp only [StringPiece.isLead, Bool.and_eq_false_iff, decide_eq_false_iff_not]
    omega
  have trail : StringPiece.isTrail c.toNat = false := by
    simp only [StringPiece.isTrail, Bool.and_eq_false_iff, decide_eq_false_iff_not]
    omega
  cases rest with
  | nil => simp [StringPiece.decode, lead, trail]
  | cons next others =>
      cases next with
      | plain symbol => simp [StringPiece.decode, lead, trail]
      | unit code => simp [StringPiece.decode, lead, trail]

/-- The escaped form of a character is one piece of a string, and stands for the character. -/
theorem Scan.read_escape (read : List JsonToken) (pieces : List StringPiece) (c : Char) :
    ∃ piece, ((JsonTree.escape c).map some).foldlM step ⟨read, .inString pieces⟩ =
        some ⟨read, .inString (piece :: pieces)⟩ ∧
      ∀ rest, StringPiece.decode (piece :: rest) = (StringPiece.decode rest).map (c :: ·) := by
  have plain : ∀ rest, StringPiece.decode (.plain (some c) :: rest) =
      (StringPiece.decode rest).map (c :: ·) := fun _ => rfl
  have unquoted : c ≠ '"' → c ≠ '\\' → 0x20 ≤ c.toNat →
      step ⟨read, .inString pieces⟩ (some c) = some ⟨read, .inString (.plain c :: pieces)⟩ := by
    intro quote backslash visible
    simp only [step, continueString, quote, backslash, Nat.not_lt.mpr visible, if_false]
  unfold JsonTree.escape
  repeat' split
  case isFalse.isFalse.isFalse.isFalse.isFalse.isFalse.isFalse.isTrue control =>
    have narrow : c.toNat < 0x100 := Nat.lt_trans control (by decide)
    obtain ⟨four, hex, value⟩ := hexPadded_code narrow
    refine ⟨.unit c.toNat, ?_, decode_control control⟩
    have unit := read_hex read pieces four hex
    rw [value] at unit
    exact unit
  case isFalse.isFalse.isFalse.isFalse.isFalse.isFalse.isFalse.isFalse quote backslash _ _ _ _ _
      visible =>
    have single := unquoted quote backslash (Nat.le_of_not_lt visible)
    refine ⟨.plain c, ?_, plain⟩
    simp only [List.map_cons, List.map_nil, List.foldlM_cons, single, bind, Option.bind_some]
    rfl
  all_goals
    subst_vars
    exact ⟨_, rfl, plain⟩

theorem Scan.read_escapes (read : List JsonToken) (pieces : List StringPiece) (text : List Char) :
    ∃ spelled, ((text.flatMap JsonTree.escape).map some).foldlM step ⟨read, .inString pieces⟩ =
        some ⟨read, .inString (spelled.reverse ++ pieces)⟩ ∧
      StringPiece.decode spelled = some text := by
  induction text generalizing pieces with
  | nil => exact ⟨[], rfl, rfl⟩
  | cons c rest ih =>
      obtain ⟨piece, escaped, decodes⟩ := read_escape read pieces c
      obtain ⟨spelled, escapedRest, decoded⟩ := ih (piece :: pieces)
      refine ⟨piece :: spelled, ?_, ?_⟩
      · simp only [List.flatMap_cons, List.map_append, List.foldlM_append, escaped, bind,
          Option.bind_some, escapedRest, List.reverse_cons, List.append_assoc,
          List.cons_append, List.nil_append]
      · rw [decodes, decoded]
        rfl

theorem writes_text (text : String) :
    Writes (JsonTree.quoteOption (some text)) [.string (some text)] := by
  intro read
  obtain ⟨spelled, escaped, decoded⟩ := Scan.read_escapes read [] text.toList
  have value : (StringPiece.decode (spelled.reverse ++ []).reverse).map String.ofList =
      some text := by
    simp only [List.append_nil, List.reverse_reverse, decoded, Option.map_some, String.ofList_toList]
  have opened : Scan.step ⟨read, .between⟩ (some '"') = some ⟨read, .inString []⟩ := rfl
  have closed : Scan.step ⟨read, .inString (spelled.reverse ++ [])⟩ (some '"') =
      some ⟨.string (some text) :: read, .between⟩ := by
    rw [← value]
    rfl
  refine ⟨⟨.string (some text) :: read, .between⟩, ?_, rfl⟩
  simp only [JsonTree.quoteOption, JsonTree.quote, Option.map_some, Option.getD_some, List.map_cons,
    List.map_append, List.map_nil, List.foldlM_cons, List.foldlM_append, List.foldlM_nil, opened,
    escaped, closed, bind, Option.bind_some]
  rfl

namespace Writes

theorem items {items : List JsonTree} {text : List Char} {tokens : List JsonToken}
    (each : ∀ item ∈ items, Writes item.chars item.tokens) (first : Writes text tokens) :
    Writes (text ++ (JsonTree.moreItems items ++ [']']))
      (tokens ++ (JsonTree.itemTokens items ++ [.endArray])) := by
  -- What stands in front may be a numeral, which only the mark after it ends.
  induction items generalizing text tokens with
  | nil => exact first.punctuated rfl nil
  | cons item rest ih =>
      obtain ⟨next, others⟩ := List.forall_mem_cons.mp each
      have tail := ih others next
      simp only [JsonTree.moreItems, JsonTree.itemTokens, List.cons_append, List.append_assoc]
      exact first.punctuated rfl tail

theorem fields {fields : List (Option String × JsonTree)} {text : List Char}
    {tokens : List JsonToken}
    (keys : ∀ field ∈ fields, Writes (JsonTree.quoteOption field.1) [.string field.1])
    (values : ∀ field ∈ fields, Writes field.2.chars field.2.tokens) (first : Writes text tokens) :
    Writes (text ++ (JsonTree.moreFields fields ++ ['\x7d']))
      (tokens ++ (JsonTree.fieldTokens fields ++ [.endObject])) := by
  induction fields generalizing text tokens with
  | nil => exact first.punctuated rfl nil
  | cons field rest ih =>
      obtain ⟨key, otherKeys⟩ := List.forall_mem_cons.mp keys
      obtain ⟨value, otherValues⟩ := List.forall_mem_cons.mp values
      have colon : punctuation? ':' = some .colon := rfl
      have tail := key.punctuated colon (ih otherKeys otherValues value)
      simp only [JsonTree.moreFields, JsonTree.fieldTokens, List.cons_append, List.append_assoc]
      exact first.punctuated rfl tail

end Writes

end JsonToken

namespace JsonTree

open JsonToken

/-- A legible tree prints its tokens. -/
theorem Legible.writes {tree : JsonTree} (legible : tree.Legible) : Writes tree.chars tree.tokens := by
  induction legible with
  | null => exact fun read => ⟨⟨read, .word "null".toList.reverse⟩, rfl, rfl⟩
  | bool value =>
      cases value with
      | true => exact fun read => ⟨⟨read, .word "true".toList.reverse⟩, rfl, rfl⟩
      | false => exact fun read => ⟨⟨read, .word "false".toList.reverse⟩, rfl, rfl⟩
  | natural value => exact writes_natural value
  | text value => exact writes_text value
  | @array items legible ih =>
      cases items with
      | nil => exact (Writes.nil.punctuated rfl .nil).mark rfl
      | cons item rest =>
          obtain ⟨first, others⟩ := List.forall_mem_cons.mp ih
          exact (first.items others).mark rfl
  | @object fields named legible ih =>
      have keys : ∀ field ∈ fields, Writes (quoteOption field.1) [.string field.1] := by
        intro field member
        obtain ⟨name, same⟩ := Option.isSome_iff_exists.mp (named field member)
        rw [same]
        exact writes_text name
      cases fields with
      | nil => exact (Writes.nil.punctuated rfl .nil).mark rfl
      | cons field rest =>
          obtain ⟨key, otherKeys⟩ := List.forall_mem_cons.mp keys
          obtain ⟨value, otherValues⟩ := List.forall_mem_cons.mp ih
          have colon : punctuation? ':' = some .colon := rfl
          have members := key.punctuated colon (value.fields otherKeys otherValues)
          exact members.mark rfl

/-- Printing a legible tree and scanning the text gives its tokens back. -/
theorem scan_print {tree : JsonTree} (legible : tree.Legible) :
    scan (tree.print.toList.map some) = some tree.tokens := by
  rw [print, String.toList_ofList]
  exact legible.writes.scan_eq

theorem scanBytes_print {tree : JsonTree} (legible : tree.Legible) :
    scanBytes (Utf8.encode tree.print) = some tree.tokens := by
  rw [scanBytes, print, Utf8.foldM?_encode]
  exact legible.writes.scan_eq

end JsonTree

end CallCapture
