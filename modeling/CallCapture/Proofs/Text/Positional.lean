import CallCapture.Number.Decimal
import CallCapture.Proofs.Text.Numeral

/-!
Decimals written with all digits in their places, and read back.
-/

namespace CallCapture

theorem ofDigits_toDigits (number : Nat) : ofDigits (Nat.toDigits 10 number) = number :=
  Nat.ofDigitChars_ten_toDigits

theorem ofDigits_leftpad (width : Nat) (digits : List Char) :
    ofDigits (digits.leftpad width '0') = ofDigits digits := by
  unfold List.leftpad
  generalize width - digits.length = zeros
  induction zeros with
  | zero => rfl
  | succ zeros ih => exact ih

namespace Decimal

theorem isDigit_of_mem_leftpad {width number : Nat} {digit : Char}
    (written : digit ∈ (Nat.toDigits 10 number).leftpad width '0') : digit.isDigit = true := by
  rw [List.leftpad, List.mem_append, List.mem_replicate] at written
  obtain ⟨_, rfl⟩ | written := written
  · rfl
  · exact Text.isDigit_of_mem_decimal written

theorem isPoint_of_isDigit {digit : Char} (decimal : digit.isDigit = true) :
    (digit == '.') = false :=
  beq_eq_false_iff_ne.mpr (Text.ne_of_isDigit decimal rfl)

theorem ofPlain?_digits {digits : List Char} (nonempty : digits ≠ [])
    (decimal : ∀ digit ∈ digits, digit.isDigit = true) :
    ofPlain? digits = some ⟨ofDigits digits, 0⟩ := by
  have unmarked := Text.cut_of_forall fun digit written => isPoint_of_isDigit (decimal digit written)
  have filled : digits.isEmpty = false := List.isEmpty_eq_false_iff.mpr nonempty
  have all : digits.all Char.isDigit = true := List.all_eq_true.mpr decimal
  unfold ofPlain?
  simp only [unmarked, filled, all, Bool.not_true, Bool.or_self, Bool.false_eq_true, if_false]

theorem ofPlain?_point {whole fraction : List Char} (nonempty : whole ++ fraction ≠ [])
    (decimal : ∀ digit ∈ whole ++ fraction, digit.isDigit = true) :
    ofPlain? (whole ++ '.' :: fraction) =
      some ⟨ofDigits (whole ++ fraction), -(fraction.length : Int)⟩ := by
  have unmarked : ∀ digit ∈ whole, (digit == '.') = false := fun digit written =>
    isPoint_of_isDigit (decimal digit (List.mem_append_left _ written))
  have marked := Text.cut_append unmarked (beq_self_eq_true '.') fraction
  have filled : (whole ++ fraction).isEmpty = false := List.isEmpty_eq_false_iff.mpr nonempty
  have all : (whole ++ fraction).all Char.isDigit = true := List.all_eq_true.mpr decimal
  unfold ofPlain?
  simp only [marked, filled, all, Bool.not_true, Bool.or_self, Bool.false_eq_true, if_false]

theorem ofPlain?_natural (number : Nat) :
    ofPlain? (Nat.toDigits 10 number) = some ⟨number, 0⟩ := by
  have decimal : ∀ digit ∈ Nat.toDigits 10 number, digit.isDigit = true :=
    fun _ => Text.isDigit_of_mem_decimal
  rw [ofPlain?_digits Nat.toDigits_ne_nil decimal, ofDigits_toDigits]

/-- A number without a power of ten, or with places after the point. -/
def placed (decimal : Decimal) : Decimal :=
  if 0 ≤ decimal.exponent then ⟨decimal.digits * Nat.pow 10 decimal.exponent.toNat, 0⟩ else decimal

theorem mem_positional {decimal : Decimal} {c : Char} (written : c ∈ decimal.positional.toList) :
    c.isDigit = true ∨ c = '.' := by
  unfold positional at written
  split at written
  · rw [Nat.toString_eq_repr, Nat.toList_repr] at written
    exact .inl (Text.isDigit_of_mem_decimal written)
  · rw [String.toList_ofList, List.mem_append, List.mem_cons] at written
    obtain whole | rfl | fraction := written
    · exact .inl (isDigit_of_mem_leftpad (List.mem_of_mem_take whole))
    · exact .inr rfl
    · exact .inl (isDigit_of_mem_leftpad (List.mem_of_mem_drop fraction))

theorem ofPlain?_positional (decimal : Decimal) :
    ofPlain? decimal.positional.toList = some decimal.placed := by
  unfold positional placed
  split
  case isTrue whole =>
    rw [Nat.toString_eq_repr, Nat.toList_repr]
    exact ofPlain?_natural _
  case isFalse fractional =>
    generalize placesEq : (-decimal.exponent).toNat = places
    have opposite : decimal.exponent = -(places : Int) := by omega
    dsimp only
    generalize split : (Nat.toDigits 10 decimal.digits).leftpad (places + 1) '0' = digits
    have length : places < digits.length := by
      rw [← split, List.length_leftpad]
      omega
    have decimalDigits : ∀ digit ∈ digits, digit.isDigit = true := by
      rw [← split]
      exact fun _ => isDigit_of_mem_leftpad
    have value : ofDigits digits = decimal.digits := by
      rw [← split, ofDigits_leftpad, ofDigits_toDigits]
    have fraction : (digits.drop (digits.length - places)).length = places := by
      rw [List.length_drop]
      omega
    rw [String.toList_ofList, ofPlain?_point, List.take_append_drop, value, fraction, ← opposite]
    · rw [List.take_append_drop]
      exact List.ne_nil_of_length_pos (by omega)
    · rwa [List.take_append_drop]

end Decimal

end CallCapture
