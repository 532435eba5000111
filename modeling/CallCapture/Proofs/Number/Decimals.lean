import CallCapture.Number.Decimal
import CallCapture.Proofs.Number.Represented

/-!
Decimals read as doubles: the number that a decimal stands for is rounded, unless it is so large or so
small that its digits do not matter.
-/

namespace CallCapture

/-- The number `digits * 10 ^ exponent`. -/
def Decimal.value (decimal : Decimal) : ℚ :=
  decimal.digits * (10 : ℚ) ^ decimal.exponent

theorem ten_zpow_pos (exponent : Int) : (0 : ℚ) < (10 : ℚ) ^ exponent :=
  zpow_pos (by norm_num) exponent

/-- Digits that follow multiply a number and may add to it. -/
theorem ofDigits_append_le (before after : List Char) :
    ofDigits before * 10 ^ after.length ≤ ofDigits (before ++ after) := by
  have split : ofDigits (before ++ after) =
      after.foldl (fun number digit => 10 * number + (digit.toNat - '0'.toNat)) (ofDigits before) :=
    List.foldl_append
  rw [split]
  generalize ofDigits before = number
  clear split
  induction after generalizing number with
  | nil =>
      rw [List.length_nil, Nat.pow_zero, Nat.mul_one]
      exact Nat.le_refl number
  | cons digit after ih =>
      rw [List.length_cons, Nat.pow_succ', ← Nat.mul_assoc, List.foldl_cons]
      apply Nat.le_trans _ (ih _)
      apply Nat.mul_le_mul_right
      rw [Nat.mul_comm]
      exact Nat.le_add_right _ _

namespace BinaryFormat

variable {significand : Nat} {exponent : Int}

/-! ### The length of a number -/

theorem lt_ten_pow_decimalLength (number : Nat) : number < 10 ^ decimalLength number := by
  unfold decimalLength
  split
  case isTrue zero =>
    subst zero
    decide
  case isFalse =>
    exact (Nat.length_toDigits_le_iff (by decide) Nat.length_toDigits_pos).mp le_rfl

theorem ten_pow_le_of_decimalLength {number : Nat} (positive : 0 < number) :
    10 ^ (decimalLength number - 1) ≤ number := by
  unfold decimalLength
  rw [if_neg (by omega)]
  by_cases single : (Nat.toDigits 10 number).length ≤ 1
  · rw [Nat.sub_eq_zero_of_le single]
    exact positive
  · apply Nat.le_of_not_lt
    rw [← Nat.length_toDigits_le_iff (by decide) (by omega)]
    omega

theorem value_lt (decimal : Decimal) :
    decimal.value < 10 ^ (decimal.exponent + decimalLength decimal.digits) := by
  have upper : (decimal.digits : ℚ) < 10 ^ decimalLength decimal.digits := by
    exact_mod_cast lt_ten_pow_decimalLength decimal.digits
  rw [zpow_add₀ (by norm_num), zpow_natCast, mul_comm]
  exact mul_lt_mul_of_pos_right upper (ten_zpow_pos _)

theorem le_value {decimal : Decimal} (positive : 0 < decimal.digits) :
    (10 : ℚ) ^ (decimal.exponent + (decimalLength decimal.digits - 1 : Nat)) ≤ decimal.value := by
  have lower : (10 : ℚ) ^ (decimalLength decimal.digits - 1) ≤ decimal.digits := by
    exact_mod_cast ten_pow_le_of_decimalLength positive
  rw [zpow_add₀ (by norm_num), zpow_natCast, mul_comm]
  exact mul_le_mul_of_nonneg_right lower (ten_zpow_pos _).le

/-- A decimal that is not tiny is read as infinite if it is huge, and else by rounding its value. -/
theorem ofDecimal_cases (format : BinaryFormat) {decimal : Decimal} (positive : 0 < decimal.digits)
    (low : (10 : ℚ) ^ (-400 : Int) ≤ decimal.value) :
    (400 < decimal.exponent + decimalLength decimal.digits ∧
      format.ofDecimal decimal.digits decimal.exponent = .infinite) ∨
    ∃ num den, 0 < num ∧ 0 < den ∧ quotient num den = decimal.value ∧
      format.ofDecimal decimal.digits decimal.exponent = format.round num den := by
  have notTiny : -400 < decimal.exponent + decimalLength decimal.digits :=
    (zpow_lt_zpow_iff_right₀ (by norm_num : (1 : ℚ) < 10)).mp (low.trans_lt (value_lt decimal))
  obtain ⟨digits, exponent⟩ := decimal
  have digitsPos : 0 < digits := positive
  unfold ofDecimal
  dsimp only at notTiny ⊢
  rw [if_neg (by omega)]
  by_cases huge : 400 < exponent + (decimalLength digits : Int)
  · exact .inl ⟨huge, if_pos huge⟩
  rw [if_neg huge]
  right
  by_cases whole : 0 ≤ exponent
  · obtain ⟨count, rfl⟩ := Int.eq_ofNat_of_zero_le whole
    rw [if_pos whole]
    refine ⟨_, _, Nat.mul_pos positive (Nat.pow_pos (by decide)), Nat.one_pos, ?_, rfl⟩
    simp only [quotient, Decimal.value, Int.toNat_natCast, Nat.cast_mul, Nat.cast_pow,
      Nat.cast_ofNat, Nat.cast_one, div_one, zpow_natCast]
  · obtain ⟨count, opposite⟩ := Int.eq_ofNat_of_zero_le (by omega : 0 ≤ -exponent)
    have same : exponent = -(count : Int) := by omega
    subst same
    rw [if_neg whole]
    refine ⟨_, _, positive, Nat.pow_pos (by decide), ?_, rfl⟩
    simp only [quotient, Decimal.value, neg_neg, Int.toNat_natCast, Nat.cast_pow,
      Nat.cast_ofNat, zpow_neg, zpow_natCast, div_eq_mul_inv]

/-- A decimal in the middle of the range is read by rounding its value. -/
theorem ofDecimal_eq (format : BinaryFormat) {decimal : Decimal} (positive : 0 < decimal.digits)
    (low : (10 : ℚ) ^ (-400 : Int) ≤ decimal.value) (high : decimal.value < 10 ^ (400 : Int)) :
    ∃ num den, 0 < num ∧ 0 < den ∧ quotient num den = decimal.value ∧
      format.ofDecimal decimal.digits decimal.exponent = format.round num den := by
  rcases ofDecimal_cases format positive low with ⟨huge, _⟩ | rounds
  · have notHuge : decimal.exponent + (decimalLength decimal.digits - 1 : Nat) < 400 :=
      (zpow_lt_zpow_iff_right₀ (by norm_num : (1 : ℚ) < 10)).mp ((le_value positive).trans_lt high)
    omega
  · exact rounds

theorem decimalLength_pos {number : Nat} (positive : 0 < number) : 0 < decimalLength number := by
  unfold decimalLength
  rw [if_neg (by omega)]
  exact Nat.length_toDigits_pos

/-! ### The range of doubles -/

/-- Sixteen bits hold less than five decimal digits. -/
theorem two_pow_le_ten_pow (count : Nat) : (2 : ℚ) ^ (16 * count) ≤ 10 ^ (5 * count) := by
  rw [pow_mul, pow_mul]
  exact pow_le_pow_left₀ (by norm_num) (by norm_num) count

theorem ten_zpow_le_half_bit (canonical : double.Canonical significand exponent) :
    (10 : ℚ) ^ (-400 : Int) ≤ 2 ^ exponent / 2 := by
  have least : (2 : ℚ) ^ (-1075 : Int) ≤ 2 ^ (exponent - 1) := by
    apply zpow_le_zpow_right₀ (by norm_num)
    have bottom : -1074 ≤ exponent := canonical.least
    omega
  have half : (2 : ℚ) ^ exponent / 2 = 2 ^ (exponent - 1) := by
    rw [zpow_sub_one₀ (by norm_num), div_eq_mul_inv]
  have powers : (2 : ℚ) ^ 1075 ≤ 10 ^ (5 * 80) :=
    (pow_le_pow_right₀ (by norm_num) (by decide : 1075 ≤ 16 * 80)).trans (two_pow_le_ten_pow 80)
  rw [half]
  apply le_trans _ least
  rw [zpow_neg, zpow_neg]
  exact inv_anti₀ (by positivity) powers

theorem two_zpow_top_lt (canonical : double.Canonical significand exponent) :
    (2 : ℚ) ^ (exponent + double.precision) < 10 ^ (400 : Int) := by
  have greatest : (2 : ℚ) ^ (exponent + double.precision) ≤ 2 ^ (16 * 64) := by
    rw [← zpow_natCast]
    apply zpow_le_zpow_right₀ (by norm_num)
    have top : exponent ≤ 971 := canonical.greatest
    have bits : double.precision = 53 := rfl
    omega
  apply (greatest.trans (two_pow_le_ten_pow 64)).trans_lt
  exact pow_lt_pow_right₀ (by norm_num) (by decide : 5 * 64 < 400)

/-- A decimal is read as the double that attracts it. -/
theorem ofDecimal_of_attracts {decimal : Decimal} (canonical : double.Canonical significand exponent)
    (attracts : double.Attracts significand exponent decimal.value) :
    decimal.toDouble = .finite significand exponent := by
  have low := attracts.half_bit_le canonical
  have high := attracts.below canonical
  have positive : 0 < decimal.digits := by
    have valuePos := (half_pos (two_zpow_pos exponent)).trans_le low
    have digitsPos := pos_of_mul_pos_left valuePos (ten_zpow_pos _).le
    exact_mod_cast digitsPos
  obtain ⟨num, den, numPos, denPos, same, reads⟩ := ofDecimal_eq double positive
    ((ten_zpow_le_half_bit canonical).trans low) (high.trans (two_zpow_top_lt canonical))
  rw [← same] at attracts
  rw [Decimal.toDouble, reads]
  exact round_of_attracts (by decide) numPos denPos canonical attracts

/-- A decimal of at least a whole number is not read as a double below that number. -/
theorem not_isBelow_toDouble {decimal : Decimal} {bound : Nat} (positive : 0 < bound)
    (narrow : bound ≤ 2 ^ 52) (reached : (bound : ℚ) ≤ decimal.value) :
    decimal.toDouble.isBelow bound ≠ true := by
  have one : (1 : ℚ) ≤ decimal.value := le_trans (by exact_mod_cast positive) reached
  have low : (10 : ℚ) ^ (-400 : Int) ≤ decimal.value :=
    (zpow_le_one_of_nonpos₀ (by norm_num) (by decide)).trans one
  have digitsPos : 0 < decimal.digits := by
    have valuePos := pos_of_mul_pos_left (zero_lt_one.trans_le one) (ten_zpow_pos _).le
    exact_mod_cast valuePos
  unfold Decimal.toDouble
  rcases ofDecimal_cases double digitsPos low with
    ⟨_, infinite⟩ | ⟨num, den, numPos, denPos, same, rounds⟩
  · rw [infinite]
    exact Bool.false_ne_true
  · have normal : (2 : ℚ) ^ (double.minExponent + (double.precision - 1 : Nat)) ≤ decimal.value :=
      (zpow_le_one_of_nonpos₀ (by norm_num) (by decide)).trans one
    rw [← same] at normal reached
    rw [rounds]
    exact not_isBelow_round (by decide) numPos denPos normal narrow reached

end BinaryFormat

end CallCapture
