import CallCapture.Number.Binary
import Mathlib.Algebra.Order.Field.Rat
import Mathlib.Algebra.Order.Field.Power
import Mathlib.Tactic.FieldSimp
import Mathlib.Tactic.Linarith
import Mathlib.Tactic.NormNum
import Mathlib.Tactic.Positivity
import Mathlib.Tactic.Ring

/-!
Rounding to a binary format, in rational numbers: which value a number rounds to, and how far off
that is.
-/

namespace CallCapture

/-- The number `significand * 2 ^ exponent`. -/
def binary (significand : Nat) (exponent : Int) : ℚ :=
  significand * (2 : ℚ) ^ exponent

/-- The fraction `num / den`. -/
def quotient (num den : Nat) : ℚ :=
  (num : ℚ) / den

theorem two_zpow_pos (exponent : Int) : (0 : ℚ) < (2 : ℚ) ^ exponent :=
  zpow_pos (by norm_num) exponent

theorem two_zpow_succ (exponent : Int) : (2 : ℚ) ^ (exponent + 1) = 2 * 2 ^ exponent := by
  rw [zpow_add₀ (by norm_num), zpow_one, mul_comm]

theorem quotient_le_quotient_iff {num den num' den' : Nat} (denPos : 0 < den) (denPos' : 0 < den') :
    quotient num den ≤ quotient num' den' ↔ num * den' ≤ num' * den := by
  rw [quotient, quotient, div_le_div_iff₀ (by exact_mod_cast denPos) (by exact_mod_cast denPos')]
  exact_mod_cast Iff.rfl

theorem quotient_lt_quotient_iff {num den num' den' : Nat} (denPos : 0 < den) (denPos' : 0 < den') :
    quotient num den < quotient num' den' ↔ num * den' < num' * den := by
  rw [quotient, quotient, div_lt_div_iff₀ (by exact_mod_cast denPos) (by exact_mod_cast denPos')]
  exact_mod_cast Iff.rfl

/-! ### Scaling -/

theorem scaleByTwo_pos {num den : Nat} (numPos : 0 < num) (denPos : 0 < den) (exponent : Int) :
    0 < (scaleByTwo num den exponent).1 ∧ 0 < (scaleByTwo num den exponent).2 := by
  unfold scaleByTwo
  split
  · exact ⟨Nat.mul_pos numPos (Nat.pow_pos (by decide)), denPos⟩
  · exact ⟨numPos, Nat.mul_pos denPos (Nat.pow_pos (by decide))⟩

theorem quotient_scaleByTwo (num den : Nat) (exponent : Int) :
    quotient (scaleByTwo num den exponent).1 (scaleByTwo num den exponent).2 =
      quotient num den * 2 ^ exponent := by
  unfold scaleByTwo quotient
  split
  case isTrue nonneg =>
    obtain ⟨count, rfl⟩ := Int.eq_ofNat_of_zero_le nonneg
    have power : ((Nat.pow 2 count : Nat) : ℚ) = 2 ^ count := by exact_mod_cast rfl
    simp only [Int.toNat_natCast, Nat.cast_mul, power, zpow_natCast]
    ring
  case isFalse negative =>
    obtain ⟨count, opposite⟩ := Int.eq_ofNat_of_zero_le (by omega : 0 ≤ -exponent)
    have same : exponent = -(count : Int) := by omega
    have power : ((Nat.pow 2 count : Nat) : ℚ) = 2 ^ count := by exact_mod_cast rfl
    subst same
    simp only [neg_neg, Int.toNat_natCast, Nat.cast_mul, power, zpow_neg, zpow_natCast]
    rw [div_mul_eq_div_div, div_eq_mul_inv (_ / _)]

/-! ### The exponent of a number -/

theorem two_zpow_sub (first second : Nat) :
    (2 : ℚ) ^ ((first : Int) - second) = 2 ^ first / 2 ^ second := by
  rw [zpow_sub₀ (by norm_num), zpow_natCast, zpow_natCast]

/-- Between the powers of two around the numerator and those around the denominator. -/
theorem quotient_log2 {num den : Nat} (numPos : 0 < num) (denPos : 0 < den) :
    (2 : ℚ) ^ ((num.log2 : Int) - den.log2 - 1) ≤ quotient num den ∧
      quotient num den < 2 ^ ((num.log2 : Int) - den.log2 + 1) := by
  have numLow : (2 : ℚ) ^ num.log2 ≤ num := by
    exact_mod_cast Nat.log2_self_le (by omega : num ≠ 0)
  have numHigh : (num : ℚ) < 2 ^ (num.log2 + 1) := by
    exact_mod_cast Nat.lt_log2_self
  have denLow : (2 : ℚ) ^ den.log2 ≤ den := by
    exact_mod_cast Nat.log2_self_le (by omega : den ≠ 0)
  have denHigh : (den : ℚ) < 2 ^ (den.log2 + 1) := by
    exact_mod_cast Nat.lt_log2_self
  have denQ : (0 : ℚ) < den := by exact_mod_cast denPos
  have lower : (num.log2 : Int) - den.log2 - 1 = (num.log2 : Int) - (den.log2 + 1 : Nat) := by
    push_cast
    omega
  have upper : (num.log2 : Int) - den.log2 + 1 = ((num.log2 + 1 : Nat) : Int) - den.log2 := by
    push_cast
    omega
  constructor
  · rw [lower, two_zpow_sub, quotient]
    exact div_le_div₀ (by positivity) numLow denQ denHigh.le
  · rw [upper, two_zpow_sub, quotient]
    exact div_lt_div₀ numHigh denLow (by positivity) (by positivity)

theorem one_le_quotient_iff {num den : Nat} (denPos : 0 < den) :
    1 ≤ quotient num den ↔ den ≤ num := by
  rw [quotient, one_le_div (by exact_mod_cast denPos), Nat.cast_le]

theorem floorLog2_spec {num den : Nat} (numPos : 0 < num) (denPos : 0 < den) :
    (2 : ℚ) ^ floorLog2 num den ≤ quotient num den ∧
      quotient num den < 2 ^ (floorLog2 num den + 1) := by
  obtain ⟨lower, upper⟩ := quotient_log2 numPos denPos
  unfold floorLog2
  generalize (num.log2 : Int) - den.log2 = guess at lower upper
  have scaled := quotient_scaleByTwo num den (-guess)
  have atLeast : 1 ≤ quotient (scaleByTwo num den (-guess)).1 (scaleByTwo num den (-guess)).2 ↔ _ :=
    one_le_quotient_iff (scaleByTwo_pos numPos denPos (-guess)).2
  rw [scaled, zpow_neg, ← div_eq_mul_inv, one_le_div (two_zpow_pos guess)] at atLeast
  dsimp only
  split
  case isTrue fits => exact ⟨atLeast.mpr fits, upper⟩
  case isFalse exceeds =>
    rw [Int.sub_add_cancel]
    exact ⟨lower, lt_of_not_ge fun reached => exceeds (atLeast.mp reached)⟩

/-! ### The nearest whole number -/

theorem roundHalfEven_near (num : Nat) {den : Nat} (denPos : 0 < den) :
    |(roundHalfEven num den : ℚ) - quotient num den| ≤ 1 / 2 := by
  have denQ : (0 : ℚ) < den := by exact_mod_cast denPos
  have split := Nat.div_add_mod num den
  have small := Nat.mod_lt num denPos
  have numQ : (num : ℚ) = den * (num / den : Nat) + (num % den : Nat) := by exact_mod_cast split.symm
  have rest : quotient num den = (num / den : Nat) + (num % den : Nat) / (den : ℚ) := by
    rw [quotient, numQ]
    field_simp
  rw [rest, abs_le]
  unfold roundHalfEven
  dsimp only
  split
  case isTrue up =>
    have half : (den : ℚ) ≤ 2 * (num % den : Nat) := by
      have enough : den ≤ 2 * (num % den) := by omega
      exact_mod_cast enough
    have bound : ((num % den : Nat) : ℚ) ≤ den := by exact_mod_cast small.le
    have lower : 1 / 2 ≤ ((num % den : Nat) : ℚ) / den := by
      rw [div_le_div_iff₀ (by norm_num) denQ]
      linarith
    have upper : ((num % den : Nat) : ℚ) / den ≤ 1 := (div_le_one denQ).mpr bound
    push_cast
    constructor <;> linarith
  case isFalse down =>
    have half : 2 * ((num % den : Nat) : ℚ) ≤ den := by
      have enough : 2 * (num % den) ≤ den := by omega
      exact_mod_cast enough
    have upper : ((num % den : Nat) : ℚ) / den ≤ 1 / 2 := by
      rw [div_le_div_iff₀ denQ (by norm_num)]
      linarith
    have lower : (0 : ℚ) ≤ ((num % den : Nat) : ℚ) / den := by positivity
    constructor <;> linarith

/-- A number in the middle between two goes to the even one. -/
theorem roundHalfEven_tie {num den : Nat} (tie : 2 * (num % den) = den) :
    roundHalfEven num den % 2 = 0 := by
  unfold roundHalfEven
  dsimp only
  split <;> omega

theorem tie_of_quotient {num den below : Nat} (denPos : 0 < den)
    (middle : quotient num den = below + 1 / 2) : 2 * (num % den) = den := by
  have denQ : (0 : ℚ) < den := by exact_mod_cast denPos
  rw [quotient, div_eq_iff denQ.ne'] at middle
  have twice : (2 * num : ℚ) = den + 2 * den * below := by
    rw [middle]
    ring
  have twiceNat : 2 * num = den + 2 * den * below := by exact_mod_cast twice
  rw [← Nat.mul_mod_mul_left, twiceNat, Nat.add_mul_mod_self_left, Nat.mod_eq_of_lt]
  omega

theorem roundHalfEven_unique {num den number : Nat} (denPos : 0 < den)
    (near : |(number : ℚ) - quotient num den| ≤ 1 / 2)
    (even : |(number : ℚ) - quotient num den| = 1 / 2 → number % 2 = 0) :
    roundHalfEven num den = number := by
  have nearest := roundHalfEven_near num denPos
  generalize rounded : roundHalfEven num den = nearby at nearest
  rw [abs_le] at near nearest
  by_contra different
  -- Two whole numbers that near lie on both sides of a tie, and only one of them is even.
  rcases Nat.lt_or_gt_of_ne different with less | more
  · have next : (nearby : ℚ) + 1 ≤ number := by exact_mod_cast less
    have middle : quotient num den = nearby + 1 / 2 := by linarith
    have distance : |(number : ℚ) - quotient num den| = 1 / 2 := by
      rw [abs_of_nonneg] <;> linarith
    have rightEven := even distance
    have leftEven := roundHalfEven_tie (tie_of_quotient denPos middle)
    have adjacent : (number : ℚ) = nearby + 1 := by linarith
    have adjacentNat : number = nearby + 1 := by exact_mod_cast adjacent
    omega
  · have next : (number : ℚ) + 1 ≤ nearby := by exact_mod_cast more
    have middle : quotient num den = number + 1 / 2 := by linarith
    have distance : |(number : ℚ) - quotient num den| = 1 / 2 := by
      rw [abs_of_nonpos] <;> linarith
    have leftEven := even distance
    have rightEven := roundHalfEven_tie (tie_of_quotient denPos middle)
    have adjacent : (nearby : ℚ) = number + 1 := by linarith
    have adjacentNat : nearby = number + 1 := by exact_mod_cast adjacent
    omega

/-! ### The nearest value of a format -/

namespace BinaryFormat

variable {format : BinaryFormat} {num den significand : Nat} {exponent : Int}

/-- The weight of the last bit that a number is rounded to. -/
def lastBit (format : BinaryFormat) (num den : Nat) : Int :=
  max format.minExponent (floorLog2 num den + 1 - format.precision)

/-- The number as a multiple of its last bit, rounded. -/
def multiple (format : BinaryFormat) (num den : Nat) : Nat :=
  let scaled := scaleByTwo num den (-format.lastBit num den)
  roundHalfEven scaled.1 scaled.2

theorem round_eq (numPos : 0 < num) :
    format.round num den =
      if format.multiple num den < 2 ^ format.precision then
        if format.maxExponent < format.lastBit num den then .infinite
        else .finite (format.multiple num den) (format.lastBit num den)
      else
        if format.maxExponent < format.lastBit num den + 1 then .infinite
        else .finite (2 ^ (format.precision - 1)) (format.lastBit num den + 1) := by
  unfold round
  rw [if_neg (by omega)]
  rfl

theorem quotient_scaled (num den : Nat) (exponent : Int) :
    quotient (scaleByTwo num den (-exponent)).1 (scaleByTwo num den (-exponent)).2 =
      quotient num den / 2 ^ exponent := by
  rw [quotient_scaleByTwo, zpow_neg, div_eq_mul_inv]

theorem multiple_near (format : BinaryFormat) (numPos : 0 < num) (denPos : 0 < den) :
    |(format.multiple num den : ℚ) - quotient num den / 2 ^ format.lastBit num den| ≤ 1 / 2 := by
  rw [← quotient_scaled]
  exact roundHalfEven_near _ (scaleByTwo_pos numPos denPos _).2

theorem multiple_unique (numPos : 0 < num) (denPos : 0 < den) {number : Nat}
    (near : |(number : ℚ) - quotient num den / 2 ^ format.lastBit num den| ≤ 1 / 2)
    (even : |(number : ℚ) - quotient num den / 2 ^ format.lastBit num den| = 1 / 2 →
      number % 2 = 0) :
    format.multiple num den = number := by
  rw [← quotient_scaled] at near even
  exact roundHalfEven_unique (scaleByTwo_pos numPos denPos _).2 near even

/-- A value of the format that is not zero, in its only form. -/
structure Canonical (format : BinaryFormat) (significand : Nat) (exponent : Int) : Prop where
  pos : 0 < significand
  narrow : significand < 2 ^ format.precision
  least : format.minExponent ≤ exponent
  greatest : exponent ≤ format.maxExponent
  leading : 2 ^ (format.precision - 1) ≤ significand ∨ exponent = format.minExponent

/-- How far below a value numbers still round to it, in units of its last bit. -/
def reach (format : BinaryFormat) (significand : Nat) (exponent : Int) : ℚ :=
  if significand = 2 ^ (format.precision - 1) ∧ format.minExponent < exponent then 1 / 4 else 1 / 2

/-- The number is nearer to the value than to others, or as near and the value is even. -/
structure Attracts (format : BinaryFormat) (significand : Nat) (exponent : Int) (number : ℚ) :
    Prop where
  lower : (significand - format.reach significand exponent) * 2 ^ exponent ≤ number
  upper : number ≤ (significand + 1 / 2) * 2 ^ exponent
  ends : (number = (significand - format.reach significand exponent) * 2 ^ exponent ∨
    number = (significand + 1 / 2) * 2 ^ exponent) → significand % 2 = 0

theorem reach_le_half (format : BinaryFormat) (significand : Nat) (exponent : Int) :
    format.reach significand exponent ≤ 1 / 2 := by
  unfold reach
  split <;> norm_num

theorem floorLog2_lt (numPos : 0 < num) (denPos : 0 < den) {bound : Int}
    (below : quotient num den < 2 ^ bound) : floorLog2 num den < bound :=
  (zpow_lt_zpow_iff_right₀ (by norm_num : (1 : ℚ) < 2)).mp
    ((floorLog2_spec numPos denPos).1.trans_lt below)

theorem le_floorLog2 (numPos : 0 < num) (denPos : 0 < den) {bound : Int}
    (above : (2 : ℚ) ^ bound ≤ quotient num den) : bound ≤ floorLog2 num den :=
  Int.le_of_lt_add_one ((zpow_lt_zpow_iff_right₀ (by norm_num : (1 : ℚ) < 2)).mp
    (above.trans_lt (floorLog2_spec numPos denPos).2))

theorem two_zpow_add_natCast (exponent : Int) (count : Nat) :
    (2 : ℚ) ^ (exponent + count) = 2 ^ count * 2 ^ exponent := by
  rw [zpow_add₀ (by norm_num), zpow_natCast, mul_comm]

theorem Attracts.below {number : ℚ} (canonical : format.Canonical significand exponent)
    (attracts : format.Attracts significand exponent number) :
    number < 2 ^ (exponent + format.precision) := by
  have narrow : (significand : ℚ) + 1 ≤ 2 ^ format.precision := by
    exact_mod_cast canonical.narrow
  rw [two_zpow_add_natCast]
  apply attracts.upper.trans_lt
  apply mul_lt_mul_of_pos_right _ (two_zpow_pos exponent)
  linarith

/-- Numbers that round to a value are at least half of its last bit. -/
theorem Attracts.half_bit_le {number : ℚ} (canonical : format.Canonical significand exponent)
    (attracts : format.Attracts significand exponent number) : 2 ^ exponent / 2 ≤ number := by
  have reach := reach_le_half format significand exponent
  have one : (1 : ℚ) ≤ significand := by exact_mod_cast canonical.pos
  apply le_trans _ attracts.lower
  rw [div_eq_inv_mul]
  apply mul_le_mul_of_nonneg_right _ (two_zpow_pos exponent).le
  linarith

/-- Where the last bit of the number is that of the value. -/
theorem Attracts.multiple_eq (numPos : 0 < num) (denPos : 0 < den)
    (attracts : format.Attracts significand exponent (quotient num den))
    (same : format.lastBit num den = exponent) : format.multiple num den = significand := by
  have scale := two_zpow_pos exponent
  have reach := reach_le_half format significand exponent
  have lower := (le_div_iff₀ scale).mpr attracts.lower
  have upper := (div_le_iff₀ scale).mpr attracts.upper
  apply multiple_unique numPos denPos
  · rw [same, abs_le]
    constructor <;> linarith
  · rw [same]
    intro tie
    apply attracts.ends
    rcases (abs_eq (by norm_num : (0 : ℚ) ≤ 1 / 2)).mp tie with atLower | atUpper
    · left
      rw [← div_eq_iff scale.ne']
      linarith
    · right
      rw [← div_eq_iff scale.ne']
      linarith

theorem Attracts.lastBit_eq (numPos : 0 < num) (denPos : 0 < den)
    (canonical : format.Canonical significand exponent)
    (attracts : format.Attracts significand exponent (quotient num den))
    (sameBit : (2 : ℚ) ^ (format.precision - 1) ≤ quotient num den / 2 ^ exponent ∨
      exponent = format.minExponent) :
    format.lastBit num den = exponent := by
  have below := floorLog2_lt numPos denPos (attracts.below canonical)
  have least := canonical.least
  unfold lastBit
  rcases sameBit with high | lowest
  · rw [le_div_iff₀ (two_zpow_pos exponent), ← two_zpow_add_natCast] at high
    have above := le_floorLog2 numPos denPos high
    omega
  · omega

/-! Below a power of two the last bit is half of that of the power, which is reached by carrying. -/

theorem Attracts.significand_eq {number : ℚ} (canonical : format.Canonical significand exponent)
    (attracts : format.Attracts significand exponent number)
    (low : number / 2 ^ exponent < 2 ^ (format.precision - 1))
    (higher : format.minExponent < exponent) : significand = 2 ^ (format.precision - 1) := by
  have leading := canonical.leading.resolve_right higher.ne'
  have lower := (le_div_iff₀ (two_zpow_pos exponent)).mpr attracts.lower
  have reach := reach_le_half format significand exponent
  have close : (significand : ℚ) < 2 ^ (format.precision - 1) + 1 := by linarith
  have closeNat : significand < 2 ^ (format.precision - 1) + 1 := by exact_mod_cast close
  omega

/-- Such a number is above the power by no more than a quarter of its last bit. -/
theorem Attracts.quarter_below {number : ℚ} (canonical : format.Canonical significand exponent)
    (attracts : format.Attracts significand exponent number)
    (low : number / 2 ^ exponent < 2 ^ (format.precision - 1))
    (higher : format.minExponent < exponent) :
    2 ^ (format.precision - 1) - 1 / 4 ≤ number / 2 ^ exponent := by
  have power := attracts.significand_eq canonical low higher
  have powerQ : (significand : ℚ) = 2 ^ (format.precision - 1) := by exact_mod_cast power
  have quarter : format.reach significand exponent = 1 / 4 := if_pos ⟨power, higher⟩
  rw [← powerQ, ← quarter]
  exact (le_div_iff₀ (two_zpow_pos exponent)).mpr attracts.lower

theorem div_two_zpow_pred (number : ℚ) (exponent : Int) :
    number / 2 ^ (exponent - 1) = 2 * (number / 2 ^ exponent) := by
  have halved : (2 : ℚ) ^ exponent = 2 * 2 ^ (exponent - 1) := by
    rw [← two_zpow_succ, Int.sub_add_cancel]
  have half := two_zpow_pos (exponent - 1)
  rw [halved]
  field_simp

theorem lastBit_of_quarter_below (numPos : 0 < num) (denPos : 0 < den)
    (near : 2 ^ (format.precision - 1) - 1 / 4 ≤ quotient num den / 2 ^ exponent)
    (low : quotient num den / 2 ^ exponent < 2 ^ (format.precision - 1))
    (precise : 0 < format.precision) (higher : format.minExponent < exponent) :
    format.lastBit num den = exponent - 1 := by
  have one : (1 : ℚ) ≤ 2 ^ (format.precision - 1) := one_le_pow₀ (by norm_num)
  have high : (2 : ℚ) ^ (exponent - 1 + (format.precision - 1 : Nat)) ≤ quotient num den := by
    rw [two_zpow_add_natCast, ← le_div_iff₀ (two_zpow_pos _), div_two_zpow_pred]
    linarith
  rw [div_lt_iff₀ (two_zpow_pos exponent), ← two_zpow_add_natCast] at low
  have upperBit := floorLog2_lt numPos denPos low
  have lowerBit := le_floorLog2 numPos denPos high
  unfold lastBit
  omega

theorem multiple_of_quarter_below (numPos : 0 < num) (denPos : 0 < den)
    (near : 2 ^ (format.precision - 1) - 1 / 4 ≤ quotient num den / 2 ^ exponent)
    (low : quotient num den / 2 ^ exponent < 2 ^ (format.precision - 1))
    (precise : 0 < format.precision) (previous : format.lastBit num den = exponent - 1) :
    format.multiple num den = 2 ^ format.precision := by
  have powers : (2 : ℚ) ^ format.precision = 2 * 2 ^ (format.precision - 1) := by
    rw [← pow_succ', Nat.sub_add_cancel precise]
  apply multiple_unique numPos denPos
  · rw [previous, div_two_zpow_pred, abs_le]
    push_cast
    constructor <;> linarith
  · intro _
    exact Nat.mod_eq_zero_of_dvd (dvd_pow_self 2 precise.ne')

/-- A value of the format is what the numbers that it attracts round to. -/
theorem round_of_attracts (precise : 0 < format.precision) (numPos : 0 < num) (denPos : 0 < den)
    (canonical : format.Canonical significand exponent)
    (attracts : format.Attracts significand exponent (quotient num den)) :
    format.round num den = .finite significand exponent := by
  rw [round_eq numPos]
  by_cases sameBit : (2 : ℚ) ^ (format.precision - 1) ≤ quotient num den / 2 ^ exponent ∨
      exponent = format.minExponent
  · have same := attracts.lastBit_eq numPos denPos canonical sameBit
    rw [attracts.multiple_eq numPos denPos same, same, if_pos canonical.narrow,
      if_neg (not_lt.mpr canonical.greatest)]
  · obtain ⟨high, notLeast⟩ := not_or.mp sameBit
    have low := not_le.mp high
    have higher : format.minExponent < exponent := lt_of_le_of_ne canonical.least (Ne.symm notLeast)
    have near := attracts.quarter_below canonical low higher
    have previous := lastBit_of_quarter_below numPos denPos near low precise higher
    have carried := multiple_of_quarter_below numPos denPos near low precise previous
    rw [carried, previous, Int.sub_add_cancel, if_neg (lt_irrefl _),
      if_neg (not_lt.mpr canonical.greatest), attracts.significand_eq canonical low higher]

end BinaryFormat

end CallCapture
