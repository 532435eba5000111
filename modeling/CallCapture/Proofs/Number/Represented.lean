import CallCapture.Proofs.Number.Rounding

/-!
The rational numbers that a binary format has a value for. They round to themselves, and any other
number of the format's range rounds to one of them that is near.
-/

namespace CallCapture.BinaryFormat

variable {format : BinaryFormat} {num den significand : Nat} {exponent : Int}

theorem attracts_self (significand : Nat) (exponent : Int) :
    format.Attracts significand exponent (binary significand exponent) := by
  have scale := two_zpow_pos exponent
  have reachPos : 0 < format.reach significand exponent := by
    unfold reach
    split <;> norm_num
  unfold binary
  refine ⟨?_, ?_, ?_⟩
  · apply mul_le_mul_of_nonneg_right _ scale.le
    linarith
  · apply mul_le_mul_of_nonneg_right _ scale.le
    linarith
  · rintro (lower | upper)
    · have same := mul_right_cancel₀ scale.ne' lower
      linarith
    · have same := mul_right_cancel₀ scale.ne' upper
      linarith

/-- The magnitude is the form in which the format has the number. -/
inductive Represents (format : BinaryFormat) : Magnitude → ℚ → Prop where
  | zero : Represents format .zero 0
  | positive {significand : Nat} {exponent : Int}
      (canonical : format.Canonical significand exponent) :
      Represents format (.finite significand exponent) (binary significand exponent)

theorem round_zero : format.round 0 den = .zero := by
  rw [round, if_pos rfl]

/-- A number that the format has rounds to itself. -/
theorem Represents.round_eq (precise : 0 < format.precision) {magnitude : Magnitude} {number : ℚ}
    (represents : format.Represents magnitude number) (denPos : 0 < den)
    (same : quotient num den = number) : format.round num den = magnitude := by
  have denQ : (0 : ℚ) < den := by exact_mod_cast denPos
  cases represents with
  | zero =>
      have numZero : (num : ℚ) = 0 := by
        rwa [quotient, div_eq_zero_iff, or_iff_left denQ.ne'] at same
      rw [Nat.cast_eq_zero.mp numZero, round_zero]
  | positive canonical =>
      have positive : 0 < quotient num den := by
        rw [same, binary]
        exact mul_pos (by exact_mod_cast canonical.pos) (two_zpow_pos _)
      have numPos : 0 < num := by
        rw [quotient, div_pos_iff_of_pos_right denQ] at positive
        exact_mod_cast positive
      apply round_of_attracts precise numPos denPos canonical
      rw [same]
      exact attracts_self _ _

/-- The last bit of a number below a power of two. -/
theorem lastBit_le (format : BinaryFormat) (numPos : 0 < num) (denPos : 0 < den) {bound : Int}
    (least : format.minExponent ≤ bound - format.precision)
    (below : quotient num den < 2 ^ bound) : format.lastBit num den ≤ bound - format.precision := by
  have high := floorLog2_lt numPos denPos below
  unfold lastBit
  omega

theorem multiple_error (numPos : 0 < num) (denPos : 0 < den) :
    |binary (format.multiple num den) (format.lastBit num den) - quotient num den| ≤
      2 ^ format.lastBit num den / 2 := by
  have scale := two_zpow_pos (format.lastBit num den)
  have near := multiple_near format numPos denPos
  rw [← mul_le_mul_iff_of_pos_right scale, ← abs_of_pos scale, ← abs_mul, sub_mul, abs_of_pos scale,
    div_mul_cancel₀ _ scale.ne', div_mul_eq_mul_div, one_mul] at near
  exact near

theorem multiple_le (numPos : 0 < num) (denPos : 0 < den) :
    format.multiple num den ≤ 2 ^ format.precision := by
  have scale := two_zpow_pos (format.lastBit num den)
  have near := multiple_near format numPos denPos
  have below : quotient num den / 2 ^ format.lastBit num den < 2 ^ format.precision := by
    rw [div_lt_iff₀ scale, ← two_zpow_add_natCast]
    apply (floorLog2_spec numPos denPos).2.trans_le
    apply zpow_le_zpow_right₀ (by norm_num)
    unfold lastBit
    omega
  rw [abs_le] at near
  have close : (format.multiple num den : ℚ) < 2 ^ format.precision + 1 := by linarith
  have closeNat : format.multiple num den < 2 ^ format.precision + 1 := by exact_mod_cast close
  omega

theorem le_multiple_of_le (numPos : 0 < num) (denPos : 0 < den) {count : Nat}
    (reached : (count : ℚ) ≤ quotient num den / 2 ^ format.lastBit num den) :
    count ≤ format.multiple num den := by
  have near := multiple_near format numPos denPos
  rw [abs_le] at near
  have close : (count : ℚ) < format.multiple num den + 1 := by linarith
  have closeNat : count < format.multiple num den + 1 := by exact_mod_cast close
  omega

theorem le_multiple (precise : 0 < format.precision) (numPos : 0 < num) (denPos : 0 < den)
    (normal : (2 : ℚ) ^ (format.minExponent + (format.precision - 1 : Nat)) ≤ quotient num den) :
    2 ^ (format.precision - 1) ≤ format.multiple num den := by
  apply le_multiple_of_le numPos denPos
  push_cast
  rw [le_div_iff₀ (two_zpow_pos _), ← two_zpow_add_natCast]
  refine le_trans (zpow_le_zpow_right₀ (by norm_num) ?_) (floorLog2_spec numPos denPos).1
  have bit := le_floorLog2 numPos denPos normal
  unfold lastBit
  omega

theorem multiple_eq_of_wide (numPos : 0 < num) (denPos : 0 < den)
    (wide : ¬ format.multiple num den < 2 ^ format.precision) :
    format.multiple num den = 2 ^ format.precision :=
  le_antisymm (multiple_le numPos denPos) (not_lt.mp wide)

/-- A significand that rounding carries over is written with one bit, of the next weight. -/
theorem carried_eq (precise : 0 < format.precision)
    (carried : format.multiple num den = 2 ^ format.precision) :
    binary (format.multiple num den) (format.lastBit num den) =
      binary (2 ^ (format.precision - 1)) (format.lastBit num den + 1) := by
  have powers : 2 ^ format.precision = 2 ^ (format.precision - 1) * 2 := by
    rw [← pow_succ, Nat.sub_add_cancel precise]
  rw [carried, powers, binary, binary, two_zpow_succ]
  push_cast
  ring

/-- A number of the format's range rounds to the nearest multiple of its last bit. -/
theorem round_represents (precise : 0 < format.precision) (numPos : 0 < num) (denPos : 0 < den)
    (normal : (2 : ℚ) ^ (format.minExponent + (format.precision - 1 : Nat)) ≤ quotient num den)
    (inRange : format.lastBit num den < format.maxExponent) :
    format.Represents (format.round num den)
      (binary (format.multiple num den) (format.lastBit num den)) := by
  have leastBit : format.minExponent ≤ format.lastBit num den := le_max_left _ _
  have leading := le_multiple precise numPos denPos normal
  have leadingPos : 0 < 2 ^ (format.precision - 1) := by positivity
  rw [BinaryFormat.round_eq numPos]
  by_cases narrow : format.multiple num den < 2 ^ format.precision
  · rw [if_pos narrow, if_neg (by omega)]
    exact .positive ⟨by omega, narrow, leastBit, by omega, .inl leading⟩
  · have powers : 2 ^ format.precision = 2 ^ (format.precision - 1) * 2 := by
      rw [← pow_succ, Nat.sub_add_cancel precise]
    rw [if_neg narrow, if_neg (by omega),
      carried_eq precise (multiple_eq_of_wide numPos denPos narrow)]
    exact .positive ⟨leadingPos, by omega, by omega, by omega, .inl le_rfl⟩

/-- The value that a number of the format's range rounds to is off by half of a last bit at most. -/
theorem round_near (precise : 0 < format.precision) (numPos : 0 < num) (denPos : 0 < den)
    (normal : (2 : ℚ) ^ (format.minExponent + (format.precision - 1 : Nat)) ≤ quotient num den)
    {bound : Int} (below : quotient num den < 2 ^ bound)
    (inRange : bound - format.precision < format.maxExponent) :
    ∃ nearby, format.Represents (format.round num den) nearby ∧
      |nearby - quotient num den| ≤ 2 ^ (bound - format.precision) / 2 := by
  have least : format.minExponent ≤ bound - format.precision := by
    have bits := (zpow_lt_zpow_iff_right₀ (by norm_num : (1 : ℚ) < 2)).mp (normal.trans_lt below)
    omega
  have bit := lastBit_le format numPos denPos least below
  refine ⟨_, round_represents precise numPos denPos normal (by omega), ?_⟩
  apply (multiple_error numPos denPos).trans
  exact div_le_div_of_nonneg_right (zpow_le_zpow_right₀ (by norm_num) bit) (by norm_num)

/-- A number that has few enough bits is the multiple it is rounded to. -/
theorem multiple_exact (numPos : 0 < num) (denPos : 0 < den)
    (narrow : significand < 2 ^ format.precision) (least : format.minExponent ≤ exponent)
    (same : quotient num den = binary significand exponent) :
    binary (format.multiple num den) (format.lastBit num den) = quotient num den := by
  have below : quotient num den < 2 ^ (exponent + format.precision) := by
    rw [same, binary, two_zpow_add_natCast]
    exact mul_lt_mul_of_pos_right (by exact_mod_cast narrow) (two_zpow_pos exponent)
  have bit := lastBit_le format numPos denPos (by omega) below
  obtain ⟨count, shift⟩ := Int.eq_ofNat_of_zero_le (by omega : 0 ≤ exponent - format.lastBit num den)
  have steps : quotient num den = (significand * 2 ^ count : Nat) * 2 ^ format.lastBit num den := by
    have split : exponent = format.lastBit num den + (count : Nat) := by omega
    rw [same, binary, split, two_zpow_add_natCast]
    push_cast
    ring
  have scale := two_zpow_pos (format.lastBit num den)
  have units : format.multiple num den = significand * 2 ^ count := by
    apply multiple_unique numPos denPos
    all_goals rw [steps, mul_div_cancel_right₀ _ scale.ne', sub_self, abs_zero]
    · norm_num
    · intro impossible
      norm_num at impossible
  rw [units, binary, steps]

/-! ### Arithmetic -/

theorem quotient_fraction (significand : Nat) (exponent : Int) :
    quotient (Magnitude.fraction significand exponent).1
      (Magnitude.fraction significand exponent).2 = binary significand exponent := by
  rw [Magnitude.fraction, quotient_scaleByTwo, quotient, binary, Nat.cast_one, div_one]

theorem fraction_den_pos (significand : Nat) (exponent : Int) :
    0 < (Magnitude.fraction significand exponent).2 := by
  unfold Magnitude.fraction scaleByTwo
  split
  · exact Nat.one_pos
  · exact Nat.mul_pos Nat.one_pos (Nat.pow_pos (by decide))

/-- What represents a number is a fraction that is the number. -/
theorem Represents.exists_fraction {magnitude : Magnitude} {number : ℚ}
    (represents : format.Represents magnitude number) :
    ∃ significand exponent, magnitude = .finite significand exponent ∧
      binary significand exponent = number := by
  cases represents with
  | zero => exact ⟨0, 0, rfl, by simp [binary]⟩
  | positive canonical => exact ⟨_, _, rfl, rfl⟩

theorem Represents.nonneg {magnitude : Magnitude} {number : ℚ}
    (represents : format.Represents magnitude number) : 0 ≤ number := by
  obtain ⟨significand, exponent, _, rfl⟩ := represents.exists_fraction
  exact mul_nonneg (Nat.cast_nonneg significand) (two_zpow_pos exponent).le

theorem Represents.add_eq {left right : Magnitude} {first second : ℚ}
    (leftRepresents : format.Represents left first)
    (rightRepresents : format.Represents right second) :
    ∃ num den, 0 < den ∧ quotient num den = first + second ∧
      format.add left right = format.round num den := by
  obtain ⟨m, e, rfl, rfl⟩ := leftRepresents.exists_fraction
  obtain ⟨n, f, rfl, rfl⟩ := rightRepresents.exists_fraction
  have leftPos := fraction_den_pos m e
  have rightPos := fraction_den_pos n f
  refine ⟨_, _, Nat.mul_pos leftPos rightPos, ?_, rfl⟩
  rw [← quotient_fraction, ← quotient_fraction]
  have leftQ : ((Magnitude.fraction m e).2 : ℚ) ≠ 0 := by exact_mod_cast leftPos.ne'
  have rightQ : ((Magnitude.fraction n f).2 : ℚ) ≠ 0 := by exact_mod_cast rightPos.ne'
  unfold quotient
  push_cast
  field_simp

theorem Represents.mul_eq {left right : Magnitude} {first second : ℚ}
    (leftRepresents : format.Represents left first)
    (rightRepresents : format.Represents right second) :
    ∃ num den, 0 < den ∧ quotient num den = first * second ∧
      format.mul left right = format.round num den := by
  obtain ⟨m, e, rfl, rfl⟩ := leftRepresents.exists_fraction
  obtain ⟨n, f, rfl, rfl⟩ := rightRepresents.exists_fraction
  refine ⟨_, _, Nat.mul_pos (fraction_den_pos m e) (fraction_den_pos n f), ?_, rfl⟩
  rw [← quotient_fraction, ← quotient_fraction]
  unfold quotient
  push_cast
  rw [div_mul_div_comm]

/-! ### Comparison -/

theorem isBelow_finite (significand : Nat) (exponent : Int) (bound : Nat) :
    (Magnitude.finite significand exponent).isBelow bound = true ↔
      binary significand exponent < bound := by
  have denPos := fraction_den_pos significand exponent
  rw [← quotient_fraction, quotient, div_lt_iff₀ (by exact_mod_cast denPos)]
  simp only [Magnitude.isBelow, decide_eq_true_eq]
  exact_mod_cast Iff.rfl

/-- Rounding does not lead below a whole number of few bits. -/
theorem le_rounded (precise : 0 < format.precision) (numPos : 0 < num) (denPos : 0 < den)
    (normal : (2 : ℚ) ^ (format.minExponent + (format.precision - 1 : Nat)) ≤ quotient num den)
    {bound : Nat} (narrow : bound ≤ 2 ^ (format.precision - 1))
    (reached : (bound : ℚ) ≤ quotient num den) :
    (bound : ℚ) ≤ binary (format.multiple num den) (format.lastBit num den) := by
  unfold binary
  -- With a last bit of one at most the bound is a multiple of it; otherwise the leading bit alone
  -- exceeds the bound.
  by_cases fractional : format.lastBit num den ≤ 0
  · obtain ⟨places, opposite⟩ := Int.eq_ofNat_of_zero_le (by omega : 0 ≤ -format.lastBit num den)
    have inverse : (2 : ℚ) ^ format.lastBit num den = (2 ^ places)⁻¹ := by
      rw [← zpow_natCast, ← zpow_neg, ← opposite]
      congr 1
      omega
    have units : bound * 2 ^ places ≤ format.multiple num den := by
      apply le_multiple_of_le numPos denPos
      rw [inverse, div_inv_eq_mul]
      push_cast
      exact mul_le_mul_of_nonneg_right reached (by positivity)
    rw [inverse, ← div_eq_mul_inv, le_div_iff₀ (by positivity)]
    exact_mod_cast units
  · have leading := le_multiple precise numPos denPos normal
    have scale : (1 : ℚ) ≤ 2 ^ format.lastBit num den := one_le_zpow₀ (by norm_num) (by omega)
    have enough : (bound : ℚ) ≤ format.multiple num den := by exact_mod_cast narrow.trans leading
    exact enough.trans (le_mul_of_one_le_right (Nat.cast_nonneg _) scale)

theorem not_isBelow_round (precise : 0 < format.precision) (numPos : 0 < num) (denPos : 0 < den)
    (normal : (2 : ℚ) ^ (format.minExponent + (format.precision - 1 : Nat)) ≤ quotient num den)
    {bound : Nat} (narrow : bound ≤ 2 ^ (format.precision - 1))
    (reached : (bound : ℚ) ≤ quotient num den) :
    (format.round num den).isBelow bound ≠ true := by
  have rounded := le_rounded precise numPos denPos normal narrow reached
  rw [BinaryFormat.round_eq numPos]
  split
  · split
    · exact Bool.false_ne_true
    · rw [Ne, isBelow_finite]
      exact not_lt.mpr rounded
  case isFalse wide =>
    split
    · exact Bool.false_ne_true
    · rw [Ne, isBelow_finite, ← carried_eq precise (multiple_eq_of_wide numPos denPos wide)]
      exact not_lt.mpr rounded

/-! ### Doubles -/

/-- Above all subnormal numbers and far below the greatest, doubles are half a last bit off. -/
theorem double_near (numPos : 0 < num) (denPos : 0 < den)
    (normal : (2 : ℚ) ^ (-31 : Int) ≤ quotient num den) {bound : Int}
    (below : quotient num den < 2 ^ bound) (inRange : bound ≤ 65) :
    ∃ nearby, double.Represents (double.round num den) nearby ∧
      |nearby - quotient num den| ≤ 2 ^ (bound - 53) / 2 := by
  have least : (2 : ℚ) ^ (double.minExponent + (double.precision - 1 : Nat)) ≤ 2 ^ (-31 : Int) :=
    zpow_le_zpow_right₀ (by norm_num) (by decide)
  have bits : bound - double.precision < double.maxExponent := by
    have precision : (double.precision : Int) = 53 := rfl
    have top : double.maxExponent = 971 := rfl
    omega
  exact round_near (by decide) numPos denPos (least.trans normal) below bits

theorem quotient_one (number : Nat) : quotient number 1 = number := by
  rw [quotient, Nat.cast_one, div_one]

/-- Whole numbers of 53 bits and zeros after them are doubles. -/
theorem represents_ofNat {number significand count : Nat} (small : number < 2 ^ 64)
    (narrow : significand < 2 ^ 53) (same : number = significand * 2 ^ count) :
    double.Represents (double.ofNat number) number := by
  rcases Nat.eq_zero_or_pos number with rfl | positive
  · rw [ofNat, round_zero, Nat.cast_zero]
    exact .zero
  have exact : quotient number 1 = binary significand count := by
    rw [quotient_one, binary, same, zpow_natCast]
    push_cast
    rfl
  have low : (2 : ℚ) ^ (double.minExponent + (double.precision - 1 : Nat)) ≤ quotient number 1 := by
    have one : (1 : ℚ) ≤ number := by exact_mod_cast positive
    rw [quotient_one]
    apply le_trans _ one
    apply zpow_le_one_of_nonpos₀ (by norm_num) (by decide)
  have high : quotient number 1 < 2 ^ (64 : Int) := by
    rw [quotient_one]
    exact_mod_cast small
  have bit := lastBit_le double positive Nat.one_pos (by decide) high
  have precision : (double.precision : Int) = 53 := rfl
  have top : double.maxExponent = 971 := rfl
  have represents := round_represents (by decide) positive Nat.one_pos low (by omega)
  have least : double.minExponent ≤ count := (by decide : double.minExponent ≤ 0).trans (by omega)
  rwa [multiple_exact positive Nat.one_pos narrow least exact, quotient_one] at represents

end CallCapture.BinaryFormat
