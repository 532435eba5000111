import CallCapture.Time.Duration
import CallCapture.Proofs.Number.ReadBack

/-!
Durations as doubles of seconds: how far a duration is from its double, and when the double leads back
to the duration.
-/

namespace CallCapture

open BinaryFormat

namespace Duration

variable {duration : Duration} {magnitude : Magnitude} {number : ℚ} {count : Nat}

/-- The exact number of seconds. -/
def inSeconds (duration : Duration) : ℚ :=
  duration.nanoseconds / perSecond

theorem parts (duration : Duration) :
    duration.nanoseconds = duration.seconds * perSecond + duration.fraction := by
  rw [Nat.mul_comm]
  exact (Nat.div_add_mod duration.nanoseconds perSecond).symm

theorem fraction_lt (duration : Duration) : duration.fraction < perSecond :=
  Nat.mod_lt _ (by decide)

theorem inSeconds_eq (duration : Duration) :
    duration.inSeconds = duration.seconds + quotient duration.fraction perSecond := by
  have perSecondPos : (perSecond : ℚ) ≠ 0 := by norm_num [perSecond]
  rw [inSeconds, parts, quotient]
  push_cast
  field_simp

theorem secondsBound_eq : secondsBound = 2 ^ 64 := by
  norm_num [secondsBound, UInt64.size]

/-! ### Whole nanoseconds -/

/-- The nanoseconds of a number of seconds, rounded. -/
theorem nearest?_eq (represents : double.Represents magnitude number) :
    ∃ num den, 0 < den ∧ quotient num den = number * perSecond ∧
      nearest? magnitude =
        if roundHalfEven num den < secondsBound * perSecond then some ⟨roundHalfEven num den⟩
        else none := by
  obtain ⟨significand, exponent, rfl, rfl⟩ := represents.exists_fraction
  refine ⟨_, _, fraction_den_pos significand exponent, ?_, rfl⟩
  rw [← quotient_fraction, quotient, quotient, Nat.cast_mul, div_mul_eq_mul_div]

theorem nearest?_of_near (represents : double.Represents magnitude number)
    (near : |(count : ℚ) - number * perSecond| < 1 / 2) (fits : count < secondsBound * perSecond) :
    nearest? magnitude = some ⟨count⟩ := by
  obtain ⟨num, den, denPos, same, nearest⟩ := nearest?_eq represents
  rw [← same] at near
  have rounds : roundHalfEven num den = count :=
    roundHalfEven_unique denPos near.le fun tie => absurd tie near.ne
  rw [nearest, rounds, if_pos fits]

theorem near_of_nearest? (represents : double.Represents magnitude number)
    (found : nearest? magnitude = some duration) :
    |(duration.nanoseconds : ℚ) - number * perSecond| ≤ 1 / 2 := by
  obtain ⟨num, den, denPos, same, nearest⟩ := nearest?_eq represents
  rw [nearest] at found
  split at found
  · cases found
    rw [← same]
    exact roundHalfEven_near num denPos
  · contradiction

/-! ### The parts of a duration -/

theorem represents_of_lt (small : count < 2 ^ 53) : double.Represents (double.ofNat count) count :=
  represents_ofNat (by omega) small (by rw [pow_zero, Nat.mul_one] : count = count * 2 ^ 0)

theorem exists_seconds (small : count < 2 ^ 64) :
    ∃ nearby, double.Represents (double.ofNat count) nearby ∧ |nearby - count| ≤ 2 ^ 10 := by
  rcases Nat.eq_zero_or_pos count with rfl | positive
  · refine ⟨0, ?_, by norm_num⟩
    rw [ofNat, round_zero]
    exact .zero
  · have one : (1 : ℚ) ≤ count := by exact_mod_cast positive
    have high : (count : ℚ) < 2 ^ (64 : Int) := by exact_mod_cast small
    rw [← quotient_one] at one high ⊢
    have low : (2 : ℚ) ^ (-31 : Int) ≤ quotient count 1 := le_trans (by norm_num) one
    obtain ⟨nearby, represents, near⟩ := double_near positive Nat.one_pos low high (by decide)
    exact ⟨nearby, represents, near.trans (by norm_num)⟩

theorem exists_fraction (duration : Duration) :
    ∃ nearby, double.Represents (double.round duration.fraction perSecond) nearby ∧
      |nearby - quotient duration.fraction perSecond| ≤ 2 ^ (-54 : Int) := by
  rcases Nat.eq_zero_or_pos duration.fraction with zero | positive
  · refine ⟨0, ?_, ?_⟩
    · rw [zero, round_zero]
      exact .zero
    · rw [zero, quotient, Nat.cast_zero, zero_div, sub_zero, abs_zero]
      exact (two_zpow_pos _).le
  · have perSecondPos : (0 : ℚ) < perSecond := by norm_num [perSecond]
    have one : (1 : ℚ) ≤ duration.fraction := by exact_mod_cast positive
    have below : (duration.fraction : ℚ) < perSecond := by exact_mod_cast duration.fraction_lt
    have low : (2 : ℚ) ^ (-31 : Int) ≤ quotient duration.fraction perSecond := by
      rw [quotient, le_div_iff₀ perSecondPos]
      apply le_trans _ one
      norm_num [perSecond]
    have high : quotient duration.fraction perSecond < 2 ^ (0 : Int) := by
      rw [quotient, zpow_zero]
      exact (div_lt_one perSecondPos).mpr below
    obtain ⟨nearby, represents, near⟩ := double_near positive (by decide) low high (by decide)
    refine ⟨nearby, represents, near.trans ?_⟩
    norm_num

/-! ### Their sum -/

theorem secondsDouble_whole (whole : duration.fraction = 0) (fits : duration.seconds < 2 ^ 64) :
    duration.secondsDouble = double.ofNat duration.seconds := by
  obtain ⟨nearby, represents, _⟩ := exists_seconds fits
  rw [secondsDouble, whole, round_zero]
  exact represents.add_zero_eq (by decide)

theorem secondsDouble_sum {whole part : ℚ} (positive : 0 < duration.fraction)
    (wholeRepresents : double.Represents (double.ofNat duration.seconds) whole)
    (partRepresents : double.Represents (double.round duration.fraction perSecond) part)
    (near : |part - quotient duration.fraction perSecond| ≤ 2 ^ (-54 : Int)) {bound : Int}
    (below : whole + part < 2 ^ bound) (inRange : bound ≤ 65) :
    ∃ total, double.Represents duration.secondsDouble total ∧
      |total - (whole + part)| ≤ 2 ^ (bound - 53) / 2 := by
  have one : (1 : ℚ) ≤ duration.fraction := by exact_mod_cast positive
  have perSecondPos : (0 : ℚ) < perSecond := by norm_num [perSecond]
  have exact : (1 : ℚ) / perSecond ≤ quotient duration.fraction perSecond :=
    div_le_div_of_nonneg_right one perSecondPos.le
  have nonneg := wholeRepresents.nonneg
  -- Even one nanosecond, rounded, is far above the subnormal numbers.
  have low : (2 : ℚ) ^ (-31 : Int) ≤ whole + part := by
    have small : (2 : ℚ) ^ (-31 : Int) + 2 ^ (-54 : Int) ≤ 1 / perSecond := by norm_num [perSecond]
    have apart := (abs_le.mp near).1
    generalize (1 : ℚ) / perSecond = nanosecond at small exact
    linarith
  obtain ⟨num, den, denPos, sum, adds⟩ := wholeRepresents.add_eq partRepresents
  rw [← sum] at low below ⊢
  have numPos : 0 < num := by
    have quotientPos := (two_zpow_pos _).trans_le low
    rw [quotient, div_pos_iff_of_pos_right (by exact_mod_cast denPos)] at quotientPos
    exact_mod_cast quotientPos
  unfold secondsDouble
  dsimp only
  rw [adds]
  exact double_near numPos denPos low below inRange

theorem exists_secondsDouble (fits : duration.seconds < 2 ^ 64) :
    ∃ total, double.Represents duration.secondsDouble total := by
  obtain ⟨whole, wholeRepresents, wholeNear⟩ := exists_seconds fits
  rcases Nat.eq_zero_or_pos duration.fraction with zero | positive
  · rw [secondsDouble_whole zero fits]
    exact ⟨whole, wholeRepresents⟩
  · obtain ⟨part, partRepresents, partNear⟩ := duration.exists_fraction
    have below : quotient duration.fraction perSecond ≤ 1 := by
      apply div_le_one_of_le₀ _ (by norm_num [perSecond])
      exact_mod_cast duration.fraction_lt.le
    have sum : whole + part < 2 ^ (65 : Int) := by
      have seconds : (duration.seconds : ℚ) ≤ 2 ^ 64 := by exact_mod_cast fits.le
      have small : (2 : ℚ) ^ (-54 : Int) ≤ 1 := by norm_num
      rw [abs_le] at wholeNear partNear
      have room : (2 : ℚ) ^ 64 + 2 ^ 10 + 2 < 2 ^ (65 : Int) := by norm_num
      linarith
    obtain ⟨total, represents, _⟩ :=
      secondsDouble_sum positive wholeRepresents partRepresents partNear sum (by decide)
    exact ⟨total, represents⟩

/-- Durations of fewer than `2 ^ 23` seconds are less than half a nanosecond from their double. -/
theorem secondsDouble_near (short : duration.seconds < 2 ^ 23) :
    ∃ total, double.Represents duration.secondsDouble total ∧
      |total - duration.inSeconds| ≤ 2 ^ (-31 : Int) + 2 ^ (-54 : Int) := by
  have wholeRepresents := represents_of_lt (by omega : duration.seconds < 2 ^ 53)
  rw [inSeconds_eq]
  rcases Nat.eq_zero_or_pos duration.fraction with zero | positive
  · refine ⟨duration.seconds, ?_, ?_⟩
    · rw [secondsDouble_whole zero (by omega)]
      exact wholeRepresents
    · rw [zero, quotient, Nat.cast_zero, zero_div, add_zero, sub_self, abs_zero]
      norm_num
  · obtain ⟨part, partRepresents, partNear⟩ := duration.exists_fraction
    have last : (duration.fraction : ℚ) + 1 ≤ perSecond := by exact_mod_cast duration.fraction_lt
    have room : quotient duration.fraction perSecond + 1 / perSecond ≤ 1 := by
      rw [quotient, ← add_div]
      exact div_le_one_of_le₀ last (by norm_num [perSecond])
    have sum : (duration.seconds : ℚ) + part < 2 ^ (23 : Int) := by
      have seconds : (duration.seconds : ℚ) + 1 ≤ 2 ^ (23 : Int) := by exact_mod_cast short
      have small : (2 : ℚ) ^ (-54 : Int) < 1 / perSecond := by norm_num [perSecond]
      have apart := (abs_le.mp partNear).2
      generalize (1 : ℚ) / perSecond = nanosecond at small room
      linarith
    obtain ⟨total, represents, near⟩ :=
      secondsDouble_sum positive wholeRepresents partRepresents partNear sum (by decide)
    have half : (2 : ℚ) ^ ((23 : Int) - 53) / 2 = 2 ^ (-31 : Int) := by norm_num
    refine ⟨total, represents, ?_⟩
    rw [half] at near
    rw [abs_le] at near partNear ⊢
    constructor <;> linarith

/-! ### Leading back -/

theorem fits_of_seconds (fits : duration.seconds < secondsBound) :
    duration.nanoseconds < secondsBound * perSecond :=
  (Nat.div_lt_iff_lt_mul (by decide)).mp fits

theorem nearest?_secondsDouble (short : duration.seconds < 2 ^ 23) :
    nearest? duration.secondsDouble = some duration := by
  obtain ⟨total, represents, near⟩ := secondsDouble_near short
  apply nearest?_of_near represents
  · have perSecondPos : (0 : ℚ) < perSecond := by norm_num [perSecond]
    have scaled : (duration.nanoseconds : ℚ) - total * perSecond =
        (duration.inSeconds - total) * perSecond := by
      rw [sub_mul, inSeconds, div_mul_cancel₀ _ perSecondPos.ne']
    rw [scaled, abs_mul, abs_sub_comm, abs_of_pos perSecondPos]
    apply (mul_le_mul_of_nonneg_right near perSecondPos.le).trans_lt
    norm_num [perSecond]
  · apply fits_of_seconds
    rw [secondsBound_eq]
    omega

/-- From `2 ^ 53` on the doubles are whole numbers of at most 53 bits and zeros after them. -/
theorem exists_bits_of_represents (large : 2 ^ 53 ≤ count) (fits : count < 2 ^ 64) :
    ∃ significand zeros, significand < 2 ^ 53 ∧
      double.Represents (double.ofNat count) (significand * 2 ^ zeros : Nat) := by
  have positive : 0 < count := (by decide : 0 < 2 ^ 53).trans_le large
  have low : (2 : ℚ) ^ (53 : Int) ≤ quotient count 1 := by
    rw [quotient_one]
    exact_mod_cast large
  have high : quotient count 1 < 2 ^ (64 : Int) := by
    rw [quotient_one]
    exact_mod_cast fits
  have normal : (2 : ℚ) ^ (double.minExponent + (double.precision - 1 : Nat)) ≤ quotient count 1 :=
    le_trans (zpow_le_zpow_right₀ (by norm_num) (by decide)) low
  have precision : double.precision = 53 := rfl
  have top : double.maxExponent = 971 := rfl
  have lastLow : 0 ≤ double.lastBit count 1 := by
    have leading := le_floorLog2 positive Nat.one_pos low
    unfold lastBit
    omega
  have lastHigh := lastBit_le double positive Nat.one_pos (by decide) high
  have represents := round_represents (by decide) positive Nat.one_pos normal (by omega)
  have few : double.multiple count 1 ≤ 2 ^ double.precision := multiple_le positive Nat.one_pos
  obtain ⟨zeros, last⟩ := Int.eq_ofNat_of_zero_le lastLow
  rw [binary, last, zpow_natCast] at represents
  rcases Nat.lt_or_eq_of_le few with narrow | carried
  · refine ⟨_, zeros, narrow, ?_⟩
    push_cast
    exact represents
  -- Rounding carried into a further bit, and all others are zeros.
  · refine ⟨1, 53 + zeros, by decide, ?_⟩
    rw [carried, precision] at represents
    push_cast at represents ⊢
    rwa [one_mul, pow_add]

/-- Whole seconds lead back to themselves if they have at most 53 bits and zeros after them. -/
theorem nearest?_ofNat_iff (fits : count < 2 ^ 64) :
    nearest? (double.ofNat count) = some (ofSeconds count) ↔
      ∃ significand zeros, significand < 2 ^ 53 ∧ count = significand * 2 ^ zeros := by
  constructor
  · intro found
    by_cases small : count < 2 ^ 53
    · exact ⟨count, 0, small, (Nat.mul_one count).symm⟩
    · obtain ⟨significand, zeros, narrow, represents⟩ :=
        exists_bits_of_represents (Nat.le_of_not_lt small) fits
      -- Two whole numbers of seconds less than a nanosecond apart are the same.
      have near := near_of_nearest? represents found
      refine ⟨significand, zeros, narrow, ?_⟩
      generalize significand * 2 ^ zeros = rounded at near
      rw [abs_le] at near
      simp only [ofSeconds, ofParts, perSecond, Nat.add_zero] at near
      push_cast at near
      have atMost : (count : ℚ) < rounded + 1 := by linarith
      have atLeast : (rounded : ℚ) < count + 1 := by linarith
      have atMostNat : count < rounded + 1 := by exact_mod_cast atMost
      have atLeastNat : rounded < count + 1 := by exact_mod_cast atLeast
      omega
  · rintro ⟨significand, zeros, narrow, same⟩
    have represents := represents_ofNat fits narrow same
    apply nearest?_of_near represents
    · simp only [Nat.add_zero, Nat.cast_mul, sub_self, abs_zero]
      norm_num
    · rw [secondsBound_eq, Nat.add_zero]
      exact (Nat.mul_lt_mul_right (by decide : 0 < perSecond)).mpr fits

end Duration

end CallCapture
