import CallCapture.Proofs.Number.Decimals

/-!
The shortest decimal of a value reads back as the value: what is printed lies among the numbers that
round to it, and seventeen digits always find such a decimal.
-/

namespace CallCapture

/-! ### Grids of powers of ten -/

/-- A power of ten as a fraction. -/
def gridUnit (grid : Int) : Nat × Nat :=
  (if 0 ≤ grid then Nat.pow 10 grid.toNat else 1, if 0 ≤ grid then 1 else Nat.pow 10 (-grid).toNat)

theorem gridUnit_pos (grid : Int) : 0 < (gridUnit grid).1 ∧ 0 < (gridUnit grid).2 := by
  unfold gridUnit
  split
  · exact ⟨Nat.pow_pos (by decide), Nat.one_pos⟩
  · exact ⟨Nat.one_pos, Nat.pow_pos (by decide)⟩

theorem quotient_gridUnit (count : Nat) (grid : Int) :
    quotient (count * (gridUnit grid).1) (gridUnit grid).2 = count * 10 ^ grid := by
  unfold gridUnit quotient
  by_cases whole : 0 ≤ grid
  · obtain ⟨power, rfl⟩ := Int.eq_ofNat_of_zero_le whole
    simp only [whole, if_true, Int.toNat_natCast, Nat.pow_eq, Nat.cast_mul, Nat.cast_pow,
      Nat.cast_ofNat, Nat.cast_one, div_one, zpow_natCast]
  · obtain ⟨power, opposite⟩ := Int.eq_ofNat_of_zero_le (by omega : 0 ≤ -grid)
    have same : grid = -(power : Int) := by omega
    subst same
    simp only [whole, if_false, neg_neg, Int.toNat_natCast, Nat.pow_eq, mul_one, Nat.cast_pow,
      Nat.cast_ofNat, zpow_neg, zpow_natCast, div_eq_mul_inv]

namespace RoundingInterval

/-- The number of steps of the grid below the value. -/
def stepsBelow (interval : RoundingInterval) (grid : Int) : Nat :=
  interval.value * (gridUnit grid).2 / ((gridUnit grid).1 * interval.denominator)

/-- A number of steps whose end lies in the interval. -/
def HoldsSteps (interval : RoundingInterval) (grid : Int) (count : Nat) : Prop :=
  interval.holds (gridUnit grid).1 (gridUnit grid).2 count = true

/-- If both neighbours are in the interval, one of them is taken, and if one is, that one. -/
theorem nearestOnGrid_eq (interval : RoundingInterval) (grid : Int) :
    ∃ nearer, (nearer = interval.stepsBelow grid ∨ nearer = interval.stepsBelow grid + 1) ∧
      interval.nearestOnGrid grid =
        match interval.holds (gridUnit grid).1 (gridUnit grid).2 (interval.stepsBelow grid),
          interval.holds (gridUnit grid).1 (gridUnit grid).2 (interval.stepsBelow grid + 1) with
        | true, true => some nearer
        | true, false => some (interval.stepsBelow grid)
        | false, true => some (interval.stepsBelow grid + 1)
        | false, false => none := by
  let step := (gridUnit grid).1 * interval.denominator
  let rest := interval.value * (gridUnit grid).2 % step
  refine ⟨if 2 * rest < step then interval.stepsBelow grid else interval.stepsBelow grid + 1, ?_, rfl⟩
  split
  · exact .inl rfl
  · exact .inr rfl

theorem holdsSteps_of_nearestOnGrid {interval : RoundingInterval} {grid : Int} {digits : Nat}
    (found : interval.nearestOnGrid grid = some digits) : interval.HoldsSteps grid digits := by
  obtain ⟨nearer, neighbour, equation⟩ := nearestOnGrid_eq interval grid
  rw [equation] at found
  unfold HoldsSteps
  split at found
  case h_1 low high =>
    cases found
    rcases neighbour with rfl | rfl
    · exact low
    · exact high
  case h_2 low high =>
    cases found
    exact low
  case h_3 low high =>
    cases found
    exact high
  case h_4 => cases found

theorem exists_nearestOnGrid_of_holds {interval : RoundingInterval} {grid : Int}
    (holds : interval.HoldsSteps grid (interval.stepsBelow grid) ∨
      interval.HoldsSteps grid (interval.stepsBelow grid + 1)) :
    ∃ digits, interval.nearestOnGrid grid = some digits := by
  obtain ⟨nearer, _, equation⟩ := nearestOnGrid_eq interval grid
  rw [equation]
  unfold HoldsSteps at holds
  split
  case h_4 low high =>
    rw [low, high] at holds
    rcases holds with impossible | impossible <;> cases impossible
  all_goals exact ⟨_, rfl⟩

end RoundingInterval

namespace BinaryFormat

open RoundingInterval

variable {format : BinaryFormat} {significand : Nat} {exponent : Int}

/-! ### The interval of a value -/

/-- The reach in quarters. -/
theorem exists_quarters (format : BinaryFormat) (significand : Nat) (exponent : Int) :
    ∃ quarters : Nat, quarters ≤ 2 ∧ format.reach significand exponent = quarters / 4 ∧
      (format.roundingInterval significand exponent).lower =
        (4 * significand - quarters) * (scaleByTwo 1 4 exponent).1 := by
  let unit := (scaleByTwo 1 4 exponent).1
  by_cases power : significand = 2 ^ (format.precision - 1) ∧ format.minExponent < exponent
  · refine ⟨1, by decide, ?_, congrArg (fun below => (4 * significand - below) * unit) (if_pos power)⟩
    rw [reach, if_pos power]
    norm_num
  · refine ⟨2, by decide, ?_, congrArg (fun below => (4 * significand - below) * unit) (if_neg power)⟩
    rw [reach, if_neg power]
    norm_num

/-- The ends of the interval and the value, over the common denominator. -/
theorem roundingInterval_quotients (format : BinaryFormat) (exponent : Int)
    (positive : 0 < significand) :
    let interval := format.roundingInterval significand exponent
    0 < interval.denominator ∧
      quotient interval.lower interval.denominator =
        (significand - format.reach significand exponent) * 2 ^ exponent ∧
      quotient interval.value interval.denominator = binary significand exponent ∧
      quotient interval.upper interval.denominator = (significand + 1 / 2) * 2 ^ exponent := by
  have scaled := quotient_scaleByTwo 1 4 exponent
  obtain ⟨_, denPos⟩ := scaleByTwo_pos (by decide : 0 < 1) (by decide : 0 < 4) exponent
  obtain ⟨quarters, few, reach, lower⟩ := exists_quarters format significand exponent
  have whole : quotient 1 4 * 2 ^ exponent = 2 ^ exponent / 4 := by
    rw [quotient]
    push_cast
    ring
  -- Every end is a number of quarters of the last bit.
  have end_eq (count : Nat) : quotient (count * (scaleByTwo 1 4 exponent).1)
      (scaleByTwo 1 4 exponent).2 = count / 4 * 2 ^ exponent := by
    rw [quotient, Nat.cast_mul, mul_div_assoc, ← quotient, scaled, whole]
    ring
  refine ⟨denPos, ?_, ?_, ?_⟩
  · rw [lower, reach]
    refine (end_eq _).trans ?_
    rw [Nat.cast_sub (by omega)]
    push_cast
    ring
  · refine (end_eq (4 * significand)).trans ?_
    rw [binary]
    push_cast
    ring
  · refine (end_eq (4 * significand + 2)).trans ?_
    push_cast
    ring

/-- The interval holds just the numbers that the value attracts. -/
theorem holds_iff (positive : 0 < significand) {num den count : Nat} (denPos : 0 < den) :
    (format.roundingInterval significand exponent).holds num den count = true ↔
      format.Attracts significand exponent (quotient (count * num) den) := by
  obtain ⟨commonPos, lower, _, upper⟩ :=
    roundingInterval_quotients format exponent positive
  have closed : (format.roundingInterval significand exponent).closed =
      (significand % 2 == 0) := rfl
  generalize format.roundingInterval significand exponent = interval at *
  unfold RoundingInterval.holds
  by_cases even : significand % 2 = 0
  · rw [closed, if_pos (by simpa using even), decide_eq_true_eq,
      ← quotient_le_quotient_iff commonPos denPos, ← quotient_le_quotient_iff denPos commonPos,
      lower, upper]
    exact ⟨fun ends => ⟨ends.1, ends.2, fun _ => even⟩, fun attracts => ⟨attracts.1, attracts.2⟩⟩
  · rw [closed, if_neg (by simpa using even), decide_eq_true_eq,
      ← quotient_lt_quotient_iff commonPos denPos, ← quotient_lt_quotient_iff denPos commonPos,
      lower, upper]
    constructor
    · intro ends
      refine ⟨ends.1.le, ends.2.le, ?_⟩
      rintro (atLower | atUpper)
      · exact absurd atLower ends.1.ne'
      · exact absurd atUpper ends.2.ne
    · intro attracts
      refine ⟨lt_of_le_of_ne attracts.lower ?_, lt_of_le_of_ne attracts.upper ?_⟩
      · intro same
        exact even (attracts.ends (.inl same.symm))
      · intro same
        exact even (attracts.ends (.inr same))

/-! ### Decimals in the interval -/

theorem holdsSteps_iff (positive : 0 < significand) (grid : Int) (count : Nat) :
    (format.roundingInterval significand exponent).HoldsSteps grid count ↔
      format.Attracts significand exponent (count * 10 ^ grid) := by
  rw [HoldsSteps, holds_iff positive (gridUnit_pos grid).2, quotient_gridUnit]

/-- The value lies between two neighbours on the grid. -/
theorem stepsBelow_spec (format : BinaryFormat) (exponent : Int) (positive : 0 < significand)
    (grid : Int) :
    let below := (format.roundingInterval significand exponent).stepsBelow grid
    (below : ℚ) * 10 ^ grid ≤ binary significand exponent ∧
      binary significand exponent < ((below + 1 : Nat) : ℚ) * 10 ^ grid := by
  obtain ⟨commonPos, _, value, _⟩ :=
    roundingInterval_quotients format exponent positive
  obtain ⟨numPos, denPos⟩ := gridUnit_pos grid
  dsimp only
  rw [← value, ← quotient_gridUnit, ← quotient_gridUnit, quotient_le_quotient_iff denPos commonPos,
    quotient_lt_quotient_iff commonPos denPos, Nat.mul_assoc, Nat.mul_assoc]
  constructor
  · exact Nat.div_mul_le_self _ _
  · rw [Nat.mul_comm (_ + 1)]
    exact Nat.lt_mul_div_succ _ (Nat.mul_pos numPos commonPos)

/-- Half a step of the grid is within reach of the value. -/
theorem half_step_within (canonical : format.Canonical significand exponent)
    (precise : 0 < format.precision) (small : format.precision ≤ 53) {grid : Int}
    (fine : (10 : ℚ) ^ grid * 10 ^ 16 ≤ binary significand exponent) :
    (10 : ℚ) ^ grid / 2 < format.reach significand exponent * 2 ^ exponent := by
  have scale := two_zpow_pos exponent
  have step := ten_zpow_pos grid
  have power : (2 : ℚ) ^ (format.precision - 1) ≤ 2 ^ 52 :=
    pow_le_pow_right₀ (by norm_num) (by omega)
  have doubled : (2 : ℚ) ^ format.precision = 2 * 2 ^ (format.precision - 1) := by
    rw [← pow_succ', Nat.sub_add_cancel precise]
  have narrow : (significand : ℚ) < 2 ^ format.precision := by exact_mod_cast canonical.narrow
  unfold binary at fine
  unfold reach
  split
  -- At a power of two the reach downward is halved, and so is the bound on the value.
  case isTrue atPower =>
    have same : (significand : ℚ) = 2 ^ (format.precision - 1) := by exact_mod_cast atPower.1
    have bound : (significand : ℚ) * 2 ^ exponent ≤ 2 ^ 52 * 2 ^ exponent := by
      rw [same]
      exact mul_le_mul_of_nonneg_right power scale.le
    linarith
  case isFalse =>
    have bound : (significand : ℚ) * 2 ^ exponent ≤ 2 * 2 ^ 52 * 2 ^ exponent := by
      apply mul_le_mul_of_nonneg_right _ scale.le
      linarith
    linarith

/-- On a grid of seventeen digits the nearer neighbour of a value lies in its interval. -/
theorem exists_nearestOnGrid (canonical : format.Canonical significand exponent)
    (precise : 0 < format.precision) (small : format.precision ≤ 53) {grid : Int}
    (fine : (10 : ℚ) ^ grid * 10 ^ 16 ≤ binary significand exponent) :
    ∃ digits, (format.roundingInterval significand exponent).nearestOnGrid grid = some digits := by
  have scale := two_zpow_pos exponent
  have within := half_step_within canonical precise small fine
  have reach := mul_le_mul_of_nonneg_right
    (reach_le_half format significand exponent) scale.le
  obtain ⟨atMost, above⟩ := stepsBelow_spec format exponent
    canonical.pos grid
  apply exists_nearestOnGrid_of_holds
  rw [holdsSteps_iff canonical.pos, holdsSteps_iff canonical.pos]
  generalize stepsBelow _ _ = below at *
  unfold binary at atMost above
  push_cast at above ⊢
  by_cases nearer : (significand : ℚ) * 2 ^ exponent - below * 10 ^ grid ≤ 10 ^ grid / 2
  · left
    refine ⟨by linarith, by linarith, ?_⟩
    rintro (lower | upper) <;> linarith
  · right
    refine ⟨by linarith, by linarith, ?_⟩
    rintro (lower | upper) <;> linarith

/-! ### The shortest decimal -/

/-- No more than the value: a power of ten below it. -/
theorem ten_zpow_decimalExponent_le {interval : RoundingInterval} (valuePos : 0 < interval.value)
    (commonPos : 0 < interval.denominator) :
    (10 : ℚ) ^ interval.decimalExponent ≤ quotient interval.value interval.denominator := by
  have commonQ : (0 : ℚ) < interval.denominator := by exact_mod_cast commonPos
  unfold RoundingInterval.decimalExponent
  split
  case isTrue large =>
    have wholePos := Nat.div_pos large commonPos
    have length := decimalLength_pos wholePos
    have power : 10 ^ (decimalLength (interval.value / interval.denominator) - 1) *
        interval.denominator ≤ interval.value :=
      (Nat.le_div_iff_mul_le commonPos).mp (ten_pow_le_of_decimalLength wholePos)
    have same : ((decimalLength (interval.value / interval.denominator) : Nat) : Int) - 1 =
        (decimalLength (interval.value / interval.denominator) - 1 : Nat) := by omega
    rw [same, zpow_natCast, quotient, le_div_iff₀ commonQ]
    exact_mod_cast power
  case isFalse small =>
    have enough := lt_ten_pow_decimalLength ((interval.denominator - 1) / interval.value)
    rw [Nat.div_lt_iff_lt_mul valuePos] at enough
    have power : interval.denominator ≤
        interval.value * 10 ^ decimalLength ((interval.denominator - 1) / interval.value) := by
      rw [Nat.mul_comm]
      omega
    rw [zpow_neg, zpow_natCast, quotient, le_div_iff₀ commonQ, inv_mul_le_iff₀ (by positivity),
      mul_comm]
    exact_mod_cast power

/-- Up to a carry the shortest decimal is a number of steps of its grid. -/
theorem value_of_carry (digits more : Nat) (leading : Int) :
    (if digits = Nat.pow 10 (more + 1) then (⟨1, leading + 1⟩ : Decimal)
      else ⟨digits, leading - more⟩).value = digits * 10 ^ (leading - (more : Int)) := by
  split
  case isTrue carried =>
    have power : (digits : ℚ) = 10 ^ (more + 1) := by
      rw [carried]
      exact_mod_cast rfl
    have split : leading + 1 = (leading - (more : Int)) + (more + 1 : Nat) := by
      push_cast
      omega
    rw [Decimal.value, power, split, zpow_add₀ (by norm_num), zpow_natCast]
    push_cast
    ring
  case isFalse => rfl

/-- The shortest decimal of a value rounds to it. -/
theorem shortest_attracts (canonical : format.Canonical significand exponent)
    (precise : 0 < format.precision) (small : format.precision ≤ 53) :
    format.Attracts significand exponent (format.shortest significand exponent).value := by
  obtain ⟨commonPos, _, value, _⟩ :=
    roundingInterval_quotients format exponent canonical.pos
  have found (grid : Int) (digits : Nat)
      (taken : (format.roundingInterval significand exponent).nearestOnGrid grid = some digits) :=
    holdsSteps_of_nearestOnGrid taken
  have exists_found (grid : Int) (fine : (10 : ℚ) ^ grid * 10 ^ 16 ≤ binary significand exponent) :=
    exists_nearestOnGrid canonical precise small fine
  simp only [holdsSteps_iff canonical.pos] at found
  rw [shortest, if_neg canonical.pos.ne', RoundingInterval.shortest]
  generalize format.roundingInterval significand exponent = interval at *
  have valuePos : 0 < interval.value := by
    have positive : 0 < quotient interval.value interval.denominator := by
      rw [value, binary]
      exact mul_pos (by exact_mod_cast canonical.pos) (two_zpow_pos exponent)
    rw [quotient, div_pos_iff_of_pos_right (by exact_mod_cast commonPos)] at positive
    exact_mod_cast positive
  have leading := ten_zpow_decimalExponent_le valuePos commonPos
  rw [value] at leading
  cases tried : (List.range 17).findSome? fun (more : Nat) =>
    (interval.nearestOnGrid (interval.decimalExponent - more)).map fun digits =>
      if digits = Nat.pow 10 (more + 1) then (⟨1, interval.decimalExponent + 1⟩ : Decimal)
      else ⟨digits, interval.decimalExponent - more⟩ with
  | some decimal =>
      obtain ⟨more, _, taken⟩ := List.exists_of_findSome?_eq_some tried
      obtain ⟨digits, onGrid, rfl⟩ := Option.map_eq_some_iff.mp taken
      rw [Option.getD_some, value_of_carry]
      exact found _ _ onGrid
  | none =>
      have last := List.findSome?_eq_none_iff.mp tried 16 (by decide)
      obtain ⟨digits, onGrid⟩ := exists_found (interval.decimalExponent - (16 : Nat)) (by
        rw [← zpow_natCast, ← zpow_add₀ (by norm_num)]
        simpa using leading)
      rw [onGrid] at last
      cases last

end BinaryFormat

end CallCapture
