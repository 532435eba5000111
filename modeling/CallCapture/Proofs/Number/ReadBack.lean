import CallCapture.Proofs.Number.Shortest
import CallCapture.Proofs.Text.Positional

/-!
Texts of doubles and of whole numbers, read back as doubles.
-/

namespace CallCapture

theorem Decimal.value_placed (decimal : Decimal) : decimal.placed.value = decimal.value := by
  unfold placed
  split
  case isTrue whole =>
    obtain ⟨count, opposite⟩ := Int.eq_ofNat_of_zero_le whole
    simp only [value, opposite, Int.toNat_natCast, Nat.pow_eq, Nat.cast_mul, Nat.cast_pow,
      Nat.cast_ofNat, zpow_zero, mul_one, zpow_natCast]
  case isFalse => rfl

namespace BinaryFormat

variable {format : BinaryFormat} {magnitude : Magnitude} {number : ℚ}

theorem Represents.mem_text (represents : format.Represents magnitude number) {c : Char}
    (written : c ∈ (format.text magnitude).toList) : c.isDigit = true ∨ c = '.' := by
  obtain ⟨significand, exponent, rfl, _⟩ := represents.exists_fraction
  exact Decimal.mem_positional written

/-- The text of a double is read as that double. -/
theorem Represents.ofPlain?_text (represents : double.Represents magnitude number) :
    ∃ read, Decimal.ofPlain? (double.text magnitude).toList = some read ∧
      read.toDouble = magnitude := by
  cases represents with
  | zero => exact ⟨_, Decimal.ofPlain?_positional ⟨0, 0⟩, rfl⟩
  | positive canonical =>
      refine ⟨_, Decimal.ofPlain?_positional _, ?_⟩
      apply ofDecimal_of_attracts canonical
      rw [Decimal.value_placed]
      exact shortest_attracts canonical (by decide) (by decide)

/-- A whole number is read as the double nearest to it. -/
theorem ofPlain?_toString {number : Nat} (small : number < 10 ^ 20) :
    ∃ read, Decimal.ofPlain? (toString number).toList = some read ∧
      read.toDouble = double.ofNat number := by
  rw [Nat.toString_eq_repr, Nat.toList_repr]
  refine ⟨_, Decimal.ofPlain?_natural number, ?_⟩
  have length : decimalLength number ≤ 20 := by
    unfold decimalLength
    split
    · decide
    · exact (Nat.length_toDigits_le_iff (by decide) (by decide)).mpr small
  unfold Decimal.toDouble ofDecimal ofNat
  dsimp only
  by_cases zero : number = 0
  · rw [if_pos (.inl zero), zero, round_zero]
  · rw [if_neg (by omega), if_neg (by omega), if_pos le_rfl]
    exact congrArg (double.round · 1) (Nat.mul_one number)

/-! ### Neutral operands -/

theorem represents_one : double.Represents (double.ofNat 1) 1 := by
  have canonical : double.Canonical (2 ^ 52) (-52) :=
    ⟨by decide, by decide, by decide, by decide, .inl le_rfl⟩
  have represents := Represents.positive canonical
  have one : binary (2 ^ 52) (-52) = 1 := by norm_num [binary]
  rw [one] at represents
  exact represents

theorem Represents.mul_ofNat_one (represents : double.Represents magnitude number) :
    double.mul magnitude (double.ofNat 1) = magnitude := by
  obtain ⟨num, den, denPos, product, rounds⟩ := represents.mul_eq represents_one
  rw [mul_one] at product
  rw [rounds, represents.round_eq (by decide) denPos product]

theorem Represents.zero_add_eq (precise : 0 < format.precision)
    (represents : format.Represents magnitude number) :
    format.add .zero magnitude = magnitude := by
  obtain ⟨num, den, denPos, sum, rounds⟩ := Represents.zero.add_eq represents
  rw [zero_add] at sum
  rw [rounds, represents.round_eq precise denPos sum]

theorem Represents.add_zero_eq (precise : 0 < format.precision)
    (represents : format.Represents magnitude number) :
    format.add magnitude .zero = magnitude := by
  obtain ⟨num, den, denPos, sum, rounds⟩ := represents.add_eq Represents.zero
  rw [add_zero] at sum
  rw [rounds, represents.round_eq precise denPos sum]

end BinaryFormat

end CallCapture
