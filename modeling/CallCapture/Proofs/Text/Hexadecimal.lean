import CallCapture.Json.Token
import CallCapture.Text.Numeral

/-!
Characters given by their number in four hexadecimal digits. The digits determine the number, and
none of them is a mark of quoted text.
-/

namespace CallCapture.JsonToken

theorem hexPadded_code {code : Nat} (narrow : code < 0x100) :
    (Text.hexPadded 4 code).length = 4 ∧
      (∀ digit ∈ Text.hexPadded 4 code, (hexValue? digit).isSome = true) ∧
      hexNumber (Text.hexPadded 4 code) = code := by
  have each : (List.range 0x100).all (fun code => (Text.hexPadded 4 code).length == 4 &&
      (Text.hexPadded 4 code).all (fun digit => (hexValue? digit).isSome) &&
      hexNumber (Text.hexPadded 4 code) == code) = true := by decide +kernel
  have checked := List.all_eq_true.mp each code (List.mem_range.mpr narrow)
  simp only [Bool.and_eq_true, beq_iff_eq, List.all_eq_true] at checked
  exact ⟨checked.1.1, checked.1.2, checked.2⟩

/-- Digits and letters, which leaves out the backslash between upper and lower case. -/
theorem toNat_of_hexValue? {digit : Char} (hex : (hexValue? digit).isSome = true) :
    0x30 ≤ digit.toNat ∧ digit.toNat < 0x67 ∧ digit.toNat ≠ 0x5C := by
  unfold hexValue? at hex
  split at hex
  case isTrue decimal =>
    obtain ⟨first, last⟩ := Char.isDigit_iff_toNat.mp decimal
    have zero : 0x30 ≤ digit.toNat := first
    have nine : digit.toNat ≤ 0x39 := last
    omega
  case isFalse =>
    split at hex
    case isTrue lower =>
      have first : 0x61 ≤ digit.toNat := lower.1
      have last : digit.toNat ≤ 0x66 := lower.2
      omega
    case isFalse =>
      split at hex
      case isTrue upper =>
        have first : 0x41 ≤ digit.toNat := upper.1
        have last : digit.toNat ≤ 0x46 := upper.2
        omega
      case isFalse => contradiction

end CallCapture.JsonToken
