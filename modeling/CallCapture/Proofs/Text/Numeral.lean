import CallCapture.Text.Numeral
import CallCapture.Text.Split

/-!
The digits of a number: there is at least one, and no zero leads further digits.
-/

namespace CallCapture.Text

theorem cut_of_forall {isMark : Char → Bool} {text : List Char}
    (unmarked : ∀ c ∈ text, isMark c = false) : cut isMark text = (text, none) := by
  induction text with
  | nil => rfl
  | cons c rest ih =>
      obtain ⟨first, others⟩ := List.forall_mem_cons.mp unmarked
      simp only [cut, first, Bool.false_eq_true, if_false, ih others]

theorem cut_append {isMark : Char → Bool} {text : List Char} {mark : Char}
    (unmarked : ∀ c ∈ text, isMark c = false) (marked : isMark mark = true) (rest : List Char) :
    cut isMark (text ++ mark :: rest) = (text, some rest) := by
  induction text with
  | nil => simp only [List.nil_append, cut, marked, if_true]
  | cons c text ih =>
      obtain ⟨first, others⟩ := List.forall_mem_cons.mp unmarked
      simp only [List.cons_append, cut, first, Bool.false_eq_true, if_false, ih others]

/-- Either there is no mark, or the text is cut at the first one. -/
theorem cut_cases (isMark : Char → Bool) (text : List Char) :
    (cut isMark text = (text, none) ∧ ∀ c ∈ text, isMark c = false) ∨
      ∃ before mark after, cut isMark text = (before, some after) ∧
        text = before ++ mark :: after ∧ isMark mark = true ∧ ∀ c ∈ before, isMark c = false := by
  induction text with
  | nil => exact .inl ⟨rfl, fun _ written => absurd written List.not_mem_nil⟩
  | cons c rest ih =>
      cases marked : isMark c with
      | true =>
          refine .inr ⟨[], c, rest, ?_, rfl, marked, fun _ written => absurd written List.not_mem_nil⟩
          rw [cut, marked, if_pos rfl]
      | false =>
          rcases ih with ⟨whole, unmarked⟩ | ⟨before, mark, after, split, rfl, isMark, unmarked⟩
          · refine .inl ⟨?_, List.forall_mem_cons.mpr ⟨marked, unmarked⟩⟩
            rw [cut, marked, if_neg Bool.false_ne_true, whole]
          · refine .inr ⟨c :: before, mark, after, ?_, rfl, isMark,
              List.forall_mem_cons.mpr ⟨marked, unmarked⟩⟩
            rw [cut, marked, if_neg Bool.false_ne_true, split]

/-- The first mark and what stands before and after it are determined by the text. -/
theorem append_mark_inj {isMark : Char → Bool} {before before' after after' : List Char}
    {mark mark' : Char} (unmarked : ∀ c ∈ before, isMark c = false)
    (unmarked' : ∀ c ∈ before', isMark c = false) (marked : isMark mark = true)
    (marked' : isMark mark' = true) (same : before ++ mark :: after = before' ++ mark' :: after') :
    before = before' ∧ mark = mark' ∧ after = after' := by
  have first := cut_append unmarked marked after
  rw [same, cut_append unmarked' marked'] at first
  obtain ⟨rfl, some_after⟩ := Prod.mk.inj first
  cases some_after
  have tail := List.append_cancel_left same
  exact ⟨rfl, (List.cons.inj tail).1, rfl⟩

theorem ne_of_isDigit {digit mark : Char} (decimal : digit.isDigit = true)
    (other : mark.isDigit = false) : digit ≠ mark := by
  rintro rfl
  rw [decimal] at other
  contradiction

theorem isAlpha_iff {c : Char} :
    c.isAlpha = true ↔
      (0x41 ≤ c.toNat ∧ c.toNat ≤ 0x5A) ∨ (0x61 ≤ c.toNat ∧ c.toNat ≤ 0x7A) := by
  have ranges : c.isAlpha = (decide (0x41 ≤ c.val ∧ c.val ≤ 0x5A) ||
      (decide (0x61 ≤ c.val) && decide (c.val ≤ 0x7A))) := rfl
  rw [ranges, Bool.or_eq_true, Bool.and_eq_true, decide_eq_true_eq, decide_eq_true_eq,
    decide_eq_true_eq]
  exact Iff.rfl

theorem isDigit_of_mem_decimal {number : Nat} {digit : Char}
    (written : digit ∈ Nat.toDigits 10 number) : digit.isDigit = true :=
  Nat.isDigit_of_mem_toDigits (by decide) (by decide) written

theorem eq_zero_of_leading_zero {number : Nat}
    (leading : (Nat.toDigits 10 number).head? = some '0') : number = 0 := by
  induction number using Nat.strongRecOn with
  | ind number ih =>
      by_cases small : number < 10
      · rw [Nat.toDigits_of_lt_base small, List.head?_cons, Option.some.injEq] at leading
        have only : ∀ digit < 10, Nat.digitChar digit = '0' → digit = 0 := by decide
        exact only number small leading
      · rw [Nat.toDigits_of_base_le (by decide) (Nat.le_of_not_lt small),
          List.head?_append] at leading
        have nonempty : Nat.toDigits 10 (number / 10) ≠ [] := Nat.toDigits_ne_nil
        obtain ⟨first, rest, split⟩ := List.exists_cons_of_ne_nil nonempty
        have zero := ih (number / 10) (by omega) (by simpa [split] using leading)
        omega

end CallCapture.Text
