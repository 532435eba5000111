import CallCapture.Time.DurationText
import CallCapture.Proofs.Text.Numeral

/-!
Components of a duration: a text is read as components exactly if it is the text of such, one after
the other, and each has a number that can be read.
-/

namespace CallCapture

/-- The number and the letter of a component, as written. -/
structure Component where
  amount : List Char
  designator : Char
deriving DecidableEq, Repr

namespace Component

def text (component : Component) : List Char :=
  component.amount ++ [component.designator]

/-- A comma stands for a point. -/
def pointed (c : Char) : Char :=
  if c = ',' then '.' else c

def read? (component : Component) : Option (Decimal × Char) :=
  (Decimal.ofPlain? (component.amount.map pointed)).map (·, component.designator)

def IsAmount (c : Char) : Prop :=
  c.isDigit = true ∨ c = '.' ∨ c = ','

/-- The letter is the first one after the component's start. -/
structure Lettered (component : Component) : Prop where
  amount : ∀ c ∈ component.amount, IsAmount c
  designator : component.designator.isAlpha = true

theorem IsAmount.not_isAlpha {c : Char} (amount : IsAmount c) : c.isAlpha = false := by
  rcases amount with digit | rfl | rfl
  · have range : 0x30 ≤ c.toNat ∧ c.toNat ≤ 0x39 := Char.isDigit_iff_toNat.mp digit
    rw [Bool.eq_false_iff, Ne, Text.isAlpha_iff]
    omega
  · rfl
  · rfl

end Component

namespace Duration

open Component

theorem components_cons {number rest : List Char} {c : Char} (amount : IsAmount c) :
    components number (c :: rest) = components (number ++ [pointed c]) rest := by
  rw [components, if_neg (by rw [amount.not_isAlpha]; decide)]
  rcases amount with digit | rfl | rfl
  · have other : c ≠ ',' := Text.ne_of_isDigit digit rfl
    rw [if_pos (by rw [digit, Bool.true_or]), pointed, if_neg other]
  · rfl
  · rfl

theorem components_amount {amount : List Char} (numeral : ∀ c ∈ amount, IsAmount c)
    (number rest : List Char) :
    components number (amount ++ rest) = components (number ++ amount.map pointed) rest := by
  induction amount generalizing number with
  | nil => rw [List.nil_append, List.map_nil, List.append_nil]
  | cons c amount ih =>
      obtain ⟨first, others⟩ := List.forall_mem_cons.mp numeral
      rw [List.cons_append, components_cons first, ih others, List.map_cons, List.append_assoc,
        List.singleton_append]

theorem components_text {component : Component} (lettered : component.Lettered) (rest : List Char) :
    components [] (component.text ++ rest) =
      component.read?.bind fun pair => (components [] rest).bind fun others =>
        some (pair :: others) := by
  rw [Component.text, List.append_assoc, components_amount lettered.amount, List.singleton_append,
    components, if_pos lettered.designator, read?, List.nil_append]
  cases Decimal.ofPlain? (component.amount.map pointed) <;> rfl

/-- Components written one after the other are read as what each is read as. -/
theorem components_flatMap {written : List Component} (lettered : ∀ c ∈ written, c.Lettered) :
    components [] (written.flatMap Component.text) = written.mapM read? := by
  induction written with
  | nil => rfl
  | cons first others ih =>
      obtain ⟨head, tail⟩ := List.forall_mem_cons.mp lettered
      rw [List.flatMap_cons, components_text head, ih tail, List.mapM_cons]
      rfl

/-- What has been read belongs to components; `amount` is what has been read of the next one. -/
theorem exists_components {amount text : List Char} {pairs : List (Decimal × Char)}
    (numeral : ∀ c ∈ amount, IsAmount c) (read : components (amount.map pointed) text = some pairs) :
    ∃ written : List Component, amount ++ text = written.flatMap Component.text ∧
      (∀ c ∈ written, c.Lettered) ∧ written.mapM read? = some pairs := by
  induction text generalizing amount pairs with
  | nil =>
      rw [components] at read
      split at read
      case isTrue none =>
        rw [List.isEmpty_iff, List.map_eq_nil_iff] at none
        exact ⟨[], by rw [none]; rfl, fun _ among => absurd among List.not_mem_nil, read⟩
      case isFalse => contradiction
  | cons c rest ih =>
      -- A character of an amount is added to what has been read of it.
      have goOn (next : IsAmount c) : ∃ written : List Component,
          amount ++ c :: rest = written.flatMap Component.text ∧ (∀ c ∈ written, c.Lettered) ∧
            written.mapM read? = some pairs := by
        rw [components_cons next, ← List.map_singleton, ← List.map_append] at read
        have numeral' : ∀ c ∈ amount ++ [_], IsAmount c :=
          List.forall_mem_append.mpr ⟨numeral, List.forall_mem_singleton.mpr next⟩
        rw [← List.singleton_append, ← List.append_assoc]
        exact ih numeral' read
      by_cases letter : c.isAlpha = true
      · rw [components, if_pos letter] at read
        obtain ⟨value, number, read⟩ := Option.bind_eq_some_iff.mp read
        obtain ⟨others, following, same⟩ := Option.bind_eq_some_iff.mp read
        cases same
        obtain ⟨written, split, lettered, values⟩ := ih (List.forall_mem_nil _) following
        refine ⟨⟨amount, c⟩ :: written, ?_,
          List.forall_mem_cons.mpr ⟨⟨numeral, letter⟩, lettered⟩, ?_⟩
        · rw [List.flatMap_cons, ← split, Component.text, List.append_assoc]
          rfl
        · rw [List.mapM_cons, values, read?, number]
          rfl
      · by_cases number : c.isDigit = true ∨ c = '.' ∨ c = ','
        · exact goOn number
        · simp only [not_or] at number
          rw [components, if_neg letter, if_neg (by simp [number.1, number.2.1]),
            if_neg (by simp [number.2.2])] at read
          contradiction

theorem components_eq_some_iff {text : List Char} {pairs : List (Decimal × Char)} :
    components [] text = some pairs ↔
      ∃ written : List Component, text = written.flatMap Component.text ∧
        (∀ c ∈ written, c.Lettered) ∧ written.mapM read? = some pairs := by
  constructor
  · intro read
    exact exists_components (List.forall_mem_nil _) read
  · rintro ⟨written, rfl, lettered, values⟩
    rw [components_flatMap lettered, values]

end Duration

end CallCapture
