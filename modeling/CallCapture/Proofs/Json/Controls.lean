import CallCapture.Proofs.Json.Scanning

/-!
Printed trees hold no control characters: whatever stands in their strings, it is escaped.
-/

namespace CallCapture.JsonTree

/-- A text without control characters below the space. -/
def Visible (text : List Char) : Prop :=
  ∀ c ∈ text, 0x20 ≤ c.toNat

theorem Visible.nil : Visible [] := by
  intro c among
  cases among

theorem Visible.cons {c : Char} {rest : List Char} (first : 0x20 ≤ c.toNat)
    (others : Visible rest) : Visible (c :: rest) :=
  List.forall_mem_cons.mpr ⟨first, others⟩

/-- The condition as it is evaluated for given characters. -/
theorem Visible.of_all {text : List Char} (all : text.all (fun c => decide (0x20 ≤ c.toNat)) = true) :
    Visible text :=
  fun c among => of_decide_eq_true (List.all_eq_true.mp all c among)

theorem Visible.append {first second : List Char} (left : Visible first)
    (right : Visible second) : Visible (first ++ second) :=
  List.forall_mem_append.mpr ⟨left, right⟩

theorem Visible.of_digits {digits : List Char}
    (decimal : ∀ digit ∈ digits, digit.isDigit = true) : Visible digits := by
  intro digit among
  have first : 0x30 ≤ digit.toNat := (Char.isDigit_iff_toNat.mp (decimal digit among)).1
  omega

theorem visible_escape (c : Char) : Visible (escape c) := by
  unfold escape
  repeat' split
  case isFalse.isFalse.isFalse.isFalse.isFalse.isFalse.isFalse.isTrue control =>
    have hex := (JsonToken.hexPadded_code (Nat.lt_trans control (by decide : 0x20 < 0x100))).2.1
    apply Visible.cons (by decide)
    apply Visible.cons (by decide)
    intro digit among
    have first := (JsonToken.toNat_of_hexValue? (hex digit among)).1
    omega
  case isFalse.isFalse.isFalse.isFalse.isFalse.isFalse.isFalse.isFalse visible =>
    exact .cons (Nat.le_of_not_lt visible) .nil
  all_goals exact .of_all rfl

theorem visible_quoteOption (text : Option String) : Visible (quoteOption text) := by
  apply Visible.cons (by decide)
  apply Visible.append _ (Visible.cons (by decide) .nil)
  intro c among
  obtain ⟨original, _, escaped⟩ := List.mem_flatMap.mp among
  exact visible_escape original c escaped

theorem visible_moreItems {items : List JsonTree} (each : ∀ item ∈ items, Visible item.chars) :
    Visible (moreItems items) := by
  induction items with
  | nil => exact .nil
  | cons item rest ih =>
      obtain ⟨first, others⟩ := List.forall_mem_cons.mp each
      rw [moreItems]
      exact .cons (by decide) (first.append (ih others))

theorem visible_moreFields {fields : List (Option String × JsonTree)}
    (each : ∀ field ∈ fields, Visible field.2.chars) : Visible (moreFields fields) := by
  induction fields with
  | nil => exact .nil
  | cons field rest ih =>
      obtain ⟨first, others⟩ := List.forall_mem_cons.mp each
      rw [moreFields]
      apply Visible.cons (by decide)
      apply (visible_quoteOption field.1).append
      exact .cons (by decide) (first.append (ih others))

theorem Legible.visible {tree : JsonTree} (legible : tree.Legible) : Visible tree.chars := by
  induction legible with
  | null => exact .of_all rfl
  | bool value => cases value <;> exact .of_all rfl
  | natural value => exact .of_digits fun _ => Text.isDigit_of_mem_decimal
  | text value => exact visible_quoteOption (some value)
  | @array items legible ih =>
      cases items with
      | nil => exact .of_all rfl
      | cons item rest =>
          obtain ⟨first, others⟩ := List.forall_mem_cons.mp ih
          rw [chars]
          apply Visible.cons (by decide)
          exact first.append ((visible_moreItems others).append (.cons (by decide) .nil))
  | @object fields named legible ih =>
      cases fields with
      | nil => exact .of_all rfl
      | cons field rest =>
          obtain ⟨first, others⟩ := List.forall_mem_cons.mp ih
          rw [chars]
          apply Visible.cons (by decide)
          apply (visible_quoteOption field.1).append
          apply Visible.cons (by decide)
          exact first.append ((visible_moreFields others).append (.cons (by decide) .nil))

/-- No byte of a printed tree is that of a control character. -/
theorem Legible.visible_print {tree : JsonTree} (legible : tree.Legible) :
    ∀ byte ∈ Utf8.encode tree.print, 0x20 ≤ byte.toNat := by
  intro byte among
  rw [print, Utf8.encode_ofList] at among
  obtain ⟨c, written, encoded⟩ := List.mem_flatMap.mp among
  exact Utf8.visible_bytes (legible.visible c written) byte encoded

end CallCapture.JsonTree
