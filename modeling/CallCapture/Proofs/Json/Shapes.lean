import CallCapture.Json.Fields
import CallCapture.Proofs.Json.Scanning
import CallCapture.Proofs.Text.Positional

/-!
Records, lists and numbers as trees: they are legible if what they hold is, and reading them gives
what they hold.
-/

namespace CallCapture.JsonTree

theorem Legible.texts (values : List String) : (JsonTree.texts values).Legible := by
  apply Legible.array
  intro item member
  obtain ⟨value, _, same⟩ := List.mem_map.mp member
  rw [← same]
  exact .text value

theorem Legible.record {fields : List (String × JsonTree)}
    (legible : ∀ field ∈ fields, field.2.Legible) : (JsonTree.record fields).Legible := by
  apply Legible.object
  · intro field member
    obtain ⟨named, _, same⟩ := List.mem_map.mp member
    rw [← same]
    rfl
  · intro field member
    obtain ⟨named, inside, same⟩ := List.mem_map.mp member
    rw [← same]
    exact legible named inside

/-- A list is read back if each of its items is. -/
theorem list?_map {α : Type} {item? : JsonTree → Option α} {toTree : α → JsonTree}
    (reads : ∀ value, item? (toTree value) = some value) (values : List α) :
    list? item? (.array (values.map toTree)) = some values := by
  rw [list?]
  induction values with
  | nil => rfl
  | cons value rest ih =>
      simp only [List.map_cons, List.mapM_cons, reads value, ih, bind, Option.bind_some, pure]

theorem text?_text (value : String) : text? (text value) = some value := rfl

theorem list?_texts (values : List String) : list? text? (texts values) = some values :=
  list?_map text?_text values

theorem natural?_natural {value : Nat} (fits : value < JsonNumber.wordBound) :
    natural? (natural value) = some value := by
  have read : ofDigits (JsonNumber.ofNat value).whole = value := ofDigits_toDigits value
  have small : decide (JsonNumber.wordBound ≤ value) = false :=
    decide_eq_false (Nat.not_le_of_lt fits)
  simp only [natural, natural?, JsonNumber.natural?, read, small]
  rfl

theorem filter_absent {fields : List (String × JsonTree)} {name : String}
    (absent : name ∉ fields.map (·.1)) :
    (fields.map fun field => (some field.1, field.2)).filter (·.1 == some name) = [] := by
  apply List.filter_eq_nil_iff.mpr
  intro field member found
  obtain ⟨named, inside, same⟩ := List.mem_map.mp member
  subst same
  have matched : named.1 = name := by simpa using found
  exact absent (List.mem_map.mpr ⟨named, inside, matched⟩)

/-- The value of a field of a record whose names are distinct. -/
theorem lookup_record {fields : List (String × JsonTree)} (distinct : (fields.map (·.1)).Nodup)
    (name : String) :
    lookup (fields.map fun field => (some field.1, field.2)) name = some (fields.lookup name) := by
  induction fields with
  | nil => rfl
  | cons field rest ih =>
      obtain ⟨key, value⟩ := field
      rw [List.map_cons, List.nodup_cons] at distinct
      by_cases found : key = name
      · subst found
        have others := filter_absent distinct.1
        simp [lookup, others]
      · have missed : (name == key) = false := beq_false_of_ne (Ne.symm found)
        have passed : (some key == some name) = false := by simpa using found
        have tail := ih distinct.2
        simp only [lookup, List.map_cons, List.filter_cons, passed, Bool.false_eq_true, if_false,
          List.lookup_cons, missed] at tail ⊢
        exact tail

theorem slots_record {fields : List (String × JsonTree)} (distinct : (fields.map (·.1)).Nodup)
    (names : List String) :
    (record fields).slots names = some (names.map fun name => fields.lookup name) := by
  have named : (fields.map fun field => (some field.1, field.2)).all (·.1.isSome) = true := by
    simp
  simp only [record, slots, named, if_true]
  induction names with
  | nil => rfl
  | cons name rest ih =>
      simp only [List.mapM_cons, lookup_record distinct name, ih, bind, Option.bind_some, pure,
        List.map_cons]

end CallCapture.JsonTree
