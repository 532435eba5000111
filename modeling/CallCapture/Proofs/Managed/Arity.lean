import CallCapture.Managed.Name
import CallCapture.Proofs.Text.Plain

/-!
Which names lose an arity. It is the last grave accent that counts, with what follows it: decimal
digits, or nothing at all.
-/

namespace CallCapture.Name

variable {base tail name : List Char}

theorem ne_mark (unmarked : '\x60' ∉ tail) : ∀ c ∈ tail, (c != '\x60') = true :=
  fun _ among => bne_iff_ne.mpr (ne_of_mem_of_not_mem among unmarked)

theorem takeWhile_unmarked (unmarked : '\x60' ∉ tail) : tail.takeWhile (· != '\x60') = tail := by
  rw [← List.append_nil tail, List.takeWhile_append_of_pos (ne_mark unmarked), List.takeWhile_nil]

theorem takeWhile_mark (unmarked : '\x60' ∉ tail) (rest : List Char) :
    (tail ++ '\x60' :: rest).takeWhile (· != '\x60') = tail := by
  rw [List.takeWhile_append_of_pos (ne_mark unmarked)]
  exact List.append_nil tail

theorem afterLastMark_append (unmarked : '\x60' ∉ tail) (base : List Char) :
    afterLastMark (base ++ '\x60' :: tail) = tail := by
  have backwards : (base ++ '\x60' :: tail).reverse = tail.reverse ++ '\x60' :: base.reverse := by
    rw [List.reverse_append, List.reverse_cons, List.append_assoc, List.singleton_append]
  rw [afterLastMark, backwards, takeWhile_mark (mt List.mem_reverse.mp unmarked),
    List.reverse_reverse]

theorem afterLastMark_of_unmarked (unmarked : '\x60' ∉ name) : afterLastMark name = name := by
  rw [afterLastMark, takeWhile_unmarked (mt List.mem_reverse.mp unmarked), List.reverse_reverse]

/-- Either there is no mark, or there is a last one. -/
theorem mark_cases (name : List Char) :
    '\x60' ∉ name ∨ ∃ base tail, name = base ++ '\x60' :: tail ∧ '\x60' ∉ tail := by
  by_cases marked : '\x60' ∈ name
  · obtain ⟨after, before, split, unmarked⟩ :=
      List.eq_append_cons_of_mem (List.mem_reverse.mpr marked)
    refine .inr ⟨before.reverse, after.reverse, ?_, fun among => unmarked (List.mem_reverse.mp among)⟩
    rw [← List.reverse_reverse name, split, List.reverse_append, List.reverse_cons,
      List.append_assoc, List.singleton_append]
  · exact .inl marked

theorem dropArity_of_unmarked (unmarked : '\x60' ∉ name) : dropArity name = name := by
  simp only [dropArity, afterLastMark_of_unmarked unmarked, Nat.lt_irrefl, decide_false,
    Bool.false_and, Bool.false_eq_true, if_false]

theorem dropArity_append (unmarked : '\x60' ∉ tail) (base : List Char) :
    dropArity (base ++ '\x60' :: tail) =
      if tail.all Char.isDigit then base else base ++ '\x60' :: tail := by
  have shorter : tail.length < (base ++ '\x60' :: tail).length := by
    rw [List.length_append, List.length_cons]
    omega
  have rest : (base ++ '\x60' :: tail).length - tail.length - 1 = base.length := by
    rw [List.length_append, List.length_cons]
    omega
  simp only [dropArity, afterLastMark_append unmarked, shorter, decide_true, Bool.true_and, rest,
    List.take_left]

theorem unmarked_of_digits (decimal : ∀ c ∈ tail, c.isDigit = true) : '\x60' ∉ tail :=
  fun among => absurd (decimal _ among) (by decide)

theorem dropArity_digits (decimal : ∀ c ∈ tail, c.isDigit = true) (base : List Char) :
    dropArity (base ++ '\x60' :: tail) = base := by
  rw [dropArity_append (unmarked_of_digits decimal), if_pos (List.all_eq_true.mpr decimal)]

theorem dropArity_ne_self_iff :
    dropArity name ≠ name ↔
      ∃ base digits, (∀ c ∈ digits, c.isDigit = true) ∧ name = base ++ '\x60' :: digits := by
  constructor
  · intro changed
    rcases mark_cases name with unmarked | ⟨base, tail, rfl, unmarked⟩
    · exact absurd (dropArity_of_unmarked unmarked) changed
    · rw [dropArity_append unmarked] at changed
      split at changed
      case isTrue decimal => exact ⟨base, tail, List.all_eq_true.mp decimal, rfl⟩
      case isFalse => contradiction
  · rintro ⟨base, digits, decimal, rfl⟩
    rw [dropArity_digits decimal]
    intro same
    exact List.cons_ne_nil _ _ (List.self_eq_append_right.mp same)

/-- The name is the base and an arity: a grave accent and one decimal digit at least. -/
def WithArity (name base : String) : Prop :=
  ∃ digits, Text.Digits digits ∧ name.toList = base.toList ++ '\x60' :: digits

/-- The name is the base and a grave accent without digits. -/
def WithBareMark (name base : String) : Prop :=
  name.toList = base.toList ++ ['\x60']

/-- The last character is a digit in one case and the accent in the other. -/
theorem WithBareMark.not_withArity {name base other : String} (bare : WithBareMark name base) :
    ¬ WithArity name other := by
  rintro ⟨digits, decimal, marked⟩
  have last := List.dropLast_concat_getLast decimal.nonempty
  have ends : base.toList ++ ['\x60'] =
      (other.toList ++ '\x60' :: digits.dropLast) ++ [digits.getLast decimal.nonempty] := by
    rw [← bare, marked, List.append_assoc, List.cons_append, last]
  have accent := List.singleton_inj.mp (List.append_inj_right' ends rfl)
  have digit := decimal.decimal _ (List.getLast_mem decimal.nonempty)
  rw [← accent] at digit
  contradiction

theorem stripArity_digits {name base : String} {digits : List Char}
    (decimal : ∀ c ∈ digits, c.isDigit = true)
    (marked : name.toList = base.toList ++ '\x60' :: digits) : stripArity name = base := by
  rw [stripArity, marked, dropArity_digits decimal, String.ofList_toList]

/--
A name loses its arity, the last one if there are several, and a name that ends in a grave accent
loses that, though it is no arity. Every other name stays as it is.
-/
theorem stripArity_drops_arity (name : String) :
    (∀ base, WithArity name base → stripArity name = base) ∧
    (∀ base, WithBareMark name base →
      (¬ ∃ other, WithArity name other) ∧ stripArity name = base) ∧
    (stripArity name ≠ name ↔
      (∃ base, WithArity name base) ∨ ∃ base, WithBareMark name base) := by
  refine ⟨?_, ?_, ?_⟩
  · rintro base ⟨digits, decimal, marked⟩
    exact stripArity_digits decimal.decimal marked
  · intro base bare
    refine ⟨fun ⟨_, arity⟩ => bare.not_withArity arity, ?_⟩
    exact stripArity_digits (List.forall_mem_nil _) bare
  · have changes : stripArity name ≠ name ↔ dropArity name.toList ≠ name.toList := by
      rw [stripArity, ne_eq, ne_eq, ← String.toList_inj, String.toList_ofList]
    rw [changes, dropArity_ne_self_iff]
    constructor
    · rintro ⟨base, digits, decimal, marked⟩
      rw [← String.toList_ofList (l := base)] at marked
      cases digits with
      | nil => exact .inr ⟨_, marked⟩
      | cons first rest => exact .inl ⟨_, _, ⟨List.cons_ne_nil _ _, decimal⟩, marked⟩
    · rintro (⟨base, digits, decimal, marked⟩ | ⟨base, marked⟩)
      · exact ⟨_, digits, decimal.decimal, marked⟩
      · exact ⟨_, [], List.forall_mem_nil _, marked⟩

/-- Only the last of two arities goes. -/
theorem stripArity_drops_arity_last :
    WithArity "Outer\x601\x6012" "Outer\x601" ∧ stripArity "Outer\x601\x6012" = "Outer\x601" ∧
      WithBareMark "List\x60" "List" ∧ stripArity "List\x60" = "List" := by
  have arity : WithArity "Outer\x601\x6012" "Outer\x601" :=
    ⟨['1', '2'], ⟨List.cons_ne_nil _ _, List.all_eq_true.mp rfl⟩, rfl⟩
  have bare : WithBareMark "List\x60" "List" := rfl
  exact ⟨arity, (stripArity_drops_arity _).1 _ arity, bare, ((stripArity_drops_arity _).2.1 _ bare).2⟩

/-- A grave accent without digits is no arity, and yet the name loses it. -/
theorem bare_mark_dropped :
    (¬ ∃ base, WithArity "List\x60" base) ∧ stripArity "List\x60" ≠ "List\x60" := by
  have bare : WithBareMark "List\x60" "List" := rfl
  exact ⟨fun ⟨_, arity⟩ => bare.not_withArity arity, by decide +kernel⟩

end CallCapture.Name
