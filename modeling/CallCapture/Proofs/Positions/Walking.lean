import CallCapture.PositionSet.Walk
import CallCapture.Proofs.Positions.Bits

/-!
What a walk along the bits of words has ahead of it. Each step gives the first of these positions
and leaves the others, and at the end there is nothing, however often the walk is asked.
-/

namespace CallCapture.BitWords.Walk

variable {walk : Walk}

/-- The positions that are ahead of a walk. -/
def remaining (walk : Walk) : List Nat :=
  bits walk.base walk.pending ++
    positions (walk.base + wordBits) (walk.words.drop (index walk.base + 1))

/-- The walk has come to the first bit of a word. -/
def Aligned (walk : Walk) : Prop :=
  walk.base % wordBits = 0

/-- What a walk answers when it was asked a number of times before. -/
def answer (walk : Walk) : Nat → Option Nat
  | 0 => walk.next.1
  | asked + 1 => walk.next.2.answer asked

theorem Aligned.add_wordBits (aligned : walk.Aligned) : (walk.base + wordBits) % wordBits = 0 :=
  (Nat.add_mod_right ..).trans aligned

theorem index_add_wordBits (base : Nat) : index (base + wordBits) = index base + 1 :=
  Nat.add_div_right base (by decide)

/-- Nothing is ahead of a walk without bits behind which there are no words. -/
theorem remaining_eq_nil (nothing : walk.pending = 0)
    (ended : walk.words.length ≤ index walk.base + 1) : walk.remaining = [] := by
  rw [remaining, nothing, bits_zero, List.drop_of_length_le ended]
  rfl

theorem remaining_onward (nothing : walk.pending = 0)
    (within : index (walk.base + wordBits) < walk.words.length) :
    (walk.onward within).remaining = walk.remaining := by
  have following : walk.words.drop (index walk.base + 1) =
      walk.words[index (walk.base + wordBits)] ::
        walk.words.drop (index (walk.base + wordBits) + 1) := by
    rw [← index_add_wordBits]
    exact List.drop_eq_getElem_cons within
  rw [remaining.eq_def walk, nothing, bits_zero, List.nil_append, following]
  rfl

/-- One step gives the first position that is ahead, and leaves the others. -/
theorem next_remaining (aligned : walk.Aligned) :
    walk.next.1 = walk.remaining.head? ∧ walk.next.2.remaining = walk.remaining.tail ∧
      walk.next.2.Aligned := by
  fun_induction next walk with
  | case1 walk nothing within ih =>
      rw [← remaining_onward nothing within]
      exact ih aligned.add_wordBits
  | case2 walk nothing ended =>
      have last : walk.words.length ≤ index walk.base + 1 := by
        rw [← index_add_wordBits]
        exact Nat.le_of_not_lt ended
      have past : walk.words.length ≤ index (walk.base + wordBits) + 1 :=
        Nat.le_succ_of_le (Nat.le_of_not_lt ended)
      rw [remaining_eq_nil nothing last]
      exact ⟨rfl, remaining_eq_nil nothing past, aligned.add_wordBits⟩
  | case3 walk something =>
      rw [remaining, bits_cons something]
      exact ⟨rfl, rfl, aligned⟩

theorem answer_eq (aligned : walk.Aligned) (asked : Nat) :
    walk.answer asked = walk.remaining[asked]? := by
  induction asked generalizing walk with
  | zero => rw [answer, (next_remaining aligned).1, List.head?_eq_getElem?]
  | succ asked ih =>
      obtain ⟨_, others, goesOn⟩ := next_remaining aligned
      rw [answer, ih goesOn, others, List.getElem?_tail]

theorem toList_eq (aligned : walk.Aligned) : walk.toList = walk.remaining := by
  fun_induction toList walk with
  | case1 walk after given =>
      have first := (next_remaining aligned).1
      rw [given] at first
      exact (List.head?_eq_none_iff.mp first.symm).symm
  | case2 walk position after given _ ih =>
      obtain ⟨first, others, goesOn⟩ := next_remaining aligned
      rw [given] at first others goesOn
      obtain ⟨rest, front⟩ := List.head?_eq_some_iff.mp first.symm
      rw [ih goesOn, others, front, List.tail_cons]

end CallCapture.BitWords.Walk
