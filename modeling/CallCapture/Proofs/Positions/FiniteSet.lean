import CallCapture.PositionSet
import CallCapture.Proofs.Positions.Walking
import Mathlib.Data.Finset.Card

/-!
A set of positions is a finite set of numbers below its width. However the words are marked, the
operations on them show the same members: the test of one position, their number, and a walk, which
gives them in ascending order and then nothing.
-/

namespace CallCapture

namespace PositionSet

open BitWords (positions)

variable {set first second : PositionSet}

theorem walk_aligned (set : PositionSet) : set.walk.Aligned := rfl

theorem walk_remaining (set : PositionSet) : set.walk.remaining = positions 0 set.words := by
  unfold walk BitWords.Walk.remaining
  have first : BitWords.index 0 = 0 := Nat.zero_div _
  cases set.words with
  | nil => rfl
  | cons word rest =>
      simp only [List.headD_cons, first, List.drop_succ_cons, List.drop_zero, positions]

theorem toList_eq (set : PositionSet) : set.toList = positions 0 set.words := by
  rw [toList, BitWords.Walk.toList_eq set.walk_aligned, walk_remaining]

theorem mem_toList {position : Nat} : position ∈ set.toList ↔ set.contains position = true := by
  rw [toList_eq, BitWords.mem_positions, contains_eq]
  simp

theorem toList_pairwise (set : PositionSet) : set.toList.Pairwise (· < ·) := by
  rw [toList_eq]
  exact BitWords.positions_pairwise 0 set.words

theorem count_eq_length (set : PositionSet) : set.count = set.toList.length := by
  rw [toList_eq, BitWords.positions_length, count]

theorem isEmpty_iff : set.isEmpty = true ↔ set.toList = [] := by
  rw [toList_eq, BitWords.positions_eq_nil_iff, isEmpty, List.all_eq_true]
  simp

theorem walk_answer (set : PositionSet) (asked : Nat) :
    set.walk.answer asked = set.toList[asked]? := by
  rw [BitWords.Walk.answer_eq set.walk_aligned, walk_remaining, toList_eq]

/-- The members tell each bit of each word, so that sets with the same members are the same. -/
theorem eq_of_contains (width : first.width = second.width)
    (members : ∀ position, first.contains position = second.contains position) :
    first = second := by
  have length : first.words.length = second.words.length := by
    rw [first.covered, second.covered, width]
  have words : first.words = second.words := by
    apply List.ext_getElem length
    intro index inFirst inSecond
    apply UInt64.toBitVec_inj.mp
    apply BitVec.eq_of_getLsbD_eq
    intro bit small
    have same := members (BitWords.wordBits * index + bit)
    rw [contains_eq, contains_eq, BitWords.holds_at small, BitWords.holds_at small] at same
    simpa [inFirst, inSecond] using same
  cases first
  cases second
  cases width
  cases words
  rfl

/-- Inserts positions one after the other. -/
def insertAll (set : PositionSet) (positions : List Nat) : Except Outside PositionSet :=
  positions.foldlM insert set

theorem insertAll_of_below (set : PositionSet) {positions : List Nat}
    (below : ∀ position ∈ positions, position < set.width) :
    ∃ after, set.insertAll positions = .ok after ∧ after.width = set.width ∧
      ∀ position, after.contains position = true ↔
        position ∈ positions ∨ set.contains position = true := by
  induction positions generalizing set with
  | nil => exact ⟨set, rfl, rfl, by simp⟩
  | cons position rest ih =>
      have room : position < set.width := below position List.mem_cons_self
      have inserted : set.insert position = .ok (set.mark position room) := dif_pos room
      obtain ⟨after, filled, width, members⟩ := ih (set.mark position room) fun other among =>
        below other (List.mem_cons_of_mem _ among)
      refine ⟨after, ?_, width, fun other => ?_⟩
      · rw [insertAll, List.foldlM_cons, inserted]
        exact filled
      · rw [members, contains_mark, Bool.or_eq_true, decide_eq_true_eq, List.mem_cons]
        tauto

/-- What the operations show of a set, if its members are those given. -/
structure Represents (set : PositionSet) (members : Finset Nat) : Prop where
  contains : ∀ position, set.contains position = true ↔ position ∈ members
  outside : ∀ position, set.width ≤ position → set.contains position = false
  count : set.count = members.card
  isEmpty : set.isEmpty = true ↔ members = ∅
  listed : ∀ position, position ∈ set.toList ↔ position ∈ members
  ascending : set.toList.Pairwise (· < ·)
  /-- A walk gives what is listed, one after the other, and then nothing, however often asked. -/
  walk : ∀ asked, set.walk.answer asked = set.toList[asked]?

theorem represents_of_contains {members : Finset Nat}
    (same : ∀ position, set.contains position = true ↔ position ∈ members) :
    set.Represents members := by
  have listed : set.toList.toFinset = members := by
    ext position
    rw [List.mem_toFinset, mem_toList, same]
  have distinct : set.toList.Nodup := set.toList_pairwise.imp Nat.ne_of_lt
  refine ⟨same, ?_, ?_, ?_, ?_, set.toList_pairwise, set.walk_answer⟩
  · intro position past
    simp [PositionSet.contains, Nat.not_lt_of_le past]
  · rw [count_eq_length, ← listed, List.toFinset_card_of_nodup distinct]
  · rw [isEmpty_iff, ← listed, List.toFinset_eq_empty_iff]
  · intro position
    rw [mem_toList, same]

/--
A set is the finite set of the positions that were inserted, in whatever order and however often, or
of those below its width that a predicate holds of. Sets of one width are equal just if they have
the same members.
-/
theorem represents_finite_set (width : Nat) :
    (∀ positions : List Nat, (∀ position ∈ positions, position < width) →
      ∃ set, (empty width).insertAll positions = .ok set ∧ set.width = width ∧
        set.Represents positions.toFinset) ∧
    (∀ chosen : Nat → Bool,
      (empty width).insertAll ((List.range width).filter chosen) = .ok (ofPredicate width chosen) ∧
      (ofPredicate width chosen).width = width ∧
      (ofPredicate width chosen).Represents
        ((Finset.range width).filter fun position => chosen position = true)) ∧
    ∀ first second : PositionSet, first.width = width → second.width = width →
      (first = second ↔ ∀ position, first.contains position = second.contains position) := by
  refine ⟨?_, ?_, ?_⟩
  · intro positions below
    obtain ⟨set, filled, same, members⟩ := insertAll_of_below (empty width) below
    refine ⟨set, filled, same, represents_of_contains fun position => ?_⟩
    rw [members]
    simp
  · intro chosen
    have below : ∀ position ∈ (List.range width).filter chosen, position < width :=
      fun position among => List.mem_range.mp (List.mem_filter.mp among).1
    obtain ⟨set, filled, same, members⟩ := insertAll_of_below (empty width) below
    have equal : set = ofPredicate width chosen := by
      have width : set.width = (ofPredicate width chosen).width := same
      apply eq_of_contains width
      intro position
      rw [Bool.eq_iff_iff, members, contains_ofPredicate]
      simp
    refine ⟨equal ▸ filled, rfl, represents_of_contains fun position => ?_⟩
    rw [contains_ofPredicate]
    simp
  · intro first second firstWidth secondWidth
    constructor
    · rintro rfl position
      rfl
    · exact eq_of_contains (firstWidth.trans secondWidth.symm)

/-- Positions at the ends of words, one of them inserted twice. -/
theorem represents_finite_set_three_words :
    let positions := [129, 0, 64, 63, 0]
    (∀ position ∈ positions, position < 130) ∧
    ∃ set, (empty 130).insertAll positions = .ok set ∧ set.Represents positions.toFinset ∧
      set.count = 4 ∧ set = ofPredicate 130 positions.contains := by
  intro positions
  have below : ∀ position ∈ positions, position < 130 := by decide
  obtain ⟨inserts, predicates, equality⟩ := represents_finite_set 130
  obtain ⟨set, filled, width, represents⟩ := inserts positions below
  refine ⟨below, set, filled, represents, represents.count.trans rfl, ?_⟩
  refine (equality _ _ width rfl).mpr fun position => ?_
  rw [Bool.eq_iff_iff, represents.contains, contains_ofPredicate]
  simp
  exact below position

end PositionSet

end CallCapture
