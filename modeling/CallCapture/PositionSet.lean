import CallCapture.PositionSet.Walk

/-!
Sets of argument positions below a fixed width, packed into words of 64 bits.
-/

namespace CallCapture

/-- Positions below a width, one bit each. No bit past the width is set. -/
structure PositionSet where
  width : Nat
  words : List UInt64
  covered : words.length = BitWords.count width
  inside : ∀ position, BitWords.holds words position = true → position < width
deriving DecidableEq, Repr

namespace PositionSet

/-- A position that a set has no room for. -/
structure Outside where
  position : Nat
  width : Nat
deriving DecidableEq, Repr

def Outside.message (outside : Outside) : String :=
  "bit " ++ toString outside.position ++ " outside a set of " ++ toString outside.width

theorem index_lt (set : PositionSet) {position : Nat} (inside : position < set.width) :
    BitWords.index position < set.words.length :=
  set.covered ▸ BitWords.index_lt_count inside

def empty (width : Nat) : PositionSet where
  width := width
  words := BitWords.blank width
  covered := BitWords.length_blank width
  inside position held := by simp at held

/-- A set with one more position, which has to be below the width. -/
def mark (set : PositionSet) (position : Nat) (below : position < set.width) : PositionSet where
  width := set.width
  words := BitWords.mark set.words position
  covered := (BitWords.length_mark ..).trans set.covered
  inside other held := by
    rw [BitWords.holds_mark (set.index_lt below), Bool.or_eq_true, decide_eq_true_eq] at held
    obtain rfl | held := held
    · exact below
    · exact set.inside other held

def insert (set : PositionSet) (position : Nat) : Except Outside PositionSet :=
  if below : position < set.width then .ok (set.mark position below)
  else .error ⟨position, set.width⟩

/-- Marks the positions below a width that are chosen. -/
def ofPredicate (width : Nat) (chosen : Nat → Bool) : PositionSet where
  width := width
  words := ((List.range width).filter chosen).foldl BitWords.mark (BitWords.blank width)
  covered := by rw [BitWords.length_foldl_mark, BitWords.length_blank]
  inside position held := by
    rw [BitWords.holds_filter_range, Bool.and_eq_true, decide_eq_true_eq] at held
    exact held.1

/-- Positions past the width are never members. -/
def contains (set : PositionSet) (position : Nat) : Bool :=
  position < set.width && BitWords.holds set.words position

theorem contains_eq (set : PositionSet) (position : Nat) :
    set.contains position = BitWords.holds set.words position := by
  rw [contains, Bool.and_eq_right_iff_imp, decide_eq_true_eq]
  exact set.inside position

@[simp] theorem contains_empty (width position : Nat) : (empty width).contains position = false := by
  rw [contains_eq, empty, BitWords.holds_blank]

theorem contains_mark (set : PositionSet) {position : Nat} (below : position < set.width)
    (other : Nat) :
    (set.mark position below).contains other =
      (decide (other = position) || set.contains other) := by
  rw [contains_eq, contains_eq, mark, BitWords.holds_mark (set.index_lt below)]

theorem contains_ofPredicate (width : Nat) (chosen : Nat → Bool) (position : Nat) :
    (ofPredicate width chosen).contains position =
      (decide (position < width) && chosen position) := by
  rw [contains_eq, ofPredicate, BitWords.holds_filter_range]

def count (set : PositionSet) : Nat :=
  set.words.foldr (fun word others => word.toBitVec.cpop.toNat + others) 0

def isEmpty (set : PositionSet) : Bool :=
  set.words.all (· == 0)

def walk (set : PositionSet) : BitWords.Walk :=
  ⟨set.words, 0, set.words.headD 0⟩

/-- The members in ascending order. -/
def toList (set : PositionSet) : List Nat :=
  set.walk.toList

def text (set : PositionSet) : String :=
  "\x7b" ++ ", ".intercalate (set.toList.map toString) ++ "\x7d"

end PositionSet

end CallCapture
