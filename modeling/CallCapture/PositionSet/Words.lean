/-!
Bits kept in words of 64, marked and tested one by one.
-/

namespace CallCapture

namespace BitWords

def wordBits : Nat := 64

/-- The word that a position is in. -/
def index (position : Nat) : Nat :=
  position / wordBits

/-- The bit of a position in its word. -/
def mask (position : Nat) : UInt64 :=
  1 <<< UInt64.ofNat (position % wordBits)

/-- The number of words for positions below a width. -/
def count (width : Nat) : Nat :=
  (width + (wordBits - 1)) / wordBits

def blank (width : Nat) : List UInt64 :=
  List.replicate (count width) 0

def mark (words : List UInt64) (position : Nat) : List UInt64 :=
  words.modify (index position) (· ||| mask position)

def holds (words : List UInt64) (position : Nat) : Bool :=
  words[index position]?.any fun word => word &&& mask position != 0

variable {words : List UInt64} {position width : Nat}

theorem bit_lt (position : Nat) : position % wordBits < 64 :=
  Nat.mod_lt position (by decide)

theorem index_lt_count (inside : position < width) : index position < count width := by
  unfold index count wordBits
  omega

theorem toBitVec_mask (position : Nat) :
    (mask position).toBitVec = BitVec.twoPow 64 (position % wordBits) := by
  have small := bit_lt position
  apply BitVec.eq_of_toNat_eq
  rw [UInt64.toNat_toBitVec, mask, UInt64.toNat_shiftLeft, UInt64.toNat_ofNat', BitVec.toNat_twoPow,
    Nat.mod_eq_of_lt (Nat.lt_trans small (by decide)), Nat.mod_eq_of_lt small, UInt64.toNat_one,
    Nat.one_shiftLeft]

theorem and_mask (word : UInt64) (position : Nat) :
    (word &&& mask position != 0) = word.toBitVec.getLsbD (position % wordBits) := by
  have nonzero : BitVec.twoPow 64 (position % wordBits) ≠ 0#64 := by
    intro zero
    have bit := congrArg (fun bits => bits.getLsbD (position % wordBits)) zero
    simp [bit_lt] at bit
  rw [Bool.eq_iff_iff, bne_iff_ne, ne_eq, ← UInt64.toBitVec_inj, UInt64.toBitVec_and, toBitVec_mask,
    BitVec.and_twoPow]
  cases word.toBitVec.getLsbD (position % wordBits) <;> simp [nonzero]

theorem getLsbD_or_mask (word : UInt64) (position bit : Nat) :
    (word ||| mask position).toBitVec.getLsbD bit =
      (decide (bit = position % wordBits) || word.toBitVec.getLsbD bit) := by
  rw [UInt64.toBitVec_or, BitVec.getLsbD_or, toBitVec_mask, BitVec.getLsbD_twoPow]
  simp [bit_lt, Bool.or_comm, eq_comm]

theorem holds_eq (words : List UInt64) (position : Nat) :
    holds words position =
      words[index position]?.any (·.toBitVec.getLsbD (position % wordBits)) := by
  simp only [holds, and_mask]

@[simp] theorem length_blank (width : Nat) : (blank width).length = count width :=
  List.length_replicate

@[simp] theorem holds_blank (width position : Nat) : holds (blank width) position = false := by
  rw [holds_eq, blank, List.getElem?_replicate]
  split <;> simp

@[simp] theorem length_mark (words : List UInt64) (position : Nat) :
    (mark words position).length = words.length :=
  List.length_modify ..

theorem holds_mark (covered : index position < words.length) (other : Nat) :
    holds (mark words position) other = (decide (other = position) || holds words other) := by
  rw [holds_eq, holds_eq, mark, List.getElem?_modify]
  by_cases same : index position = index other
  · have bits : other % wordBits = position % wordBits ↔ other = position := by
      unfold index wordBits at *
      omega
    rw [List.getElem?_eq_getElem (same ▸ covered)]
    simp [-UInt64.toBitVec_or, same, getLsbD_or_mask, bits]
  · have apart : other ≠ position := fun equal => same (congrArg index equal.symm)
    simp [same, apart]

@[simp] theorem length_foldl_mark (positions : List Nat) (words : List UInt64) :
    (positions.foldl mark words).length = words.length := by
  induction positions generalizing words with
  | nil => rfl
  | cons position rest ih => rw [List.foldl_cons, ih, length_mark]

theorem holds_foldl_mark {positions : List Nat}
    (covered : ∀ position ∈ positions, index position < words.length) (other : Nat) :
    holds (positions.foldl mark words) other =
      (decide (other ∈ positions) || holds words other) := by
  induction positions generalizing words with
  | nil => simp
  | cons position rest ih =>
      have first := covered position List.mem_cons_self
      have others : ∀ later ∈ rest, index later < (mark words position).length := by
        intro later member
        rw [length_mark]
        exact covered later (List.mem_cons_of_mem _ member)
      rw [List.foldl_cons, ih others, holds_mark first]
      simp [← Bool.or_assoc, Bool.or_comm]

theorem holds_filter_range (width : Nat) (chosen : Nat → Bool) (position : Nat) :
    holds (((List.range width).filter chosen).foldl mark (blank width)) position =
      (decide (position < width) && chosen position) := by
  have covered : ∀ other ∈ (List.range width).filter chosen,
      index other < (blank width).length := by
    intro other among
    rw [length_blank]
    exact index_lt_count (List.mem_range.mp (List.mem_filter.mp among).1)
  rw [holds_foldl_mark covered, holds_blank, Bool.or_false, Bool.eq_iff_iff]
  simp

end BitWords

end CallCapture
