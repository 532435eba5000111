import CallCapture.PositionSet.Words
import Mathlib.Algebra.Group.Nat.Defs

/-!
The positions of the bits of words, in ascending order. The lowest bit of a word comes first; if it
is cleared, all the others are left.
-/

namespace CallCapture.BitWords

variable {word : UInt64} {words : List UInt64} {base position : Nat}

/-- The positions of the bits of one word, from the position of its first bit on. -/
def bits (base : Nat) (word : UInt64) : List Nat :=
  ((List.range wordBits).filter word.toBitVec.getLsbD).map (base + ·)

def positions (base : Nat) : List UInt64 → List Nat
  | [] => []
  | word :: rest => bits base word ++ positions (base + wordBits) rest

/-! ### The lowest bit -/

/-- A number with its lowest bit set apart. -/
theorem lowest_bit_split {number lowest : Nat} (present : number.testBit lowest = true)
    (absent : ∀ bit < lowest, number.testBit bit = false) :
    number = 2 ^ (lowest + 1) * (number / 2 ^ (lowest + 1)) + 2 ^ lowest := by
  have remainder : number % 2 ^ (lowest + 1) = 2 ^ lowest := by
    apply Nat.eq_of_testBit_eq
    intro bit
    rw [Nat.testBit_mod_two_pow, Nat.testBit_two_pow]
    rcases Nat.lt_trichotomy bit lowest with below | rfl | above
    · simp [absent bit below, Nat.ne_of_gt below]
    · simp [present]
    · simp [Nat.ne_of_lt above, Nat.not_lt_of_le above]
  rw [← remainder, Nat.div_add_mod]

/-- A number without its lowest bit is what it has in common with the number before it. -/
theorem testBit_and_pred {number lowest : Nat} (present : number.testBit lowest = true)
    (absent : ∀ bit < lowest, number.testBit bit = false) (bit : Nat) :
    (number &&& (number - 1)).testBit bit = (number.testBit bit && decide (bit ≠ lowest)) := by
  have split := lowest_bit_split present absent
  have positive := Nat.two_pow_pos lowest
  have smaller : 2 ^ lowest < 2 ^ (lowest + 1) := Nat.pow_lt_pow_right (by decide) (by omega)
  have before : number - 1 =
      2 ^ (lowest + 1) * (number / 2 ^ (lowest + 1)) + (2 ^ lowest - 1) := by
    omega
  have upper : lowest < bit → (number - 1).testBit bit = number.testBit bit := by
    intro above
    rw [before, Nat.testBit_two_pow_mul_add _ (by omega)]
    conv => rhs; rw [split, Nat.testBit_two_pow_mul_add _ smaller]
    simp [Nat.not_lt_of_le above]
  rw [Nat.testBit_and]
  rcases Nat.lt_trichotomy bit lowest with below | rfl | above
  · simp [absent bit below]
  · rw [before, Nat.testBit_two_pow_mul_add _ (by omega)]
    simp [Nat.testBit_two_pow_sub_one]
  · rw [upper above]
    simp [Nat.ne_of_gt above]

theorem getLsbD_and_pred (nonzero : word ≠ 0) (bit : Nat) :
    (word &&& (word - 1)).toBitVec.getLsbD bit =
      (word.toBitVec.getLsbD bit && decide (bit ≠ word.toBitVec.ctz.toNat)) := by
  have held : word.toBitVec ≠ 0#64 := fun zero => nonzero (UInt64.toBitVec_inj.mp zero)
  have positive : 0 < word.toNat :=
    Nat.pos_of_ne_zero fun zero => nonzero (UInt64.toNat_inj.mp zero)
  have before : (word - 1).toNat = word.toNat - 1 :=
    UInt64.toNat_sub_of_le _ _ (UInt64.le_iff_toNat_le.mpr positive)
  have present : word.toNat.testBit word.toBitVec.ctz.toNat = true :=
    BitVec.getLsbD_true_ctz_of_ne_zero held
  have absent : ∀ bit < word.toBitVec.ctz.toNat, word.toNat.testBit bit = false :=
    fun _ below => BitVec.getLsbD_false_of_lt_ctz below
  have cleared := testBit_and_pred present absent bit
  rw [← before, ← UInt64.toNat_and] at cleared
  exact cleared

/-- The lowest number that is chosen stands in front of the others. -/
theorem filter_range_cons {chosen : Nat → Bool} {lowest bound : Nat} (within : lowest < bound)
    (present : chosen lowest = true) (absent : ∀ number < lowest, chosen number = false) :
    (List.range bound).filter chosen =
      lowest :: (List.range bound).filter fun number =>
        chosen number && decide (number ≠ lowest) := by
  induction bound with
  | zero => contradiction
  | succ bound ih =>
      rw [List.range_succ, List.filter_append, List.filter_append]
      rcases Nat.lt_or_eq_of_le (Nat.le_of_lt_succ within) with before | rfl
      · rw [ih before, List.cons_append]
        simp [List.filter_cons, Nat.ne_of_gt before]
      · have nothing : ∀ picked : Nat → Bool, (∀ number < lowest, picked number = false) →
            (List.range lowest).filter picked = [] := by
          intro picked unpicked
          apply List.filter_eq_nil_iff.mpr
          intro number among
          rw [unpicked number (List.mem_range.mp among)]
          exact Bool.false_ne_true
        rw [nothing chosen absent, nothing _ fun number below => by rw [absent number below]; rfl]
        simp [present]

/-! ### The bits of a word -/

theorem mem_bits : position ∈ bits base word ↔
    base ≤ position ∧ word.toBitVec.getLsbD (position - base) = true := by
  simp only [bits, List.mem_map, List.mem_filter, List.mem_range]
  constructor
  · rintro ⟨bit, ⟨_, held⟩, rfl⟩
    rw [Nat.add_sub_cancel_left]
    exact ⟨Nat.le_add_right base bit, held⟩
  · rintro ⟨after, held⟩
    exact ⟨position - base, ⟨BitVec.lt_of_getLsbD held, held⟩, Nat.add_sub_cancel' after⟩

theorem bits_pairwise (base : Nat) (word : UInt64) : (bits base word).Pairwise (· < ·) := by
  refine (List.pairwise_lt_range.filter _).map _ ?_
  intro first second ascending
  exact Nat.add_lt_add_left ascending base

@[simp] theorem bits_zero (base : Nat) : bits base 0 = [] := by
  simp [bits]

theorem cpopNatRec_eq_length (word : BitVec 64) (bound : Nat) :
    word.cpopNatRec bound 0 = ((List.range bound).filter word.getLsbD).length := by
  induction bound with
  | zero => rfl
  | succ bound ih =>
      rw [BitVec.cpopNatRec_succ, BitVec.cpopNatRec_eq, ih, List.range_succ, List.filter_append,
        List.length_append, Nat.zero_add]
      cases held : word.getLsbD bound <;> simp [held]

theorem bits_length (base : Nat) (word : UInt64) :
    (bits base word).length = word.toBitVec.cpop.toNat := by
  rw [bits, List.length_map, BitVec.toNat_cpop, cpopNatRec_eq_length]
  rfl

theorem bits_cons (nonzero : word ≠ 0) (base : Nat) :
    bits base word =
      (base + word.toBitVec.ctz.toNat) :: bits base (word &&& (word - 1)) := by
  have held : word.toBitVec ≠ 0#64 := fun zero => nonzero (UInt64.toBitVec_inj.mp zero)
  have lowest := filter_range_cons (BitVec.ctz_lt_iff_ne_zero.mpr held)
    (BitVec.getLsbD_true_ctz_of_ne_zero held) fun _ => BitVec.getLsbD_false_of_lt_ctz
  have others : (word &&& (word - 1)).toBitVec.getLsbD = fun bit =>
      word.toBitVec.getLsbD bit && decide (bit ≠ word.toBitVec.ctz.toNat) :=
    funext (getLsbD_and_pred nonzero)
  rw [bits, bits, others]
  exact congrArg (List.map (base + ·)) lowest

/-! ### The bits of words -/

theorem holds_cons (word : UInt64) (rest : List UInt64) (position : Nat) :
    holds (word :: rest) position =
      if position < wordBits then word.toBitVec.getLsbD position
      else holds rest (position - wordBits) := by
  simp only [holds_eq, index, wordBits]
  split
  · rename_i first
    rw [Nat.div_eq_of_lt first, Nat.mod_eq_of_lt first]
    rfl
  · rename_i later
    have further : position / 64 = (position - 64) / 64 + 1 := by omega
    have same : position % 64 = (position - 64) % 64 := by omega
    rw [further, same, List.getElem?_cons_succ]

theorem holds_at {bit : Nat} (small : bit < 64) (words : List UInt64) (word : Nat) :
    holds words (wordBits * word + bit) = words[word]?.any (·.toBitVec.getLsbD bit) := by
  have place : index (wordBits * word + bit) = word := by
    unfold index wordBits
    omega
  have rest : (wordBits * word + bit) % wordBits = bit := by
    unfold wordBits
    omega
  rw [holds_eq, place, rest]

theorem mem_positions : position ∈ positions base words ↔
    base ≤ position ∧ holds words (position - base) = true := by
  induction words generalizing base with
  | nil => simp [positions, holds]
  | cons word rest ih =>
      rw [positions, List.mem_append, mem_bits, ih, holds_cons, ← Nat.sub_sub]
      split
      · rename_i first
        have notLater : ¬ base + wordBits ≤ position := by omega
        simp [notLater]
      · rename_i later
        have past : word.toBitVec.getLsbD (position - base) = false :=
          BitVec.getLsbD_of_ge _ _ (Nat.le_of_not_lt later)
        have after : base + wordBits ≤ position ↔ base ≤ position := by
          unfold wordBits at *
          omega
        simp [past, after]

theorem positions_pairwise (base : Nat) (words : List UInt64) :
    (positions base words).Pairwise (· < ·) := by
  induction words generalizing base with
  | nil => exact List.Pairwise.nil
  | cons word rest ih =>
      refine List.pairwise_append.mpr ⟨bits_pairwise base word, ih _, ?_⟩
      intro first early second late
      have within := BitVec.lt_of_getLsbD (mem_bits.mp early).2
      have behind := (mem_positions.mp late).1
      unfold wordBits at behind
      omega

theorem positions_length (base : Nat) (words : List UInt64) :
    (positions base words).length =
      words.foldr (fun word others => word.toBitVec.cpop.toNat + others) 0 := by
  induction words generalizing base with
  | nil => rfl
  | cons word rest ih => rw [positions, List.length_append, bits_length, ih, List.foldr_cons]

theorem bits_eq_nil_iff : bits base word = [] ↔ word = 0 := by
  by_cases zero : word = 0
  · simp [zero]
  · simp [bits_cons zero, zero]

theorem positions_eq_nil_iff : positions base words = [] ↔ ∀ word ∈ words, word = 0 := by
  induction words generalizing base with
  | nil => simp [positions]
  | cons word rest ih => simp [positions, bits_eq_nil_iff, ih]

end CallCapture.BitWords
