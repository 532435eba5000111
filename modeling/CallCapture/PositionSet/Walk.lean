import CallCapture.PositionSet.Words

/-!
Walks along the bits of words. A walk takes the lowest bit of the word that it has reached, clears
it, and goes on to the next word when none is left.
-/

namespace CallCapture

/-- A walk along the bits of words, from the lowest one on. -/
structure BitWords.Walk where
  words : List UInt64
  /-- The first position of the word that the walk has reached. -/
  base : Nat
  /-- The bits of that word that are still ahead. -/
  pending : UInt64
deriving DecidableEq, Repr

namespace BitWords.Walk

def onward (walk : Walk)
    (within : index (walk.base + wordBits) < walk.words.length) : Walk :=
  { walk with
    base := walk.base + wordBits
    pending := walk.words[index (walk.base + wordBits)] }

/-- Clears the lowest bit that is ahead. -/
def behind (walk : Walk) : Walk :=
  { walk with pending := walk.pending &&& (walk.pending - 1) }

/-- What is left of the walk, bits of the present word counting less than any word. -/
def extent (walk : Walk) : Nat :=
  (walk.words.length - index walk.base) * UInt64.size + walk.pending.toNat

theorem extent_onward {walk : Walk}
    (within : index (walk.base + wordBits) < walk.words.length) :
    (walk.onward within).extent < walk.extent := by
  have small := (walk.onward within).pending.toNat_lt
  simp only [extent, onward, index, wordBits, UInt64.size] at within small ⊢
  omega

theorem extent_behind {walk : Walk} (pending : walk.pending ≠ 0) :
    walk.behind.extent < walk.extent := by
  have positive : 0 < walk.pending.toNat :=
    Nat.pos_of_ne_zero fun zero => pending (UInt64.toNat_inj.mp zero)
  have below : (1 : UInt64) ≤ walk.pending := UInt64.le_iff_toNat_le.mpr positive
  have smaller : (walk.pending &&& (walk.pending - 1)).toNat ≤ walk.pending.toNat - 1 := by
    rw [UInt64.toNat_and, UInt64.toNat_sub_of_le _ _ below]
    exact Nat.and_le_right
  simp only [extent, behind]
  omega

/-- The position of the lowest bit ahead, if there is one. -/
def next (walk : Walk) : Option Nat × Walk :=
  if walk.pending = 0 then
    if within : index (walk.base + wordBits) < walk.words.length then
      (walk.onward within).next
    else (none, { walk with base := walk.base + wordBits })
  else (some (walk.base + walk.pending.toBitVec.ctz.toNat), walk.behind)
termination_by walk.words.length - index walk.base
decreasing_by
  simp only [onward, index, wordBits] at within ⊢
  omega

theorem extent_next {walk after : Walk} {position : Nat}
    (given : walk.next = (some position, after)) : after.extent < walk.extent := by
  fun_induction next walk with
  | case1 walk _ within ih => exact Nat.lt_trans (ih given) (extent_onward within)
  | case2 => cases given
  | case3 walk pending =>
      cases given
      exact extent_behind pending

/-- All that is ahead. -/
def toList (walk : Walk) : List Nat :=
  match given : walk.next with
  | (none, _) => []
  | (some position, after) =>
      have := extent_next given
      position :: after.toList
termination_by walk.extent

end BitWords.Walk

end CallCapture
