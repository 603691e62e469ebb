import Mathlib.Data.BitVec

/-!
# Shift registers with a table

A register of 32 bits is shifted by a byte for each byte of the data, and the entry of a table is added for what is shifted
out and the byte. If the last bytes of the entries are all different, no step takes two registers to one.
-/

namespace ShiftRegister

variable {table : BitVec 8 → BitVec 32} {c c' w : BitVec 32} {b : BitVec 8} {bytes : List (BitVec 8)}

def step (table : BitVec 8 → BitVec 32) (c : BitVec 32) (b : BitVec 8) : BitVec 32 :=
  c <<< 8 ^^^ table (c.extractLsb' 24 8 ^^^ b)

theorem step_injective (htable : ∀ i j, table i <<< 24 = table j <<< 24 → i = j)
    (h : step table c b = step table c' b) : c = c' := by
  have hlast := congrArg (fun x : BitVec 32 => x <<< 24) h
  simp only [step, BitVec.shiftLeft_xor_distrib, ← BitVec.shiftLeft_add] at hlast
  rw [BitVec.shiftLeft_eq_zero (x := c) (by decide), BitVec.shiftLeft_eq_zero (x := c') (by decide), BitVec.zero_xor,
    BitVec.zero_xor] at hlast
  have hentry := htable _ _ hlast
  have hfirst := (BitVec.xor_left_inj _).1 hentry
  rw [step, step, hentry, BitVec.xor_left_inj] at h
  apply BitVec.eq_of_getLsbD_eq
  intro i hi
  rcases Nat.lt_or_ge i 24 with hlow | hhigh
  · simpa [show i + 8 < 32 by omega, show ¬i + 8 < 8 by omega, BitVec.getLsbD_eq_getElem hi] using
      congrArg (fun x : BitVec 32 => x.getLsbD (i + 8)) h
  · simpa [show i - 24 < 8 by omega, Nat.add_sub_cancel' hhigh] using
      congrArg (fun x : BitVec 8 => x.getLsbD (i - 24)) hfirst

theorem foldl_step_injective (htable : ∀ i j, table i <<< 24 = table j <<< 24 → i = j)
    (h : bytes.foldl (step table) c = bytes.foldl (step table) c') : c = c' := by
  induction bytes generalizing c c' with
  | nil => exact h
  | cons b bytes ih => exact step_injective htable (ih h)

theorem step_xor : step table (c ^^^ w) 0#8 = step table c (w.extractLsb' 24 8) ^^^ w <<< 8 := by
  unfold step
  rw [BitVec.shiftLeft_xor_distrib, BitVec.xor_zero, BitVec.extractLsb'_xor, BitVec.xor_assoc, BitVec.xor_comm (w <<< 8),
    BitVec.xor_assoc]

/-- The bytes of a word may be added to the register at once. -/
theorem foldl_word : [w.extractLsb' 24 8, (w <<< 8).extractLsb' 24 8, (w <<< 8 <<< 8).extractLsb' 24 8,
      (w <<< 8 <<< 8 <<< 8).extractLsb' 24 8].foldl (step table) c = [0#8, 0#8, 0#8, 0#8].foldl (step table) (c ^^^ w) := by
  simp only [List.foldl_cons, List.foldl_nil]
  have hzero : w <<< 8 <<< 8 <<< 8 <<< 8 = 0#32 := by
    rw [← BitVec.shiftLeft_add, ← BitVec.shiftLeft_add, ← BitVec.shiftLeft_add, BitVec.shiftLeft_eq_zero (by decide)]
  rw [step_xor, step_xor, step_xor, step_xor, hzero, BitVec.xor_zero]

end ShiftRegister
