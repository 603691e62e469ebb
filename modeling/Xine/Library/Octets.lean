import Mathlib.Algebra.Group.Nat.Defs
import Mathlib.Data.List.Basic

/-!
# Numbers as bytes

A number in a fixed number of bytes, the least significant byte first (`littleEndian`) or last
(`bigEndian`), and the number that some bytes stand for. A number that fits is read back from its
bytes, and bytes are those of the number that they stand for.
-/

namespace Octets

abbrev Byte := BitVec 8

/-- The number that the bytes stand for, with the least significant byte first. -/
def ofLittle : List Byte → ℕ
  | [] => 0
  | b :: bs => b.toNat + 2^8 * ofLittle bs

/-- A number in some bytes, the least significant first. What does not fit is lost. -/
def littleEndian : ℕ → ℕ → List Byte
  | 0, _ => []
  | len + 1, n => BitVec.ofNat 8 n :: littleEndian len (n / 2^8)

/-- The number that the bytes stand for, with the most significant byte first. -/
def ofBig (bs : List Byte) : ℕ := ofLittle bs.reverse

/-- A number in some bytes, the most significant first. -/
def bigEndian (len n : ℕ) : List Byte := (littleEndian len n).reverse

@[simp] theorem length_littleEndian (len n : ℕ) : (littleEndian len n).length = len := by
  induction len generalizing n with
  | zero => rfl
  | succ len ih => rw [littleEndian, List.length_cons, ih]

@[simp] theorem length_bigEndian (len n : ℕ) : (bigEndian len n).length = len := by
  rw [bigEndian, List.length_reverse, length_littleEndian]

theorem ofLittle_littleEndian (len n : ℕ) : ofLittle (littleEndian len n) = n % 2^(8 * len) := by
  induction len generalizing n with
  | zero =>
    rw [Nat.mul_zero, Nat.pow_zero, Nat.mod_one]
    rfl
  | succ len ih =>
    have hpow : 2^(8 * (len + 1)) = 2^8 * 2^(8 * len) := by rw [← Nat.pow_add]; congr 1; omega
    rw [littleEndian, ofLittle, ih, BitVec.toNat_ofNat, hpow, Nat.mod_mul]

theorem ofLittle_of_lt {len n : ℕ} (h : n < 2^(8 * len)) : ofLittle (littleEndian len n) = n := by
  rw [ofLittle_littleEndian, Nat.mod_eq_of_lt h]

theorem ofBig_of_lt {len n : ℕ} (h : n < 2^(8 * len)) : ofBig (bigEndian len n) = n := by
  rw [ofBig, bigEndian, List.reverse_reverse, ofLittle_of_lt h]

theorem ofLittle_lt (bs : List Byte) : ofLittle bs < 2^(8 * bs.length) := by
  induction bs with
  | nil => exact Nat.one_pos
  | cons b bs ih =>
    have hpow : 2^(8 * (bs.length + 1)) = 2^8 * 2^(8 * bs.length) := by
      rw [← Nat.pow_add]; congr 1; omega
    have hb : b.toNat < 2^8 := b.isLt
    rw [ofLittle, List.length_cons, hpow]
    omega

theorem littleEndian_ofLittle (bs : List Byte) : littleEndian bs.length (ofLittle bs) = bs := by
  induction bs with
  | nil => rfl
  | cons b bs ih =>
    have hb : b.toNat < 2^8 := b.isLt
    have hhead : BitVec.ofNat 8 (b.toNat + 2^8 * ofLittle bs) = b := by
      refine BitVec.eq_of_toNat_eq ?_
      rw [BitVec.toNat_ofNat, Nat.add_mul_mod_self_left, Nat.mod_eq_of_lt hb]
    have htail : (b.toNat + 2^8 * ofLittle bs) / 2^8 = ofLittle bs := by omega
    rw [List.length_cons, ofLittle, littleEndian, hhead, htail, ih]

theorem bigEndian_ofBig (bs : List Byte) : bigEndian bs.length (ofBig bs) = bs := by
  have h := littleEndian_ofLittle bs.reverse
  rw [List.length_reverse] at h
  rw [bigEndian, ofBig, h, List.reverse_reverse]

theorem ofBig_lt (bs : List Byte) : ofBig bs < 2^(8 * bs.length) := by
  have h := ofLittle_lt bs.reverse
  rwa [List.length_reverse] at h

end Octets
