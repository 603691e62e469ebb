import Xine.MpegBlock.Demuxer
import Xine.DemuxTs.Pes

/-!
# The clocks of 33 bits

The transport stream demuxer widens the highest part of a clock before it shifts it, the block demuxer shifts
an `int`: there a time stamp is exact below `2 ^ 31`, and the clock of a pack of MPEG-1, whose mask leaves
one bit and whose shift is one too far, below `2 ^ 30`.
-/

namespace Xine.MpegBlock

open Octets (Byte)

/-! ## Sums of parts -/

theorem and_mask (x j w : ℕ) : x &&& (2 ^ w - 1) * 2 ^ j = x / 2 ^ j % 2 ^ w * 2 ^ j := by
  refine Nat.eq_of_testBit_eq fun i => ?_
  simp only [Nat.testBit_and, Nat.testBit_mul_two_pow, Nat.testBit_mod_two_pow, Nat.testBit_div_two_pow,
    Nat.testBit_two_pow_sub_one]
  by_cases h : j ≤ i
  · simp [h, Nat.sub_add_cancel h, Bool.and_comm]
  · simp [h]

variable {x n w j k t pre : ℕ}

theorem mask_le (x j w : ℕ) : x / 2 ^ j % 2 ^ w * 2 ^ j ≤ x := and_mask x j w ▸ Nat.and_le_left

theorem masked (hx : x < 2 ^ 8) (w j : ℕ) {m : ℕ} (hm : 8 ≤ m) :
    ((BitVec.ofNat 8 x &&& BitVec.ofNat 8 ((2 ^ w - 1) * 2 ^ j)).setWidth m).toNat =
      x / 2 ^ j % 2 ^ w * 2 ^ j := by
  have hlt := (mask_le x j w).trans_lt hx
  rw [← BitVec.ofNat_and, and_mask, BitVec.toNat_setWidth, BitVec.toNat_ofNat, Nat.mod_eq_of_lt hlt]
  exact Nat.mod_eq_of_lt (hlt.trans_le (Nat.pow_le_pow_right (by decide) hm))

theorem shl_eq (w j : ℕ) {v : ℕ} (hx : x < 2 ^ 8) (hv : x / 2 ^ j % 2 ^ w * 2 ^ j * 2 ^ n = v) :
    shl (BitVec.ofNat 8 x) (BitVec.ofNat 8 ((2 ^ w - 1) * 2 ^ j)) n = BitVec.ofNat 32 v := by
  unfold shl
  refine BitVec.eq_of_toNat_eq ?_
  rw [BitVec.toNat_shiftLeft, masked hx _ _ (by decide), Nat.shiftLeft_eq, hv, BitVec.toNat_ofNat]

theorem shr_eq (w j : ℕ) {v : ℕ} (hx : x < 2 ^ 8) (hv : x / 2 ^ j % 2 ^ w = v) :
    shr (BitVec.ofNat 8 x) (BitVec.ofNat 8 ((2 ^ w - 1) * 2 ^ j)) j = BitVec.ofNat 32 v := by
  have hle := (Nat.le_mul_of_pos_right _ (Nat.two_pow_pos j)).trans (mask_le x j w)
  unfold shr
  refine BitVec.eq_of_toNat_eq ?_
  rw [BitVec.toNat_ushiftRight, masked hx _ _ (by decide), Nat.shiftRight_eq_div_pow, Nat.mul_div_cancel _ (Nat.two_pow_pos j),
    BitVec.toNat_ofNat, ← hv, Nat.mod_eq_of_lt ((hle.trans_lt hx).trans (by decide))]

theorem ofNat_or {a b : ℕ} (h : b < 2 ^ k) :
    BitVec.ofNat w (a * 2 ^ k) ||| BitVec.ofNat w b = BitVec.ofNat w (a * 2 ^ k + b) := by
  rw [← BitVec.ofNat_or, Nat.mul_comm, ← Nat.two_pow_add_eq_or_of_lt h]

theorem joined_eq (acc : BitVec 64) (parts : List (BitVec 32)) :
    joined acc parts = acc ||| (parts.foldr (· ||| ·) 0).signExtend 64 := by
  induction parts generalizing acc with
  | nil => exact (BitVec.or_zero).symm
  | cons part parts ih =>
    calc joined acc (part :: parts) = joined (acc ||| part.signExtend 64) parts := rfl
      _ = _ := by rw [ih, List.foldr_cons, BitVec.signExtend_or, BitVec.or_assoc]

theorem toInt_joined {parts : List (BitVec 32)} (h : parts.foldr (· ||| ·) 0 = BitVec.ofNat 32 n) :
    (joined 0 parts).toInt = Int.bmod n (2 ^ 32) := by
  rw [joined_eq, h, show (0 : BitVec 64) = 0#64 from rfl, BitVec.zero_or, BitVec.toInt_signExtend_of_le (by decide), BitVec.toInt_ofNat']

/-! ## The encodings -/

/-- A time stamp with a prefix and the marker bits. -/
def Clock.ofTime (pre t : ℕ) : Clock :=
  ⟨.ofNat 8 (pre * 2 ^ 4 + t / 2 ^ 30 % 8 * 2 + 1), .ofNat 8 (t / 2 ^ 22 % 2 ^ 8),
    .ofNat 8 (t / 2 ^ 15 % 2 ^ 7 * 2 + 1), .ofNat 8 (t / 2 ^ 7 % 2 ^ 8), .ofNat 8 (t % 2 ^ 7 * 2 + 1)⟩

/-- The clock of a pack of MPEG-2 with the highest bits of its extension. -/
def Clock.ofScr (t ext : ℕ) : Clock :=
  ⟨.ofNat 8 (2 ^ 6 + t / 2 ^ 30 % 8 * 2 ^ 3 + 2 ^ 2 + t / 2 ^ 28 % 2 ^ 2), .ofNat 8 (t / 2 ^ 20 % 2 ^ 8),
    .ofNat 8 (t / 2 ^ 15 % 2 ^ 5 * 2 ^ 3 + 2 ^ 2 + t / 2 ^ 13 % 2 ^ 2), .ofNat 8 (t / 2 ^ 5 % 2 ^ 8),
    .ofNat 8 (t % 2 ^ 5 * 2 ^ 3 + 2 ^ 2 + ext % 2 ^ 2)⟩

theorem parts_ofTime (pre t : ℕ) :
    (Clock.ofTime pre t).parts.foldr (· ||| ·) 0 = BitVec.ofNat 32 (t % 2 ^ 30) := by
  have h1 : shl (.ofNat 8 (t / 2 ^ 22 % 2 ^ 8)) 0xFF 22 = .ofNat 32 (t / 2 ^ 22 % 2 ^ 8 * 2 ^ 22) :=
    shl_eq 8 0 (by omega) (by omega)
  have h2 : shl (.ofNat 8 (t / 2 ^ 15 % 2 ^ 7 * 2 + 1)) 0xFE 14 = .ofNat 32 (t / 2 ^ 15 % 2 ^ 7 * 2 ^ 15) :=
    shl_eq 7 1 (by omega) (by omega)
  have h3 : shl (.ofNat 8 (t / 2 ^ 7 % 2 ^ 8)) 0xFF 7 = .ofNat 32 (t / 2 ^ 7 % 2 ^ 8 * 2 ^ 7) :=
    shl_eq 8 0 (by omega) (by omega)
  have h4 : shr (.ofNat 8 (t % 2 ^ 7 * 2 + 1)) 0xFE 1 = .ofNat 32 (t % 2 ^ 7) :=
    shr_eq 7 1 (by omega) (by omega)
  unfold Clock.parts Clock.ofTime
  simp only [List.foldr_cons, List.foldr_nil]
  rw [h1, h2, h3, h4]
  refine (congrArg (_ ||| ·) (congrArg (_ ||| ·) (congrArg (_ ||| ·) BitVec.or_zero))).trans ?_
  rw [ofNat_or (by omega), ofNat_or (by omega), ofNat_or (by omega)]
  congr 1
  omega

theorem stamp_ofTime (hpre : pre < 2 ^ 4) (ht : t < 2 ^ 33) :
    (Clock.ofTime pre t).stamp = Int.bmod t (2 ^ 32) := by
  have h0 : shl (.ofNat 8 (pre * 2 ^ 4 + t / 2 ^ 30 % 8 * 2 + 1)) 0x0E 29 = .ofNat 32 (t / 2 ^ 30 * 2 ^ 30) :=
    shl_eq 3 1 (by omega) (by omega)
  unfold Clock.stamp
  refine toInt_joined ?_
  rw [List.foldr_cons, parts_ofTime]
  unfold Clock.ofTime
  rw [h0, ofNat_or (by omega)]
  congr 1
  omega

theorem scr1_ofTime (hpre : pre < 2 ^ 4) :
    (Clock.ofTime pre t).scr1 = Int.bmod ((t / 2 ^ 30 % 2 * 2 ^ 31 + t % 2 ^ 30 : ℕ) : ℤ) (2 ^ 32) := by
  have h0 : shl (.ofNat 8 (pre * 2 ^ 4 + t / 2 ^ 30 % 8 * 2 + 1)) 0x02 30 =
      .ofNat 32 (t / 2 ^ 30 % 2 * 2 * 2 ^ 30) := shl_eq 1 1 (by omega) (by omega)
  unfold Clock.scr1
  refine toInt_joined ?_
  rw [List.foldr_cons, parts_ofTime]
  unfold Clock.ofTime
  rw [h0, ofNat_or (by omega), Nat.mul_assoc, ← Nat.pow_succ']

theorem scr2_ofScr (t ext : ℕ) : (Clock.ofScr t ext).scr2 = Int.bmod ((t % 2 ^ 31 : ℕ) : ℤ) (2 ^ 32) := by
  have hb0 : 2 ^ 6 + t / 2 ^ 30 % 8 * 2 ^ 3 + 2 ^ 2 + t / 2 ^ 28 % 2 ^ 2 < 2 ^ 8 := by omega
  have hb2 : t / 2 ^ 15 % 2 ^ 5 * 2 ^ 3 + 2 ^ 2 + t / 2 ^ 13 % 2 ^ 2 < 2 ^ 8 := by omega
  have h0 : shl (.ofNat 8 (2 ^ 6 + t / 2 ^ 30 % 8 * 2 ^ 3 + 2 ^ 2 + t / 2 ^ 28 % 2 ^ 2)) 0x08 27 =
      .ofNat 32 (t / 2 ^ 30 % 2 * 2 ^ 30) := shl_eq 1 3 hb0 (by omega)
  have h0' : shl (.ofNat 8 (2 ^ 6 + t / 2 ^ 30 % 8 * 2 ^ 3 + 2 ^ 2 + t / 2 ^ 28 % 2 ^ 2)) 0x03 28 =
      .ofNat 32 (t / 2 ^ 28 % 2 ^ 2 * 2 ^ 28) := shl_eq 2 0 hb0 (by omega)
  have h1 : shl (.ofNat 8 (t / 2 ^ 20 % 2 ^ 8)) 0xFF 20 = .ofNat 32 (t / 2 ^ 20 % 2 ^ 8 * 2 ^ 20) :=
    shl_eq 8 0 (by omega) (by omega)
  have h2 : shl (.ofNat 8 (t / 2 ^ 15 % 2 ^ 5 * 2 ^ 3 + 2 ^ 2 + t / 2 ^ 13 % 2 ^ 2)) 0xF8 12 =
      .ofNat 32 (t / 2 ^ 15 % 2 ^ 5 * 2 ^ 15) := shl_eq 5 3 hb2 (by omega)
  have h2' : shl (.ofNat 8 (t / 2 ^ 15 % 2 ^ 5 * 2 ^ 3 + 2 ^ 2 + t / 2 ^ 13 % 2 ^ 2)) 0x03 13 =
      .ofNat 32 (t / 2 ^ 13 % 2 ^ 2 * 2 ^ 13) := shl_eq 2 0 hb2 (by omega)
  have h3 : shl (.ofNat 8 (t / 2 ^ 5 % 2 ^ 8)) 0xFF 5 = .ofNat 32 (t / 2 ^ 5 % 2 ^ 8 * 2 ^ 5) :=
    shl_eq 8 0 (by omega) (by omega)
  have h4 : shr (.ofNat 8 (t % 2 ^ 5 * 2 ^ 3 + 2 ^ 2 + ext % 2 ^ 2)) 0xF8 3 = .ofNat 32 (t % 2 ^ 5) :=
    shr_eq 5 3 (by omega) (by omega)
  unfold Clock.scr2 Clock.ofScr
  refine toInt_joined ?_
  simp only [List.foldr_cons, List.foldr_nil]
  rw [h0, h0', h1, h2, h2', h3, h4, show (0 : BitVec 32) = BitVec.ofNat 32 0 from rfl,
    ← Nat.mul_one (t % 2 ^ 5), ← Nat.pow_zero 2, ofNat_or (by decide), ofNat_or (by omega), ofNat_or (by omega),
    ofNat_or (by omega), ofNat_or (by omega), ofNat_or (by omega), ofNat_or (by omega)]
  congr 1
  omega

/-! ## The transport stream -/

/-- The time stamp in `demux_ts_parse_pes_header`, with the widths of its parts. -/
def Clock.tsStamp (b : Clock) : ℤ := (joined ((b.b0 &&& 0x0E).setWidth 64 <<< 29) b.parts).toInt

def Clock.pcr (b : Clock) : ℤ :=
  ((b.b0 &&& 0xFF).setWidth 64 <<< 25 + (shl b.b1 0xFF 17).signExtend 64 + (shl b.b2 0xFF 9).signExtend 64 +
    (shl b.b3 0xFF 1).signExtend 64 + (shr b.b4 0x80 7).signExtend 64 : BitVec 64).toInt

def demuxTsAdaptationFieldParse (data : ℕ → Byte) : ℤ :=
  if (data 0).toNat >>> 4 &&& 0x01 = 0 then 0 else Clock.pcr ⟨data 1, data 2, data 3, data 4, data 5⟩

/-- The base of a clock of the program, with the reserved bits and the highest bit of its extension. -/
def Clock.ofPcr (t ext : ℕ) : Clock :=
  ⟨.ofNat 8 (t / 2 ^ 25 % 2 ^ 8), .ofNat 8 (t / 2 ^ 17 % 2 ^ 8), .ofNat 8 (t / 2 ^ 9 % 2 ^ 8),
    .ofNat 8 (t / 2 % 2 ^ 8), .ofNat 8 (t % 2 * 2 ^ 7 + 0x7E + ext % 2)⟩

theorem wide_eq (w j : ℕ) {v : ℕ} (hx : x < 2 ^ 8) (hv : x / 2 ^ j % 2 ^ w * 2 ^ j * 2 ^ n = v) :
    (BitVec.ofNat 8 x &&& BitVec.ofNat 8 ((2 ^ w - 1) * 2 ^ j)).setWidth 64 <<< n = BitVec.ofNat 64 v := by
  refine BitVec.eq_of_toNat_eq ?_
  rw [BitVec.toNat_shiftLeft, masked hx _ _ (by decide), Nat.shiftLeft_eq, hv, BitVec.toNat_ofNat]

theorem signExtend_ofNat (h : n < 2 ^ 31) : (BitVec.ofNat 32 n).signExtend 64 = BitVec.ofNat 64 n := by
  have hmsb : (BitVec.ofNat 32 n).msb = false := by
    rw [BitVec.msb_eq_decide, BitVec.toNat_ofNat]
    exact decide_eq_false (by omega)
  refine BitVec.eq_of_toNat_eq ?_
  rw [BitVec.signExtend_eq_setWidth_of_msb_false hmsb, BitVec.toNat_setWidth, BitVec.toNat_ofNat,
    BitVec.toNat_ofNat]
  omega

theorem toInt_wide (h : n < 2 ^ 63) : (BitVec.ofNat 64 n).toInt = n := by
  rw [BitVec.toInt_ofNat']
  exact Int.bmod_eq_of_le (by omega) (by omega)

theorem tsStamp_ofTime (hpre : pre < 2 ^ 4) (ht : t < 2 ^ 33) : (Clock.ofTime pre t).tsStamp = t := by
  have h0 : (BitVec.ofNat 8 (pre * 2 ^ 4 + t / 2 ^ 30 % 8 * 2 + 1) &&& 0x0E).setWidth 64 <<< 29 =
      .ofNat 64 (t / 2 ^ 30 * 2 ^ 30) := wide_eq 3 1 (by omega) (by omega)
  have hsum : t / 2 ^ 30 * 2 ^ 30 + t % 2 ^ 30 = t := by omega
  unfold Clock.tsStamp
  rw [joined_eq, parts_ofTime, signExtend_ofNat (by omega)]
  unfold Clock.ofTime
  rw [h0, ofNat_or (by omega), hsum]
  exact toInt_wide (by omega)

theorem parsePts_ofTime {p : ℕ → ℕ} (ht : t < 2 ^ 33)
    (h0 : p 9 = (Clock.ofTime pre t).b0.toNat) (h1 : p 10 = (Clock.ofTime pre t).b1.toNat)
    (h2 : p 11 = (Clock.ofTime pre t).b2.toNat) (h3 : p 12 = (Clock.ofTime pre t).b3.toNat)
    (h4 : p 13 = (Clock.ofTime pre t).b4.toNat) : DemuxTs.parsePts p = t := by
  have hor {a b k : ℕ} (h : b < 2 ^ k) : a * 2 ^ k ||| b = a * 2 ^ k + b := by
    rw [Nat.mul_comm, Nat.two_pow_add_eq_or_of_lt h]
  have h0E (x : ℕ) : x &&& 0x0E = x / 2 % 8 * 2 := and_mask x 1 3
  have hFE (x : ℕ) : x &&& 0xFE = x / 2 % 128 * 2 := and_mask x 1 7
  have e0 : (p 9 &&& 0x0E) <<< 29 = t / 2 ^ 30 * 2 ^ 30 := by
    rw [h0, h0E, Nat.shiftLeft_eq]
    simp only [Clock.ofTime, BitVec.toNat_ofNat]
    omega
  have e1 : p 10 <<< 22 = t / 2 ^ 22 % 2 ^ 8 * 2 ^ 22 := by
    rw [h1, Nat.shiftLeft_eq]
    simp only [Clock.ofTime, BitVec.toNat_ofNat, Nat.mod_mod]
  have e2 : (p 11 &&& 0xFE) <<< 14 = t / 2 ^ 15 % 2 ^ 7 * 2 ^ 15 := by
    rw [h2, hFE, Nat.shiftLeft_eq]
    simp only [Clock.ofTime, BitVec.toNat_ofNat]
    omega
  have e3 : p 12 <<< 7 = t / 2 ^ 7 % 2 ^ 8 * 2 ^ 7 := by
    rw [h3, Nat.shiftLeft_eq]
    simp only [Clock.ofTime, BitVec.toNat_ofNat, Nat.mod_mod]
  have e4 : (p 13 &&& 0xFE) >>> 1 = t % 2 ^ 7 := by
    rw [h4, hFE, Nat.shiftRight_eq_div_pow]
    simp only [Clock.ofTime, BitVec.toNat_ofNat]
    omega
  unfold DemuxTs.parsePts
  rw [e0, e1, e2, e3, e4, Nat.or_assoc, Nat.or_assoc, Nat.or_assoc, hor (k := 7) (by omega),
    hor (k := 15) (by omega), hor (k := 22) (by omega), hor (k := 30) (by omega)]
  omega

theorem pcr_ofPcr (ht : t < 2 ^ 33) (ext : ℕ) : (Clock.ofPcr t ext).pcr = t := by
  have h0 : (BitVec.ofNat 8 (t / 2 ^ 25 % 2 ^ 8) &&& 0xFF).setWidth 64 <<< 25 =
      .ofNat 64 (t / 2 ^ 25 * 2 ^ 25) := wide_eq 8 0 (by omega) (by omega)
  have h1 : shl (.ofNat 8 (t / 2 ^ 17 % 2 ^ 8)) 0xFF 17 = .ofNat 32 (t / 2 ^ 17 % 2 ^ 8 * 2 ^ 17) :=
    shl_eq 8 0 (by omega) (by omega)
  have h2 : shl (.ofNat 8 (t / 2 ^ 9 % 2 ^ 8)) 0xFF 9 = .ofNat 32 (t / 2 ^ 9 % 2 ^ 8 * 2 ^ 9) :=
    shl_eq 8 0 (by omega) (by omega)
  have h3 : shl (.ofNat 8 (t / 2 % 2 ^ 8)) 0xFF 1 = .ofNat 32 (t / 2 % 2 ^ 8 * 2) :=
    shl_eq 8 0 (by omega) (by omega)
  have h4 : shr (.ofNat 8 (t % 2 * 2 ^ 7 + 0x7E + ext % 2)) 0x80 7 = .ofNat 32 (t % 2) :=
    shr_eq 1 7 (by omega) (by omega)
  have hsum : t / 2 ^ 25 * 2 ^ 25 + t / 2 ^ 17 % 2 ^ 8 * 2 ^ 17 + t / 2 ^ 9 % 2 ^ 8 * 2 ^ 9 + t / 2 % 2 ^ 8 * 2 +
      t % 2 = t := by omega
  unfold Clock.pcr Clock.ofPcr
  dsimp only
  rw [h0, h1, h2, h3, h4, signExtend_ofNat (by omega), signExtend_ofNat (by omega), signExtend_ofNat (by omega),
    signExtend_ofNat (by omega), ← BitVec.ofNat_add, ← BitVec.ofNat_add, ← BitVec.ofNat_add, ← BitVec.ofNat_add,
    hsum]
  exact toInt_wide (by omega)

end Xine.MpegBlock
