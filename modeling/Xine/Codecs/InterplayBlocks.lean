import Xine.Codecs.Interplay

/-!
# The blocks of an Interplay frame

What each encoding says about the 64 pixels of a block, by their row and column, and how many bytes it has in the
stream.
-/

namespace Xine.Codecs.InterplayDecoder

open Octets (Byte)
open Tiles Runs

variable (this : InterplayDecoder)

/-! ## Encodings -/

/-- The number of bytes of a block. -/
def declared (s : ℕ) : ℕ → ℕ
  | 0x2 | 0x3 | 0x4 | 0xE => 1
  | 0x5 | 0xF => 2
  | 0x7 => if (this.buf s).toNat ≤ (this.buf (s + 1)).toNat then 10 else 4
  | 0x8 => if (this.buf s).toNat ≤ (this.buf (s + 1)).toNat then 16 else 12
  | 0x9 =>
    if (this.buf s).toNat ≤ (this.buf (s + 1)).toNat then
      if (this.buf (s + 2)).toNat ≤ (this.buf (s + 3)).toNat then 20 else 8
    else 12
  | 0xA => if (this.buf s).toNat ≤ (this.buf (s + 1)).toNat then 32 else 24
  | 0xB => 64
  | 0xC => 16
  | 0xD => 4
  | _ => 0

/-- A flag for each pixel, or for each 2x2 block. -/
def pattern7 (s r c : ℕ) : Yuv :=
  if (this.buf s).toNat ≤ (this.buf (s + 1)).toNat then
    this.twoColor ((this.buf (s + 2 + r)).toNat.testBit (7 - c)) s (s + 1)
  else this.twoColor ((this.be16 (s + 2)).testBit (15 - (r / 2 * 4 + c / 2))) s (s + 1)

/-- Two colours and flags for each quadrant, for the left and the right half, or for the top and the bottom one. -/
def pattern8 (s r c : ℕ) : Yuv :=
  if (this.buf s).toNat ≤ (this.buf (s + 1)).toNat then
    let q := s + 4 * (r / 4 + 2 * (c / 4))
    this.twoColor ((this.be16 (q + 2)).testBit (15 - (r % 4 * 4 + c % 4))) q (q + 1)
  else if (this.buf (s + 6)).toNat ≤ (this.buf (s + 7)).toNat then
    let h := s + 6 * (c / 4)
    this.twoColor ((this.be32 (h + 2)).testBit (31 - (r * 4 + c % 4))) h (h + 1)
  else
    let h := s + 6 * (r / 4)
    this.twoColor ((this.be32 (h + 2)).testBit (31 - (r % 4 * 8 + c))) h (h + 1)

/-- Two flags for each pixel, for each 2x2 block, for each two pixels of a row, or for each two of a column. -/
def pattern9 (s r c : ℕ) : Yuv :=
  if (this.buf s).toNat ≤ (this.buf (s + 1)).toNat then
    if (this.buf (s + 2)).toNat ≤ (this.buf (s + 3)).toNat then
      this.fourColor s (this.be16 (s + 4 + 2 * r)) (14 - 2 * c)
    else this.fourColor s (this.be32 (s + 4)) (30 - 2 * (r / 2 * 4 + c / 2))
  else
    if (this.buf (s + 2)).toNat ≤ (this.buf (s + 3)).toNat then
      this.fourColor s (this.be32 (s + 4 + 4 * (r / 4))) (30 - 2 * (r % 4 * 4 + c / 2))
    else this.fourColor s (this.be32 (s + 4 + 4 * (r / 4))) (30 - 2 * (r / 2 % 2 * 8 + c))

/-- Four colours and flags for each quadrant, for the left and the right half, or for the top and the bottom one. -/
def patternA (s r c : ℕ) : Yuv :=
  if (this.buf s).toNat ≤ (this.buf (s + 1)).toNat then
    let q := s + 8 * (r / 4 + 2 * (c / 4))
    this.fourColor q (this.be32 (q + 4)) (30 - 2 * (r % 4 * 4 + c % 4))
  else if (this.buf (s + 2)).toNat ≤ (this.buf (s + 3)).toNat then
    let h := s + 12 * (c / 4)
    this.fourColor h (this.be32 (h + 4 + 4 * (r / 4))) (30 - 2 * (r % 4 * 4 + c % 4))
  else
    let h := s + 12 * (r / 4)
    this.fourColor h (this.be32 (h + 4 + 4 * (r % 4 / 2))) (30 - 2 * (r % 2 * 8 + c))

/-- The colour of a pixel, where a code has colours. -/
def pattern (s code r c : ℕ) : Yuv :=
  match code with
  | 0x7 => this.pattern7 s r c
  | 0x8 => this.pattern8 s r c
  | 0x9 => this.pattern9 s r c
  | 0xA => this.patternA s r c
  | 0xB => this.color (s + (r * 8 + c))
  | 0xC => this.color (s + (r / 2 * 4 + c / 2))
  | 0xD => this.color (s + (r / 4 * 2 + c / 4))
  | 0xE => this.color s
  | _ => if r % 2 = c % 2 then this.color s else this.color (s + 1)

/-- The vector of a code that copies a block. -/
def motion (s : ℕ) : ℕ → ℤ × ℤ
  | 0x2 => (motionX (this.buf s).toNat, motionY (this.buf s).toNat)
  | 0x3 => (-motionX (this.buf s).toNat, -motionY (this.buf s).toNat)
  | 0x4 => (-8 + ((this.buf s).toNat % 16 : ℕ), -8 + ((this.buf s).toNat / 16 : ℕ))
  | 0x5 => ((this.buf s).toInt, (this.buf (s + 1)).toInt)
  | _ => (0, 0)

/-- The frame that a code copies from. -/
def source (frame : ℕ → Yuv) (code : ℕ) : ℕ → Yuv :=
  if code = 0x2 ∨ code = 0x3 then frame else this.previous_frame

variable {this}

/-- The addressed block lies inside the frame, with its first pixel in the row `my` and the column `mx`. -/
def Addressed (s : InterplayState) (b : this.Block) (my mx : ℕ) : Prop :=
  (mx : ℤ) = 8 * b.2 + (this.motion s.stream_ptr (code b)).1 ∧
    (my : ℤ) = 8 * b.1 + (this.motion s.stream_ptr (code b)).2 ∧
    mx + 8 ≤ this.width ∧ my + 8 ≤ this.height

/-- The block is painted as its encoding says, inside the block only, and the stream goes on behind its bytes. -/
structure Paints (s : InterplayState) (b : this.Block) (written : Written) : Prop where
  advance : written.2 = s.stream_ptr + this.declared s.stream_ptr (code b)
  colors : 7 ≤ code b → ∀ r < 8, ∀ c < 8, assigned written.1 (place b + r * this.width + c) =
    some (this.pattern s.stream_ptr (code b) r c)
  copy : code b ≤ 5 → ∀ my mx, Addressed s b my mx → ∀ r < 8, ∀ c < 8,
    assigned written.1 (place b + r * this.width + c) =
      some (this.source s.current_frame (code b) ((my + r) * this.width + (mx + c)))
  inside : ∀ w ∈ written.1, ∃ r < 8, ∃ c < 8, w.1 = place b + r * this.width + c

/-- The block is decoded, and is painted. -/
def Painted (s : InterplayState) (b : this.Block) : Prop :=
  ∃ written, this.decodeBlock s.current_frame (place b) s.stream_ptr (code b) = some written ∧ Paints s b written

/-- The bytes of the block are there. A block that is copied is not addressed in the last row of blocks, and its rows are
all alike. The 1x2 layout of 0x9 and the halves of 0xA are not used. -/
structure Sound (s : InterplayState) (b : this.Block) : Prop where
  enough : this.declared s.stream_ptr (code b) = 0 ∨
    s.stream_ptr + this.declared s.stream_ptr (code b) ≤ this.size
  rows : code b ≤ 5 → ∀ my mx, Addressed s b my mx → my + 8 < this.height ∧ ∀ r < 8, ∀ c < 8,
    this.source s.current_frame (code b) (my * this.width + (mx + c)) =
      this.source s.current_frame (code b) ((my + r) * this.width + (mx + c))
  tall : code b = 0x9 → (this.buf s.stream_ptr).toNat ≤ (this.buf (s.stream_ptr + 1)).toNat ∨
    (this.buf (s.stream_ptr + 2)).toNat ≤ (this.buf (s.stream_ptr + 3)).toNat
  halves : code b = 0xA → (this.buf s.stream_ptr).toNat ≤ (this.buf (s.stream_ptr + 1)).toNat

variable {s : InterplayState} {b : this.Block}

theorem check_of_le {α : Type} {stream_ptr n : ℕ} {rest : Option α} (h : stream_ptr + n ≤ this.size) :
    this.check stream_ptr n rest = rest :=
  if_neg (Nat.not_lt.2 h)

theorem check_eq_some {α : Type} {stream_ptr n : ℕ} {rest : Option α} {r : α}
    (h : this.check stream_ptr n rest = some r) : stream_ptr + n ≤ this.size ∧ rest = some r := by
  unfold check at h
  split_ifs at h with hlt
  exact ⟨Nat.not_lt.1 hlt, h⟩

theorem code_lt (b : this.Block) : code b < 16 := by
  have hlt (byte : Byte) : byte.toNat / 16 < 16 := by
    have := byte.isLt
    omega
  unfold code
  dsimp only
  split_ifs
  · exact hlt _
  · exact Nat.mod_lt _ (by decide)

theorem width_ge (b : this.Block) : 8 ≤ this.width := by
  have := b.2.isLt
  unfold width
  omega

/-! ## Blocks with colours -/

/-- The block is painted by tiles with the pattern of its code, and the pointer goes on by the declared bytes. -/
def IsTiling (this : InterplayDecoder) (x s code : ℕ) (written : Option Written) : Prop :=
  ∃ rows cols places color, written = some (tiles this.width x rows cols places color, s + this.declared s code) ∧
    Tiling 8 rows cols places color (this.pattern s code)

section Tilings

variable {x p my mx : ℕ}

theorem mod8 {r : ℕ} (hr : r < 8) : r % 8 = r := Nat.mod_eq_of_lt hr

theorem decode7_tiling (h : p + this.declared p 0x7 ≤ this.size) : IsTiling this x p 0x7 (this.decode7 x p) := by
  have hdeclared : this.declared p 0x7 = if (this.buf p).toNat ≤ (this.buf (p + 1)).toNat then 10 else 4 := rfl
  unfold IsTiling decode7
  rw [hdeclared] at h ⊢
  split_ifs at h ⊢ with hle
  · refine ⟨8, 8, [(0, 0)], _, check_of_le (by omega), ?_⟩
    refine ⟨by decide, by decide, by decide, by decide, fun r hr c hc => ?_⟩
    rw [mod8 hr, mod8 hc]
    exact (if_pos hle).symm
  · refine ⟨2, 2, rowMajor 4 4, _, check_of_le (by omega), ?_⟩
    exact ⟨by decide, by decide, by decide, by decide, fun r _ c _ => (if_neg hle).symm⟩

theorem decode8_tiling (h : p + this.declared p 0x8 ≤ this.size) : IsTiling this x p 0x8 (this.decode8 x p) := by
  have hdeclared : this.declared p 0x8 = if (this.buf p).toNat ≤ (this.buf (p + 1)).toNat then 16 else 12 := rfl
  have hpattern (r c : ℕ) : this.pattern p 0x8 r c = this.pattern8 p r c := rfl
  unfold IsTiling decode8
  rw [hdeclared] at h ⊢
  split_ifs at h ⊢ with hle hhalf
  · refine ⟨4, 4, quadrants, _, (check_of_le (by omega)).trans (check_of_le (by omega)), ?_⟩
    exact ⟨by decide, by decide, by decide, by decide, fun r _ c _ => (if_pos hle).symm⟩
  · refine ⟨8, 4, [(0, 0), (0, 1)], _, (check_of_le (by omega)).trans (check_of_le (by omega)), ?_⟩
    refine ⟨by decide, by decide, by decide, by decide, fun r hr c hc => ?_⟩
    rw [hpattern, pattern8, if_neg hle, if_pos hhalf, mod8 hr]
  · refine ⟨4, 8, [(0, 0), (1, 0)], _, (check_of_le (by omega)).trans (check_of_le (by omega)), ?_⟩
    refine ⟨by decide, by decide, by decide, by decide, fun r hr c hc => ?_⟩
    rw [hpattern, pattern8, if_neg hle, if_neg hhalf, mod8 hc]

theorem decode9_tiling (h : p + this.declared p 0x9 ≤ this.size)
    (htall : (this.buf p).toNat ≤ (this.buf (p + 1)).toNat ∨
      (this.buf (p + 2)).toNat ≤ (this.buf (p + 3)).toNat) : IsTiling this x p 0x9 (this.decode9 x p) := by
  have hdeclared : this.declared p 0x9 = if (this.buf p).toNat ≤ (this.buf (p + 1)).toNat then
      if (this.buf (p + 2)).toNat ≤ (this.buf (p + 3)).toNat then 20 else 8 else 12 := rfl
  have hpattern (r c : ℕ) : this.pattern p 0x9 r c = this.pattern9 p r c := rfl
  unfold IsTiling decode9
  rw [hdeclared] at h ⊢
  dsimp only
  by_cases h01 : (this.buf p).toNat ≤ (this.buf (p + 1)).toNat
  · by_cases h23 : (this.buf (p + 2)).toNat ≤ (this.buf (p + 3)).toNat
    · rw [if_pos h01, if_pos h23] at h ⊢
      rw [if_pos ⟨h01, h23⟩]
      refine ⟨8, 8, [(0, 0)], _, (check_of_le (by omega)).trans (check_of_le (by omega)), ?_⟩
      refine ⟨by decide, by decide, by decide, by decide, fun r hr c hc => ?_⟩
      rw [hpattern, pattern9, if_pos h01, if_pos h23, mod8 hr, mod8 hc]
    · rw [if_pos h01, if_neg h23] at h ⊢
      rw [if_neg fun hboth => h23 hboth.2, if_pos ⟨h01, h23⟩]
      refine ⟨2, 2, rowMajor 4 4, _, (check_of_le (by omega)).trans (check_of_le (by omega)), ?_⟩
      refine ⟨by decide, by decide, by decide, by decide, fun r hr c hc => ?_⟩
      rw [hpattern, pattern9, if_pos h01, if_neg h23]
  · have h23 := htall.resolve_left h01
    rw [if_neg h01] at h ⊢
    rw [if_neg fun hboth => h01 hboth.1, if_neg fun hboth => h01 hboth.1, if_pos ⟨h01, h23⟩]
    refine ⟨1, 2, rowMajor 8 4, _, (check_of_le (by omega)).trans (check_of_le (by omega)), ?_⟩
    refine ⟨by decide, by decide, by decide, by decide, fun r hr c hc => ?_⟩
    rw [hpattern, pattern9, if_neg h01, if_pos h23, Nat.div_one]

theorem decodeA_tiling (h : p + this.declared p 0xA ≤ this.size)
    (hhalves : (this.buf p).toNat ≤ (this.buf (p + 1)).toNat) : IsTiling this x p 0xA (this.decodeA x p) := by
  have hdeclared : this.declared p 0xA = 32 := if_pos hhalves
  unfold IsTiling decodeA
  rw [hdeclared] at h ⊢
  rw [if_pos hhalves]
  refine ⟨4, 4, quadrants, _, (check_of_le (by omega)).trans (check_of_le (by omega)), ?_⟩
  exact ⟨by decide, by decide, by decide, by decide, fun r _ c _ => (if_pos hhalves).symm⟩

theorem decodeBlock_tiling (frame : ℕ → Yuv) {code : ℕ} (h7 : 7 ≤ code) (h16 : code < 16)
    (h : p + this.declared p code ≤ this.size)
    (htall : code = 0x9 → (this.buf p).toNat ≤ (this.buf (p + 1)).toNat ∨
      (this.buf (p + 2)).toNat ≤ (this.buf (p + 3)).toNat)
    (hhalves : code = 0xA → (this.buf p).toNat ≤ (this.buf (p + 1)).toNat) :
    IsTiling this x p code (this.decodeBlock frame x p code) := by
  obtain rfl | rfl | rfl | rfl | rfl | rfl | rfl | rfl | rfl : code = 7 ∨ code = 8 ∨ code = 9 ∨ code = 10 ∨
      code = 11 ∨ code = 12 ∨ code = 13 ∨ code = 14 ∨ code = 15 := by omega
  · exact decode7_tiling h
  · exact decode8_tiling h
  · exact decode9_tiling h (htall rfl)
  · exact decodeA_tiling h (hhalves rfl)
  · refine ⟨8, 8, [(0, 0)], _, check_of_le h, by decide, by decide, by decide, by decide, fun r hr c hc => ?_⟩
    rw [mod8 hr, mod8 hc]
    rfl
  · exact ⟨2, 2, rowMajor 4 4, _, check_of_le h, by decide, by decide, by decide, by decide, fun _ _ _ _ => rfl⟩
  · exact ⟨4, 4, rowMajor 2 2, _, check_of_le h, by decide, by decide, by decide, by decide, fun _ _ _ _ => rfl⟩
  · exact ⟨8, 8, [(0, 0)], _, check_of_le h, by decide, by decide, by decide, by decide, fun _ _ _ _ => rfl⟩
  · refine ⟨8, 8, [(0, 0)], _, check_of_le h, by decide, by decide, by decide, by decide, fun r hr c hc => ?_⟩
    rw [mod8 hr, mod8 hc]
    unfold twoColor pattern
    by_cases heven : r % 2 = c % 2
    · simp [heven]
    · simp [heven]

/-! ## Blocks that are copied -/

theorem copyRowsCurrent_eq (hwidth : 8 ≤ this.width) {m : ℕ} {frame : ℕ → Yuv} {rows : ℕ}
    (hapart : ∀ i < rows, ∀ j < 8, ∀ k < 8, x + i * this.width + j ≠ m + k) :
    this.copyRowsCurrent rows frame x m = rect 8 (this.width - 8) rows x fun _ k => frame (m + k) := by
  induction rows generalizing frame x with
  | zero => rfl
  | succ rows ih =>
    have hnext : x + 8 + (this.width - 8) = x + this.width := by omega
    have hline (k : ℕ) (hk : k < 8) : perform (row 8 x fun j => frame (m + j)) frame (m + k) = frame (m + k) := by
      have hnone : assigned (row 8 x fun j => frame (m + j)) (m + k) = none := by
        apply assigned_eq_none
        intro w hw
        obtain ⟨j, hj, heq⟩ := mem_row hw
        have := hapart 0 (Nat.succ_pos rows) j hj k hk
        omega
      rw [perform_apply, hnone]
      rfl
    have hrest : this.copyRowsCurrent rows (perform (row 8 x fun j => frame (m + j)) frame) (x + this.width) m =
        rect 8 (this.width - 8) rows (x + this.width) fun _ k =>
          perform (row 8 x fun j => frame (m + j)) frame (m + k) := by
      apply ih
      intro i hi j hj k hk
      have := hapart (i + 1) (Nat.succ_lt_succ hi) j hj k hk
      rw [Nat.succ_mul] at this
      omega
    rw [copyRowsCurrent, rect, hrest, hnext]
    exact congrArg _ (rect_congr fun _ _ k hk => hline k hk)

theorem place_eq (b : this.Block) (r c : ℕ) :
    place b + r * this.width + c = (8 * b.1 + r) * this.width + (8 * b.2 + c) := by
  unfold place
  rw [Nat.add_mul]
  omega

theorem motion_ptr (h : Addressed s b my mx) :
    (place b : ℤ) + (this.motion s.stream_ptr (code b)).1 + (this.motion s.stream_ptr (code b)).2 * this.width =
      ((my * this.width + mx : ℕ) : ℤ) := by
  obtain ⟨hx, hy, -, -⟩ := h
  unfold place
  push_cast
  rw [hx, hy, Int.add_mul]
  omega

theorem copyBlock_inside (copyRows : ℕ → ℕ → List (ℕ × Yuv)) (pixel_ptr : ℕ) {my mx : ℕ}
    (hmx : mx + 8 ≤ this.width) (hmy : my + 8 ≤ this.height) :
    this.copyBlock copyRows pixel_ptr ((my * this.width + mx : ℕ) : ℤ) =
      if my + 8 < this.height then copyRows pixel_ptr (my * this.width + mx) else [] := by
  have hlimit : this.motion_limit = (((this.height - 8) * this.width : ℕ) : ℤ) := by
    unfold motion_limit
    rw [Nat.mul_comm]
    push_cast [Nat.le_trans (Nat.le_add_left 8 my) hmy]
    rfl
  unfold copyBlock
  rw [if_neg (by omega), hlimit, Int.toNat_natCast]
  by_cases hlast : my + 8 < this.height
  · have hle : (my + 1) * this.width ≤ (this.height - 8) * this.width := Nat.mul_le_mul_right _ (by omega)
    rw [Nat.succ_mul] at hle
    rw [if_pos hlast, if_neg (by omega)]
  · have hle : (this.height - 8) * this.width ≤ my * this.width := Nat.mul_le_mul_right _ (by omega)
    rw [if_neg hlast, if_pos (by omega)]

/-- What a code that copies writes. -/
def copyOf (this : InterplayDecoder) (frame : ℕ → Yuv) (x code : ℕ) (v : ℤ × ℤ) : List (ℕ × Yuv) :=
  if code = 0x2 ∨ code = 0x3 then this.copyFromCurrent frame x v.1 v.2 else this.copyFromPrevious x v.1 v.2

theorem decodeBlock_copy (frame : ℕ → Yuv) {code : ℕ} (h5 : code ≤ 5) : this.decodeBlock frame x p code =
    if this.declared p code = 0 then some (this.copyOf frame x code (this.motion p code), p)
    else this.check p (this.declared p code)
      (some (this.copyOf frame x code (this.motion p code), p + this.declared p code)) := by
  obtain rfl | rfl | rfl | rfl | rfl | rfl :
      code = 0 ∨ code = 1 ∨ code = 2 ∨ code = 3 ∨ code = 4 ∨ code = 5 := by omega
  all_goals rfl

theorem motion_apart (m : Byte) : 8 ≤ motionX m.toNat ∨ 8 ≤ motionY m.toNat := by
  unfold motionX motionY
  split_ifs
  · exact .inl (by omega)
  · exact .inr (by omega)

theorem copyOf_addressed (h : Addressed s b my mx) :
    this.copyOf s.current_frame (place b) (code b) (this.motion s.stream_ptr (code b)) =
      if my + 8 < this.height then
        rect 8 (this.width - 8) 8 (place b) fun _ k =>
          this.source s.current_frame (code b) (my * this.width + mx + k)
      else [] := by
  have hptr := motion_ptr h
  obtain ⟨hx, hy, hmx, hmy⟩ := h
  unfold copyOf source
  by_cases hcurrent : code b = 0x2 ∨ code b = 0x3
  · rw [if_pos hcurrent, if_pos hcurrent, copyFromCurrent, hptr, copyBlock_inside _ _ hmx hmy]
    refine if_congr Iff.rfl (copyRowsCurrent_eq (width_ge b) fun i hi j hj k hk heq => ?_) rfl
    -- the same place would be in the same row and column of both blocks
    rw [place_eq, Nat.add_assoc] at heq
    have hcol := b.2.isLt
    have hwidth : this.width = 8 * this.columns := rfl
    obtain ⟨hrow, hcolumn⟩ := place_inj (by omega) (by omega) heq
    have hapart : 8 ≤ motionX (this.buf s.stream_ptr).toNat ∨ 8 ≤ motionY (this.buf s.stream_ptr).toNat :=
      motion_apart _
    obtain h2 | h3 := hcurrent
    · rw [h2] at hx hy
      have hx : (mx : ℤ) = 8 * b.2 + motionX (this.buf s.stream_ptr).toNat := hx
      have hy : (my : ℤ) = 8 * b.1 + motionY (this.buf s.stream_ptr).toNat := hy
      omega
    · rw [h3] at hx hy
      have hx : (mx : ℤ) = 8 * b.2 + -motionX (this.buf s.stream_ptr).toNat := hx
      have hy : (my : ℤ) = 8 * b.1 + -motionY (this.buf s.stream_ptr).toNat := hy
      omega
  · rw [if_neg hcurrent, if_neg hcurrent, copyFromPrevious, hptr, copyBlock_inside _ _ hmx hmy]
    rfl

theorem assigned_copyOf (h : Addressed s b my mx) {r c : ℕ} (hr : r < 8) (hc : c < 8) :
    assigned (this.copyOf s.current_frame (place b) (code b) (this.motion s.stream_ptr (code b)))
        (place b + r * this.width + c) =
      if my + 8 < this.height then some (this.source s.current_frame (code b) (my * this.width + (mx + c)))
      else none := by
  have hwidth := width_ge b
  rw [copyOf_addressed h]
  split_ifs
  · have hrect : assigned (rect 8 (this.width - 8) 8 (place b + 0 * this.width + 0) fun _ k =>
          this.source s.current_frame (code b) (my * this.width + mx + k)) (place b + r * this.width + c) =
        if 0 ≤ r ∧ r < 0 + 8 ∧ 0 ≤ c ∧ c < 0 + 8 then
          some (this.source s.current_frame (code b) (my * this.width + mx + (c - 0))) else none :=
      assigned_rect _ (by omega) (by omega) r c (by omega)
    rw [Nat.zero_mul, if_pos (by omega), Nat.sub_zero] at hrect
    rw [← Nat.add_assoc (my * this.width)]
    exact hrect
  · rfl

theorem mem_copyRowsCurrent {frame : ℕ → Yuv} {rows m : ℕ} {w : ℕ × Yuv}
    (h : w ∈ this.copyRowsCurrent rows frame x m) : ∃ i < rows, ∃ j < 8, w.1 = x + i * this.width + j := by
  induction rows generalizing frame x with
  | zero => exact absurd h List.not_mem_nil
  | succ rows ih =>
    obtain hline | hrest := List.mem_append.1 h
    · obtain ⟨j, hj, hw⟩ := mem_row hline
      exact ⟨0, Nat.succ_pos rows, j, hj, by rw [hw, Nat.zero_mul, Nat.add_zero]⟩
    · obtain ⟨i, hi, j, hj, hw⟩ := ih hrest
      exact ⟨i + 1, Nat.succ_lt_succ hi, j, hj, by rw [hw, Nat.succ_mul]; omega⟩

theorem mem_copyOf (b : this.Block) {frame : ℕ → Yuv} {code : ℕ} {v : ℤ × ℤ} {w : ℕ × Yuv}
    (h : w ∈ this.copyOf frame (place b) code v) :
    ∃ r < 8, ∃ c < 8, w.1 = place b + r * this.width + c := by
  have hwidth := width_ge b
  have hsum : 8 + (this.width - 8) = this.width := by omega
  unfold copyOf copyFromCurrent copyFromPrevious copyBlock at h
  split_ifs at h
  · exact absurd h List.not_mem_nil
  · exact absurd h List.not_mem_nil
  · exact mem_copyRowsCurrent h
  · exact absurd h List.not_mem_nil
  · exact absurd h List.not_mem_nil
  · have hmem := mem_rect h
    rwa [hsum] at hmem

/-! ## The wrong layouts -/

theorem assigned_tallBlocks (hwidth : 8 ≤ this.width) :
    assigned (this.tallBlocks x p) (x + 1 * this.width + 0) = none := by
  apply assigned_eq_none
  intro w hw heq
  obtain ⟨t, ht, hw⟩ := List.mem_flatMap.1 hw
  obtain ⟨-, hcol⟩ := mem_rowMajor.1 ht
  dsimp only at hw
  have htwo : t.1 * (this.width * 2) = 2 * t.1 * this.width := by
    rw [Nat.mul_comm this.width, ← Nat.mul_assoc, Nat.mul_comm t.1]
  obtain rfl | hw := List.mem_cons.1 hw
  · -- the first pixel is in an even row
    have hplace : 2 * t.1 * this.width + t.2 = 1 * this.width + 0 := by
      dsimp only at heq
      omega
    have := (place_inj (by omega) (by omega) hplace).1
    omega
  · -- the second one is in front of the row
    obtain rfl := List.mem_singleton.1 hw
    dsimp only at heq
    obtain hzero | hpos := Nat.eq_zero_or_pos t.1
    · have hnone : t.1 * (this.width * 2) = 0 := by rw [hzero, Nat.zero_mul]
      omega
    · have hle : 2 * this.width ≤ 2 * t.1 * this.width := Nat.mul_le_mul_right _ (by omega)
      omega

theorem decodeBlock_enough {frame : ℕ → Yuv} {code : ℕ} {written : Written} (h7 : 7 ≤ code) (h16 : code < 16)
    (h : this.decodeBlock frame x p code = some written) : p + this.declared p code ≤ this.size := by
  obtain rfl | rfl | rfl | rfl | rfl | rfl | rfl | rfl | rfl : code = 7 ∨ code = 8 ∨ code = 9 ∨ code = 10 ∨
      code = 11 ∨ code = 12 ∨ code = 13 ∨ code = 14 ∨ code = 15 := by omega
  · have hdeclared : this.declared p 0x7 = if (this.buf p).toNat ≤ (this.buf (p + 1)).toNat then 10 else 4 := rfl
    have h : this.decode7 x p = some written := h
    unfold decode7 at h
    rw [hdeclared]
    split_ifs at h ⊢
    all_goals
      have := (check_eq_some h).1
      omega
  · have hdeclared : this.declared p 0x8 = if (this.buf p).toNat ≤ (this.buf (p + 1)).toNat then 16 else 12 := rfl
    have h : this.decode8 x p = some written := h
    have hrest := (check_eq_some h).2
    rw [hdeclared]
    split_ifs at hrest ⊢
    all_goals
      have := (check_eq_some hrest).1
      omega
  · have hdeclared : this.declared p 0x9 = if (this.buf p).toNat ≤ (this.buf (p + 1)).toNat then
      if (this.buf (p + 2)).toNat ≤ (this.buf (p + 3)).toNat then 20 else 8 else 12 := rfl
    have h : this.decode9 x p = some written := h
    have hrest := (check_eq_some h).2
    dsimp only at hrest
    rw [hdeclared]
    by_cases h01 : (this.buf p).toNat ≤ (this.buf (p + 1)).toNat
    all_goals by_cases h23 : (this.buf (p + 2)).toNat ≤ (this.buf (p + 3)).toNat
    all_goals
      simp only [h01, h23, and_self, and_true, and_false, not_true_eq_false, not_false_eq_true, if_true,
        if_false] at hrest ⊢
      have := (check_eq_some hrest).1
      omega
  · have hdeclared : this.declared p 0xA = if (this.buf p).toNat ≤ (this.buf (p + 1)).toNat then 32 else 24 := rfl
    have h : this.decodeA x p = some written := h
    have hrest := (check_eq_some h).2
    rw [hdeclared]
    split_ifs at hrest ⊢
    all_goals
      have := (check_eq_some hrest).1
      omega
  all_goals exact (check_eq_some h).1

theorem declared_ne_zero {code : ℕ} (h7 : 7 ≤ code) (h16 : code < 16) : this.declared p code ≠ 0 := by
  obtain rfl | rfl | rfl | rfl | rfl | rfl | rfl | rfl | rfl : code = 7 ∨ code = 8 ∨ code = 9 ∨ code = 10 ∨
      code = 11 ∨ code = 12 ∨ code = 13 ∨ code = 14 ∨ code = 15 := by omega
  all_goals
    unfold declared
    split_ifs <;> decide

end Tilings

/-! ## The condition -/

theorem Sound.painted (h : Sound s b) : Painted s b := by
  obtain hcopy | hskip | hcolors : code b ≤ 5 ∨ code b = 6 ∨ 7 ≤ code b := by omega
  · -- the pixels are those of the first row, which all rows are like
    refine ⟨(this.copyOf s.current_frame (place b) (code b) (this.motion s.stream_ptr (code b)),
      s.stream_ptr + this.declared s.stream_ptr (code b)), ?_, rfl, fun h7 => by omega, fun _ my mx haddr r hr c hc => ?_,
      fun w hw => mem_copyOf b hw⟩
    · rw [decodeBlock_copy s.current_frame hcopy]
      by_cases hzero : this.declared s.stream_ptr (code b) = 0
      · rw [if_pos hzero, hzero, Nat.add_zero]
      · rw [if_neg hzero, check_of_le (h.enough.resolve_left hzero)]
    · obtain ⟨hlast, hrows⟩ := h.rows hcopy my mx haddr
      rw [assigned_copyOf haddr hr hc, if_pos hlast, hrows r hr c hc]
  · refine ⟨([], s.stream_ptr), ?_, ?_, fun h7 => by omega, fun h5 => by omega, fun w hw => absurd hw List.not_mem_nil⟩
    · rw [hskip]
      rfl
    · rw [hskip]
      rfl
  · have hlt := code_lt b
    have henough := h.enough.resolve_left (declared_ne_zero hcolors hlt)
    obtain ⟨rows, cols, places, color, hdecode, htiling⟩ :=
      decodeBlock_tiling s.current_frame hcolors hlt henough h.tall h.halves
    refine ⟨_, hdecode, rfl, fun _ r hr c hc => htiling.assigned (width_ge b) hr hc, fun h5 => by omega,
      fun w hw => htiling.inside (width_ge b) hw⟩

theorem Painted.sound (h : Painted s b) : Sound s b := by
  obtain ⟨written, hdecode, hpaints⟩ := h
  have hlt := code_lt b
  constructor
  · obtain hcopy | hskip | hcolors : code b ≤ 5 ∨ code b = 6 ∨ 7 ≤ code b := by omega
    · rw [decodeBlock_copy s.current_frame hcopy] at hdecode
      by_cases hzero : this.declared s.stream_ptr (code b) = 0
      · exact .inl hzero
      · rw [if_neg hzero] at hdecode
        exact .inr (check_eq_some hdecode).1
    · rw [hskip]
      exact .inl rfl
    · exact .inr (decodeBlock_enough hcolors hlt hdecode)
  · intro hcopy my mx haddr
    have hcopied : written.1 = this.copyOf s.current_frame (place b) (code b) (this.motion s.stream_ptr (code b)) := by
      rw [decodeBlock_copy s.current_frame hcopy] at hdecode
      split_ifs at hdecode
      · rw [← Option.some.inj hdecode]
      · rw [← Option.some.inj (check_eq_some hdecode).2]
    have hpixel (r c : ℕ) (hr : r < 8) (hc : c < 8) := hpaints.copy hcopy my mx haddr r hr c hc
    simp only [hcopied] at hpixel
    have hlast : my + 8 < this.height := by
      by_contra hno
      have hfirst := hpixel 0 0 (by decide) (by decide)
      rw [assigned_copyOf haddr (by decide) (by decide), if_neg hno] at hfirst
      exact absurd hfirst.symm (Option.some_ne_none _)
    refine ⟨hlast, fun r hr c hc => ?_⟩
    have hsame := hpixel r c hr hc
    rw [assigned_copyOf haddr hr hc, if_pos hlast] at hsame
    exact Option.some.inj hsame
  · intro h9
    by_contra hno
    obtain ⟨h01, h23⟩ := not_or.1 hno
    -- the second row of the block is not painted
    have hpixel := hpaints.colors (by omega) 1 (by decide) 0 (by decide)
    rw [h9] at hdecode
    have htall : written.1 = this.tallBlocks (place b) s.stream_ptr := by
      have hrest := (check_eq_some hdecode).2
      rw [if_neg fun hboth => h01 hboth.1, if_neg fun hboth => h01 hboth.1, if_neg fun hboth => h23 hboth.2] at hrest
      rw [← Option.some.inj (check_eq_some hrest).2]
    rw [htall, assigned_tallBlocks (width_ge b)] at hpixel
    exact absurd hpixel.symm (Option.some_ne_none _)
  · intro hA
    by_contra hno
    -- the pointer is ten bytes too far
    have hadvance := hpaints.advance
    rw [hA] at hdecode hadvance
    have hdeclared : this.declared s.stream_ptr 0xA = 24 := if_neg hno
    have hpointer : written.2 = s.stream_ptr + 24 + 10 := by
      have hrest := (check_eq_some hdecode).2
      rw [if_neg hno] at hrest
      have hhalves := (check_eq_some hrest).2
      split_ifs at hhalves
      all_goals rw [← Option.some.inj hhalves]
    omega

/-- Each block of a frame is painted as its encoding says, with the stream in sync, if and only if each block meets the
condition. -/
theorem frame_painted_iff (this : InterplayDecoder) (start : InterplayState) :
    (∀ before b after, this.blocks = before ++ b :: after →
      ∃ s, run stepBlock start before = some s ∧ Painted s b) ↔ Guarded stepBlock Sound start this.blocks := by
  have hstep (s : InterplayState) (b : this.Block) (_ : True) (h : Sound s b) :
      ∃ t, stepBlock s b = some t ∧ True := by
    obtain ⟨written, hdecode, -⟩ := h.painted
    have hnext : stepBlock s b =
        some { stream_ptr := written.2, current_frame := perform written.1 s.current_frame } := by
      unfold stepBlock
      rw [hdecode, Option.map_some]
    exact ⟨_, hnext, trivial⟩
  have hiff (s : InterplayState) (b : this.Block) (_ : True) : Painted s b ↔ Sound s b :=
    ⟨Painted.sound, Sound.painted⟩
  exact (guarded_iff_calls hstep hiff trivial).symm

/-- A frame of one block, which is skipped. -/
def skipFrame : InterplayDecoder where
  columns := 1
  rows := 1
  buf := fun _ => 0
  size := 14
  yuv_palette := fun _ => .zero
  decode_map := fun _ => 0
  previous_frame := fun _ => .zero

/-- The block is one of the last row, and is not copied. -/
theorem skipFrame_not_painted : ¬∀ before b after, skipFrame.blocks = before ++ b :: after →
    ∃ s, run stepBlock { stream_ptr := 14, current_frame := fun _ => .zero } before = some s ∧ Painted s b := by
  intro h
  let b : skipFrame.Block := (⟨0, by decide⟩, ⟨0, by decide⟩)
  obtain ⟨s, -, hpainted⟩ := h [] b [] rfl
  have haddr : Addressed s b 0 0 := ⟨rfl, rfl, by decide, by decide⟩
  exact absurd (hpainted.sound.rows (by decide) 0 0 haddr).1 (by decide)

end Xine.Codecs.InterplayDecoder
