import Xine.Codecs.Buffer
import Xine.Library.Tiles

/-!
# The Interplay video decoder

`interplay_decode_frame` of `interplayvideo.c`, which paints a frame in blocks of 8x8 pixels. The three planes are
always written together, so a pixel is a colour. The pixels that a block writes are a list of places and colours.
-/

namespace Xine.Codecs

open Octets (Byte)
open Tiles

/-- `interplay_decoder_t`, as far as a frame is decoded with it. `buf` is the memory from the buffer on, of which `size`
bytes are the data. The frame has so many columns and rows of blocks, and `previous_frame` is the frame before. -/
structure InterplayDecoder where
  columns : ℕ
  rows : ℕ
  buf : ℕ → Byte
  size : ℕ
  yuv_palette : ℕ → Yuv
  decode_map : ℕ → Byte
  previous_frame : ℕ → Yuv

/-- What the blocks change. -/
structure InterplayState where
  stream_ptr : ℕ
  current_frame : ℕ → Yuv

namespace InterplayDecoder

variable (this : InterplayDecoder)

def width : ℕ := 8 * this.columns
def height : ℕ := 8 * this.rows

def motion_limit : ℤ := this.width * (this.height - 8)

/-- The colour for a byte of the data. -/
def color (stream_ptr : ℕ) : Yuv := this.yuv_palette (this.buf stream_ptr).toNat

/-- `BE_16` and `BE_32`. -/
def be16 (p : ℕ) : ℕ := (this.buf p).toNat * 2^8 + (this.buf (p + 1)).toNat
def be32 (p : ℕ) : ℕ := this.be16 p * 2^16 + this.be16 (p + 2)

/-- `CHECK_STREAM_PTR`, which returns. -/
def check {α : Type} (stream_ptr n : ℕ) (rest : Option α) : Option α :=
  if this.size < stream_ptr + n then none else rest

/-- One of two colours, for a flag. -/
def twoColor (flag : Bool) (color0 color1 : ℕ) : Yuv := if flag then this.color color1 else this.color color0

/-- One of the four colours at a place, for two flags. -/
def fourColor (colors flags flag_mask : ℕ) : Yuv := this.color (colors + (flags >>> flag_mask) % 4)

/-! ## Motion -/

/-- What is written for a block, and `stream_ptr` behind its bytes. -/
abbrev Written := List (ℕ × Yuv) × ℕ

/-- The loop of `COPY_BLOCK_FROM_PREVIOUS`: `motion_pixel_ptr` stays where it is. -/
def copyRowsPrevious (pixel_ptr motion_pixel_ptr : ℕ) : List (ℕ × Yuv) :=
  rect 8 (this.width - 8) 8 pixel_ptr fun _ j => this.previous_frame (motion_pixel_ptr + j)

/-- The loop of `COPY_BLOCK_FROM_CURRENT`, which reads the frame that it writes. -/
def copyRowsCurrent : ℕ → (ℕ → Yuv) → ℕ → ℕ → List (ℕ × Yuv)
  | 0, _, _, _ => []
  | rows + 1, frame, pixel_ptr, motion_pixel_ptr =>
    let line := row 8 pixel_ptr fun j => frame (motion_pixel_ptr + j)
    line ++ copyRowsCurrent rows (perform line frame) (pixel_ptr + this.width) motion_pixel_ptr

/-- The limits of both macros. -/
def copyBlock (copyRows : ℕ → ℕ → List (ℕ × Yuv)) (pixel_ptr : ℕ) (motion_pixel_ptr : ℤ) : List (ℕ × Yuv) :=
  if motion_pixel_ptr < 0 then []
  else if this.motion_limit ≤ motion_pixel_ptr then []
  else copyRows pixel_ptr motion_pixel_ptr.toNat

/-- `COPY_BLOCK_FROM_PREVIOUS`, after the pointer has moved. -/
def copyFromPrevious (x : ℕ) (dx dy : ℤ) : List (ℕ × Yuv) :=
  this.copyBlock this.copyRowsPrevious x (x + dx + dy * this.width)

/-- `COPY_BLOCK_FROM_CURRENT`, after the pointer has moved. -/
def copyFromCurrent (frame : ℕ → Yuv) (x : ℕ) (dx dy : ℤ) : List (ℕ × Yuv) :=
  this.copyBlock (this.copyRowsCurrent 8 frame) x (x + dx + dy * this.width)

/-- The components of the motion byte of 0x2 and 0x3. -/
def motionX (motion_byte : ℕ) : ℤ :=
  if motion_byte < 56 then 8 + (motion_byte % 7 : ℕ) else -14 + ((motion_byte - 56) % 29 : ℕ)
def motionY (motion_byte : ℕ) : ℤ :=
  if motion_byte < 56 then (motion_byte / 7 : ℕ) else 8 + ((motion_byte - 56) / 29 : ℕ)

/-! ## Colours -/

/-- The quadrants, in their order in the stream. -/
def quadrants : List (ℕ × ℕ) := [(0, 0), (1, 0), (0, 1), (1, 1)]

/-- Which quadrant it is. -/
def quadrant (t : ℕ × ℕ) : ℕ := t.1 + 2 * t.2

/-- 2-color encoding. -/
def decode7 (x s : ℕ) : Option Written :=
  if (this.buf s).toNat ≤ (this.buf (s + 1)).toNat then
    this.check (s + 2) 8 <| some
      (tiles this.width x 8 8 [(0, 0)] fun _ i j =>
        this.twoColor ((this.buf (s + 2 + i)).toNat.testBit (7 - j)) s (s + 1), s + 10)
  else
    this.check (s + 2) 2 <| some
      (tiles this.width x 2 2 (rowMajor 4 4) fun t _ _ =>
        this.twoColor ((this.be16 (s + 2)).testBit (15 - (t.1 * 4 + t.2))) s (s + 1), s + 4)

/-- 2-color encoding for each quadrant, or for either half. The colours of the second half lie behind the flags of the
first. -/
def decode8 (x s : ℕ) : Option Written :=
  this.check s 2 <|
    if (this.buf s).toNat ≤ (this.buf (s + 1)).toNat then
      this.check (s + 2) 14 <| some
        (tiles this.width x 4 4 quadrants fun t i j =>
          let q := s + 4 * quadrant t
          this.twoColor ((this.be16 (q + 2)).testBit (15 - (i * 4 + j))) q (q + 1), s + 16)
    else
      this.check (s + 2) 10 <|
        if (this.buf (s + 6)).toNat ≤ (this.buf (s + 7)).toNat then some
          (tiles this.width x 8 4 [(0, 0), (0, 1)] fun t i j =>
            let h := s + 6 * t.2
            this.twoColor ((this.be32 (h + 2)).testBit (31 - (i * 4 + j))) h (h + 1), s + 12)
        else some
          (tiles this.width x 4 8 [(0, 0), (1, 0)] fun t i j =>
            let h := s + 6 * t.1
            this.twoColor ((this.be32 (h + 2)).testBit (31 - (i * 8 + j))) h (h + 1), s + 12)

/-- The 1x2 blocks: the second pixel comes after `row_inc`, not after a row. -/
def tallBlocks (x s : ℕ) : List (ℕ × Yuv) :=
  (rowMajor 4 8).flatMap fun t =>
    let xp := x + t.1 * (this.width * 2) + t.2
    let y4 := this.fourColor s (this.be32 (s + 4 + 4 * (t.1 / 2))) (30 - 2 * (t.1 % 2 * 8 + t.2))
    [(xp, y4), (xp + (this.width - 8), y4)]

/-- 4-color encoding. -/
def decode9 (x s : ℕ) : Option Written :=
  this.check s 4 <|
    let ordered01 := (this.buf s).toNat ≤ (this.buf (s + 1)).toNat
    let ordered23 := (this.buf (s + 2)).toNat ≤ (this.buf (s + 3)).toNat
    if ordered01 ∧ ordered23 then
      this.check (s + 4) 16 <| some
        (tiles this.width x 8 8 [(0, 0)] fun _ i j =>
          this.fourColor s (this.be16 (s + 4 + 2 * i)) (14 - 2 * j), s + 20)
    else if ordered01 ∧ ¬ordered23 then
      this.check (s + 4) 4 <| some
        (tiles this.width x 2 2 (rowMajor 4 4) fun t _ _ =>
          this.fourColor s (this.be32 (s + 4)) (30 - 2 * (t.1 * 4 + t.2)), s + 8)
    else if ¬ordered01 ∧ ordered23 then
      this.check (s + 4) 8 <| some
        (tiles this.width x 1 2 (rowMajor 8 4) fun t _ _ =>
          -- The flags are reloaded after four rows.
          this.fourColor s (this.be32 (s + 4 + 4 * (t.1 / 4))) (30 - 2 * (t.1 % 4 * 4 + t.2)), s + 12)
    else
      this.check (s + 4) 8 <| some (this.tallBlocks x s, s + 12)

/-- 4-color encoding for each quadrant, or for either half. The pointer is moved once more behind the halves. -/
def decodeA (x s : ℕ) : Option Written :=
  this.check s 4 <|
    if (this.buf s).toNat ≤ (this.buf (s + 1)).toNat then
      this.check (s + 4) 28 <| some
        (tiles this.width x 4 4 quadrants fun t i j =>
          let q := s + 8 * quadrant t
          this.fourColor q (this.be32 (q + 4)) (30 - 2 * (i * 4 + j)), s + 32)
    else
      this.check (s + 4) 20 <|
        if (this.buf (s + 2)).toNat ≤ (this.buf (s + 3)).toNat then some
          (tiles this.width x 8 4 [(0, 0), (0, 1)] fun t i j =>
            let h := s + 12 * t.2
            this.fourColor h (this.be32 (h + 4 + 4 * (i / 4))) (30 - 2 * (i % 4 * 4 + j)), s + 24 + 10)
        else some
          (tiles this.width x 4 8 [(0, 0), (1, 0)] fun t i j =>
            let h := s + 12 * t.1
            this.fourColor h (this.be32 (h + 4 + 4 * (i / 2))) (30 - 2 * (i % 2 * 8 + j)), s + 24 + 10)

/-- One block: what it writes, and where the stream goes on. -/
def decodeBlock (frame : ℕ → Yuv) (x s : ℕ) : ℕ → Option Written
  | 0x0 | 0x1 => some (this.copyFromPrevious x 0 0, s)
  | 0x2 => this.check s 1 <|
      let motion_byte := (this.buf s).toNat
      some (this.copyFromCurrent frame x (motionX motion_byte) (motionY motion_byte), s + 1)
  | 0x3 => this.check s 1 <|
      let motion_byte := (this.buf s).toNat
      some (this.copyFromCurrent frame x (-motionX motion_byte) (-motionY motion_byte), s + 1)
  | 0x4 => this.check s 1 <|
      let motion_byte := (this.buf s).toNat
      some (this.copyFromPrevious x (-8 + (motion_byte % 16 : ℕ)) (-8 + (motion_byte / 16 : ℕ)), s + 1)
  | 0x5 => this.check s 2 <|
      some (this.copyFromPrevious x (this.buf s).toInt (this.buf (s + 1)).toInt, s + 2)
  | 0x6 => some ([], s)
  | 0x7 => this.decode7 x s
  | 0x8 => this.decode8 x s
  | 0x9 => this.decode9 x s
  | 0xA => this.decodeA x s
  | 0xB => this.check s 64 <| some
      (tiles this.width x 8 8 [(0, 0)] fun _ i j => this.color (s + (i * 8 + j)), s + 64)
  | 0xC => this.check s 16 <| some
      (tiles this.width x 2 2 (rowMajor 4 4) fun t _ _ => this.color (s + (t.1 * 4 + t.2)), s + 16)
  | 0xD => this.check s 4 <| some
      (tiles this.width x 4 4 (rowMajor 2 2) fun t _ _ => this.color (s + (t.1 * 2 + t.2)), s + 4)
  | 0xE => this.check s 1 <| some (tiles this.width x 8 8 [(0, 0)] fun _ _ _ => this.color s, s + 1)
  | _ => this.check s 2 <| some
      (tiles this.width x 8 8 [(0, 0)] fun _ i j => this.twoColor (decide (i % 2 ≠ j % 2)) s (s + 1), s + 2)

/-! ## A frame -/

/-- A block of the frame. -/
abbrev Block := Fin this.rows × Fin this.columns

variable {this}

/-- `x`, the place of its first pixel. -/
def place (b : this.Block) : ℕ := 8 * b.1 * this.width + 8 * b.2

/-- The code of a block, in half a byte of the map. -/
def code (b : this.Block) : ℕ :=
  let index := b.1 * this.columns + b.2
  let byte := (this.decode_map (index / 2)).toNat
  if index % 2 = 1 then byte / 16 else byte % 16

/-- The step for a block. Without enough data the frame ends there. -/
def stepBlock (s : InterplayState) (b : this.Block) : Option InterplayState :=
  (this.decodeBlock s.current_frame (place b) s.stream_ptr (code b)).map fun (writes, stream_ptr) =>
    { stream_ptr := stream_ptr, current_frame := perform writes s.current_frame }

/-- The blocks, from left to right and from top to bottom. -/
def blocks (this : InterplayDecoder) : List this.Block :=
  (List.finRange this.rows).flatMap fun r => (List.finRange this.columns).map fun c => (r, c)

end InterplayDecoder

end Xine.Codecs
