import Xine.Library.Octets
import Mathlib.Algebra.Order.Ring.Int
import Mathlib.Data.Int.Bitwise

/-!
# The demuxer for program streams in blocks

`demux_mpeg_block_parse_pack` of demux_mpeg_block.c takes one block apart. A pointer is an offset in the
block, and a read behind the end of the block has no value.
-/

namespace Xine.MpegBlock

open Octets (Byte)

/-- The conversion to an `int`. -/
def int32 (n : ℤ) : ℤ := Int.bmod n (2 ^ 32)

/-- The difference of two `uint32_t`. -/
def sub32 (a b : ℕ) : ℕ := ((a - b : ℤ) % 2 ^ 32).toNat

structure ExtraInfo where
  input_pos : ℤ
  input_length : ℤ
  input_time : ℤ
  total_time : ℤ

/-- A buffer, whose content is a pointer into the block. -/
structure Buf where
  content : ℕ
  size : ℤ
  type : ℕ
  decoder_flags : ℕ
  decoder_info : ℕ → ℤ
  pts : ℤ
  extra_info : ExtraInfo

inductive Fifo
  | audio
  | video
deriving DecidableEq

/-- What becomes of the buffer of the block. -/
inductive Disposal
  | put (fifo : Fifo) (buf : Buf)
  | freed

/-- The demuxer with the buffer of the block, what has become of it, and the changes of the clock that it
has told. -/
structure Demuxer where
  finished : Bool
  audio_fifo : Bool
  rate : ℤ
  nav_last_end_pts : ℤ
  nav_last_start_pts : ℤ
  last_pts : Fifo → ℤ
  send_newpts : Bool
  preview_mode : Bool
  buf_flag_seek : Bool
  scr : ℤ
  packet_len : ℕ
  pts : ℤ
  dts : ℤ
  stream_id : ℕ
  mpeg1 : Bool
  last_cell_time : ℤ
  last_cell_pos : ℤ
  last_begin_time : ℤ
  buf : Buf
  disposals : List Disposal
  newpts : List (ℤ × Bool)

def BUF_VIDEO_MPEG : ℕ := 0x02000000
def BUF_AUDIO_A52 : ℕ := 0x03000000
def BUF_AUDIO_MPEG : ℕ := 0x03010000
def BUF_AUDIO_LPCM_BE : ℕ := 0x03020000
def BUF_AUDIO_DTS : ℕ := 0x03050000
def BUF_SPU_DVD : ℕ := 0x04000000
def BUF_SPU_SVCD : ℕ := 0x04040000
def BUF_SPU_CVD : ℕ := 0x04050000
def BUF_DEMUX_BLOCK : ℕ := 0x05000000
def BUF_FLAG_PREVIEW : ℕ := 0x0010
def BUF_FLAG_SPECIAL : ℕ := 0x0200
def WRAP_THRESHOLD : ℤ := 120000

namespace Demuxer

/-- `put` of a fifo. -/
def put (this : Demuxer) (fifo : Fifo) (buf : Buf) : Demuxer :=
  { this with buf, disposals := this.disposals ++ [.put fifo buf] }

/-- `free_buffer` -/
def free (this : Demuxer) : Demuxer := { this with disposals := this.disposals ++ [.freed] }

/-- The end of a handler that puts the buffer into the fifo for audio, when there is one. -/
def putAudio (this : Demuxer) (buf : Buf) : Demuxer :=
  if this.audio_fifo then this.put .audio buf else { this with buf }.free

/-- `xine_demux_control_newpts`, with the flag of a seek. -/
def controlNewpts (this : Demuxer) (pts : ℤ) : Demuxer :=
  { this with newpts := this.newpts ++ [(pts, this.buf_flag_seek)], buf_flag_seek := false }

/-- The condition on which `check_newpts` looks at the range of the last NAV packet. -/
def Jumps (this : Demuxer) (pts : ℤ) (fifo : Fifo) : Prop :=
  this.send_newpts ∨ this.last_pts fifo ≠ 0 ∧ WRAP_THRESHOLD < |pts - this.last_pts fifo|

instance (this : Demuxer) (pts : ℤ) (fifo : Fifo) : Decidable (this.Jumps pts fifo) :=
  inferInstanceAs (Decidable (_ ∨ _ ∧ _))

def checkNewpts (this : Demuxer) (pts : ℤ) (fifo : Fifo) : Demuxer :=
  if pts = 0 then this
  else if this.Jumps pts fifo then
    let told := if pts > this.nav_last_end_pts ∨ pts < this.nav_last_start_pts then
      { this.controlNewpts pts with send_newpts := false } else this
    { told with last_pts := fun f => if f = fifo then pts else 0 }
  else { this with last_pts := Function.update this.last_pts fifo pts }

/-- `if( !this->preview_mode ) check_newpts (…)` -/
def checkNewptsUnlessPreview (this : Demuxer) (pts : ℤ) (fifo : Fifo) : Demuxer :=
  if this.preview_mode then this else this.checkNewpts pts fifo

end Demuxer

/-! ## Clocks -/

/-- The five bytes of a clock. -/
structure Clock where
  b0 : Byte
  b1 : Byte
  b2 : Byte
  b3 : Byte
  b4 : Byte

/-- A part of a clock that is shifted as an `int`. -/
def shl (b mask : Byte) (n : ℕ) : BitVec 32 := (b &&& mask).setWidth 32 <<< n

/-- A part of a clock that is shifted down. -/
def shr (b mask : Byte) (n : ℕ) : BitVec 32 := (b &&& mask).setWidth 32 >>> n

/-- A variable of 64 bits with more parts, each of them an `int`. -/
def joined (acc : BitVec 64) (parts : List (BitVec 32)) : BitVec 64 :=
  parts.foldl (fun acc part => acc ||| part.signExtend 64) acc

namespace Clock

/-- The parts of a time stamp behind the first one. -/
def parts (b : Clock) : List (BitVec 32) :=
  [shl b.b1 0xFF 22, shl b.b2 0xFE 14, shl b.b3 0xFF 7, shr b.b4 0xFE 1]

/-- `this->pts`, and `this->dts` -/
def stamp (b : Clock) : ℤ := (joined 0 (shl b.b0 0x0E 29 :: b.parts)).toInt

/-- `this->scr` of MPEG-1 -/
def scr1 (b : Clock) : ℤ := (joined 0 (shl b.b0 0x02 30 :: b.parts)).toInt

/-- `this->scr` of MPEG-2 -/
def scr2 (b : Clock) : ℤ :=
  (joined 0 [shl b.b0 0x08 27, shl b.b0 0x03 28, shl b.b1 0xFF 20, shl b.b2 0xF8 12, shl b.b2 0x03 13,
    shl b.b3 0xFF 5, shr b.b4 0xF8 3]).toInt

end Clock

/-! ## Headers -/

section Block

variable (block : List Byte)

/-- The byte at an offset. -/
def byte (p : ℕ) : Option ℕ := block[p]?.map BitVec.toNat

/-- The bytes of a clock at an offset. -/
def clock (p : ℕ) : Option Clock :=
  match block.drop p with
  | b0 :: b1 :: b2 :: b3 :: b4 :: _ => some ⟨b0, b1, b2, b3, b4⟩
  | _ => none

/-- A number of 16 bits, as in the length of a packet. -/
def word (p : ℕ) : Option ℕ := do
  let high ← byte block p
  let low ← byte block (p + 1)
  some (high <<< 8 ||| low)

def parseProgramStreamPackHeader (this : Demuxer) (p : ℕ) : Option (ℤ × Demuxer) := do
  let b ← clock block (p + 4)
  if b.b0.toNat &&& 0x40 = 0 then
    let this := { this with mpeg1 := true, scr := b.scr1 }
    if this.rate = 0 then
      let m0 ← byte block (p + 9)
      let m1 ← byte block (p + 10)
      let m2 ← byte block (p + 11)
      some (12, { this with rate := ((m0 &&& 0x7F) <<< 15 ||| m1 <<< 7 ||| m2 >>> 1 : ℕ) })
    else some (12, this)
  else
    let this := { this with mpeg1 := false, scr := b.scr2 }
    let stuffing ← byte block (p + 0xD)
    let result := 14 + (stuffing &&& 0x07 : ℕ)
    if this.rate = 0 then
      let m0 ← byte block (p + 0xA)
      let m1 ← byte block (p + 0xB)
      some (result, { this with rate := (m0 <<< 14 ||| m1 <<< 6 ||| m1 >>> 2 : ℕ) })
    else some (result, this)

def parseProgramStreamSystemHeader (this : Demuxer) (p : ℕ) : Option (ℤ × Demuxer) := do
  let header_len ← word block (p + 4)
  some (6 + header_len, this)

/-- The times of the buffer and the rate, before the clocks of a packet are read. -/
def estimateTimes (this : Demuxer) : Demuxer :=
  let info := this.buf.extra_info
  let rate := if info.total_time ≠ 0 then
    int32 ((info.input_length * 1000).tdiv (int32 (info.total_time * 50))) else this.rate
  let input_time := if rate ≠ 0 ∧ this.last_cell_time ≠ 0 ∧ this.last_begin_time = info.input_time then
    int32 (this.last_cell_time + info.input_time +
      ((info.input_pos - this.last_cell_pos) * 1000).tdiv (int32 (rate * 50))) else info.input_time
  let input_time := if rate ≠ 0 ∧ input_time = 0 then
    int32 ((info.input_pos * 1000).tdiv (int32 (rate * 50))) else input_time
  { this with rate, buf := { this.buf with extra_info := { info with input_time } } }

/-- The number of stuffing bytes in front of a byte that is none. -/
def stuffing : List Byte → Option ℕ
  | [] => none
  | b :: bs => if b.toNat &&& 0x80 = 0x80 then (stuffing bs).map (· + 1) else some 0

/-- The header of a packet of MPEG-1, behind its length. -/
def parsePesMpeg1 (this : Demuxer) (p : ℕ) : Option (ℤ × Demuxer) := do
  let stuffed ← stuffing (block.drop (p + 6))
  let std ← byte block (p + 6 + stuffed)
  let skipped := if std &&& 0xc0 = 0x40 then stuffed + 2 else stuffed
  let p := p + 6 + skipped
  let first ← byte block p
  let result (n : ℕ) (pts dts : ℤ) : ℤ × Demuxer :=
    (6 + skipped + n, { this with packet_len := sub32 this.packet_len (skipped + n), pts, dts })
  if first &&& 0xf0 = 0x20 then
    let b ← clock block p
    some (result 5 b.stamp 0)
  else if first &&& 0xf0 = 0x30 then
    let b ← clock block p
    let b' ← clock block (p + 5)
    some (result 10 b.stamp b'.stamp)
  else some (result 1 0 0)

/-- A clock that is there if a flag is set. -/
def stampIf (flag p : ℕ) : Option ℤ := if flag ≠ 0 then (clock block p).map Clock.stamp else some 0

/-- The header of a packet of MPEG-2, behind its length. -/
def parsePesMpeg2 (this : Demuxer) (p : ℕ) : Option (ℤ × Demuxer) := do
  let first ← byte block (p + 6)
  if first &&& 0xC0 ≠ 0x80 then some (-1, this.free)
  else if first &&& 0x30 ≠ 0 then some (-1, { this with finished := true }.free)
  else
    let flags ← byte block (p + 7)
    let pts ← stampIf block (flags &&& 0x80) (p + 9)
    let dts ← stampIf block (flags &&& 0x40) (p + 14)
    let header_len ← byte block (p + 8)
    some (header_len + 9, { this with pts, dts, packet_len := sub32 this.packet_len (header_len + 3) })

def parsePesForPts (this : Demuxer) (p : ℕ) : Option (ℤ × Demuxer) := do
  let packet_len ← word block (p + 4)
  let this := estimateTimes { this with packet_len }
  if this.mpeg1 then parsePesMpeg1 block this p else parsePesMpeg2 block this p

end Block

end Xine.MpegBlock
