import Mathlib.Algebra.Order.Ring.Int
import Mathlib.Tactic.Ring
import Xine.Library.Octets

/-!
# De-interleaving of sound

`asf_reorder` of `demux_asf.c`. A stream of sound may have been scrambled block by block: a block is a matrix of
cells, written row by row in the file, and it is column by column that its cells belong together.
-/

namespace Xine.Asf

open Octets

/-- The rows and the columns of a block, and the bytes of a cell. -/
structure Reorder where
  reorder_h : ℕ
  reorder_w : ℕ
  reorder_b : ℕ
deriving DecidableEq

/-- The number of bytes of a block. -/
def Reorder.block (r : Reorder) : ℕ := r.reorder_w * (r.reorder_h * r.reorder_b)

/-- The stream is scrambled. -/
def Reorder.Scrambled (r : Reorder) : Prop := 1 < r.reorder_h ∧ 1 < r.reorder_w

instance (r : Reorder) : Decidable r.Scrambled := inferInstanceAs (Decidable (_ ∧ _))

/-- The two inner loops of `asf_reorder`, for the block at the start of `s2`. -/
def Reorder.cells (r : Reorder) (s2 : List Byte) : List Byte :=
  (List.range r.reorder_w).flatMap fun x =>
    (List.range r.reorder_h).flatMap fun y =>
      (s2.drop ((y * r.reorder_w + x) * r.reorder_b)).take r.reorder_b

/-- The outer loop of `asf_reorder`, in at most a number of rounds. The bytes behind the last whole
block stay as they are. -/
def reorderLoop (r : Reorder) : ℕ → List Byte → List Byte
  | 0, s2 => s2
  | rounds + 1, s2 =>
    if r.block ≤ s2.length then r.cells s2 ++ reorderLoop r rounds (s2.drop r.block) else s2

def asfReorder (r : Reorder) (src : List Byte) : List Byte := reorderLoop r src.length src

/-- Where the bytes of the blocks go: that of row `y` and column `x` becomes the cell number
`x * reorder_h + y` of its block. -/
structure Deinterleaved (r : Reorder) (src dst : List Byte) : Prop where
  length_eq : dst.length = src.length
  cell : ∀ n x y k, x < r.reorder_w → y < r.reorder_h → k < r.reorder_b →
    (n + 1) * r.block ≤ src.length →
      dst[n * r.block + ((x * r.reorder_h + y) * r.reorder_b + k)]? =
        src[n * r.block + ((y * r.reorder_w + x) * r.reorder_b + k)]?
  rest : ∀ i, src.length / r.block * r.block ≤ i → dst[i]? = src[i]?

/-! ## Pieces of one length -/

variable {α : Type*} {f : ℕ → List α} {m : ℕ}

theorem length_flatMap_range (n : ℕ) (hf : ∀ i < n, (f i).length = m) :
    ((List.range n).flatMap f).length = n * m := by
  induction n with
  | zero => rw [Nat.zero_mul]; rfl
  | succ n ih =>
    rw [List.range_succ, List.flatMap_append, List.length_append, ih fun i hi => hf i (by omega),
      List.flatMap_singleton, hf n (Nat.lt_succ_self n), Nat.succ_mul]

theorem getElem?_flatMap_range {n i j : ℕ} (hf : ∀ i < n, (f i).length = m) (hi : i < n) (hj : j < m) :
    ((List.range n).flatMap f)[i * m + j]? = (f i)[j]? := by
  induction n with
  | zero => exact absurd hi (Nat.not_lt_zero i)
  | succ n ih =>
    have hlen := length_flatMap_range n fun i hi => hf i (by omega)
    rw [List.range_succ, List.flatMap_append, List.flatMap_singleton]
    by_cases hin : i < n
    · -- the piece lies before the last one
      have hle : (i + 1) * m ≤ n * m := Nat.mul_le_mul_right m hin
      rw [Nat.succ_mul] at hle
      rw [List.getElem?_append_left (by omega)]
      exact ih (fun i hi => hf i (by omega)) hin
    · obtain rfl : i = n := by omega
      rw [List.getElem?_append_right (by omega), hlen, Nat.add_sub_cancel_left]

/-! ## The loops -/

variable {r : Reorder} {s2 : List Byte}

theorem cell_le {x y : ℕ} (hx : x < r.reorder_w) (hy : y < r.reorder_h) :
    (y * r.reorder_w + x) * r.reorder_b + r.reorder_b ≤ r.block := by
  have hcell : y * r.reorder_w + x + 1 ≤ r.reorder_h * r.reorder_w := by
    calc y * r.reorder_w + x + 1 ≤ y * r.reorder_w + r.reorder_w := by omega
      _ = (y + 1) * r.reorder_w := by ring
      _ ≤ r.reorder_h * r.reorder_w := Nat.mul_le_mul_right _ hy
  calc (y * r.reorder_w + x) * r.reorder_b + r.reorder_b
      = (y * r.reorder_w + x + 1) * r.reorder_b := by ring
    _ ≤ r.reorder_h * r.reorder_w * r.reorder_b := Nat.mul_le_mul_right _ hcell
    _ = r.block := by unfold Reorder.block; ring

theorem length_cell {x y : ℕ} (hs2 : r.block ≤ s2.length) (hx : x < r.reorder_w)
    (hy : y < r.reorder_h) :
    ((s2.drop ((y * r.reorder_w + x) * r.reorder_b)).take r.reorder_b).length = r.reorder_b := by
  have hle := cell_le hx hy
  rw [List.length_take, List.length_drop]
  omega

theorem length_cells (hs2 : r.block ≤ s2.length) : (r.cells s2).length = r.block := by
  unfold Reorder.cells Reorder.block
  refine length_flatMap_range _ fun x hx => ?_
  exact length_flatMap_range _ fun y hy => length_cell hs2 hx hy

theorem getElem?_cells {x y k : ℕ} (hs2 : r.block ≤ s2.length) (hx : x < r.reorder_w)
    (hy : y < r.reorder_h) (hk : k < r.reorder_b) :
    (r.cells s2)[(x * r.reorder_h + y) * r.reorder_b + k]? =
      s2[(y * r.reorder_w + x) * r.reorder_b + k]? := by
  have hindex : (x * r.reorder_h + y) * r.reorder_b + k =
      x * (r.reorder_h * r.reorder_b) + (y * r.reorder_b + k) := by ring
  have hy' : y * r.reorder_b + k < r.reorder_h * r.reorder_b := by
    calc y * r.reorder_b + k < (y + 1) * r.reorder_b := by rw [Nat.succ_mul]; omega
      _ ≤ r.reorder_h * r.reorder_b := Nat.mul_le_mul_right _ hy
  unfold Reorder.cells
  rw [hindex, getElem?_flatMap_range (fun x hx => length_flatMap_range _ fun y hy =>
    length_cell hs2 hx hy) hx hy', getElem?_flatMap_range (fun y hy => length_cell hs2 hx hy) hy hk,
    List.getElem?_take_of_lt hk, List.getElem?_drop]

theorem reorderLoop_deinterleaved (hblock : 0 < r.block) (rounds : ℕ) (s2 : List Byte)
    (hrounds : s2.length ≤ rounds) : Deinterleaved r s2 (reorderLoop r rounds s2) := by
  induction rounds generalizing s2 with
  | zero =>
    obtain rfl : s2 = [] := List.eq_nil_of_length_eq_zero (by omega)
    refine ⟨rfl, ?_, fun i _ => rfl⟩
    intro n x y k _ _ _ hn
    rw [List.length_nil, Nat.succ_mul] at hn
    omega
  | succ rounds ih =>
    unfold reorderLoop
    split_ifs with hs2
    · have hdrop : (s2.drop r.block).length = s2.length - r.block := List.length_drop
      obtain ⟨hlen, hcell, hrest⟩ := ih (s2.drop r.block) (by omega)
      have hcells := length_cells hs2
      rw [hdrop] at hlen hcell hrest
      refine ⟨?_, ?_, ?_⟩
      · rw [List.length_append, hcells, hlen]
        omega
      · intro n x y k hx hy hk hn
        cases n with
        | zero =>
          have hlt : (x * r.reorder_h + y) * r.reorder_b + k < r.block := by
            have hle := cell_le (r := ⟨r.reorder_w, r.reorder_h, r.reorder_b⟩) hy hx
            unfold Reorder.block at hle ⊢
            dsimp only at hle
            calc (x * r.reorder_h + y) * r.reorder_b + k
                < (x * r.reorder_h + y) * r.reorder_b + r.reorder_b := by omega
              _ ≤ r.reorder_h * (r.reorder_w * r.reorder_b) := hle
              _ = r.reorder_w * (r.reorder_h * r.reorder_b) := by ring
          rw [Nat.zero_mul, Nat.zero_add, Nat.zero_add, List.getElem?_append_left (by omega)]
          exact getElem?_cells hs2 hx hy hk
        | succ n =>
          have hn' : (n + 1) * r.block ≤ s2.length - r.block := by
            rw [Nat.succ_mul] at hn
            omega
          have hshift (c : ℕ) : (n + 1) * r.block + c = r.block + (n * r.block + c) := by ring
          rw [hshift, hshift, List.getElem?_append_right (by omega), hcells, Nat.add_sub_cancel_left,
            hcell n x y k hx hy hk hn', List.getElem?_drop]
      · intro i hi
        have hdiv : s2.length / r.block = (s2.length - r.block) / r.block + 1 :=
          Nat.div_eq_sub_div hblock hs2
        rw [hdiv, Nat.succ_mul] at hi
        rw [List.getElem?_append_right (by omega), hcells, hrest _ (by omega), List.getElem?_drop]
        congr 1
        omega
    · refine ⟨rfl, ?_, fun i _ => rfl⟩
      intro n x y k _ _ _ hn
      rw [Nat.succ_mul] at hn
      omega

theorem asfReorder_deinterleaved (hblock : 0 < r.block) (src : List Byte) :
    Deinterleaved r src (asfReorder r src) :=
  reorderLoop_deinterleaved hblock src.length src le_rfl

end Xine.Asf

/-!
## The demuxer of ASF files

The payloads of a packet, from `asf_parse_packet_payload_common` of `demux_asf.c` to the buffers that
`asf_send_buffer_nodefrag` and `asf_send_buffer_defrag` put into the fifo of a stream. The input is
the data of the packet; what `asf_parse_packet_header` has read of it is in `packet_flags`, `segtype`,
`frame_flag` and `packet_size_left`. Of the streams there are the selected ones, which the header of
the file sets up. The position that goes with each buffer, and the messages, are left out.

A parameter or a field of type `int` that takes an unsigned number of 32 bits takes it modulo `2^32`
(`asInt`).
-/

namespace Xine.Asf

open Octets

/-- The two selected streams. -/
inductive Kind
  | audio | video
deriving DecidableEq

/-- The other stream. -/
def Kind.other : Kind → Kind
  | .audio => .video
  | .video => .audio

/-- A buffer with data. `framerate` is the duration of a frame, where the flag for it is set. -/
structure BufElement where
  content : List Byte
  pts : ℤ
  frame_end : Bool
  framerate : Option ℤ
deriving DecidableEq

/-- What is put into a fifo: `BUF_CONTROL_RESET_DECODER`, `BUF_CONTROL_NEWPTS`, or data. -/
inductive Element
  | resetDecoder
  | newpts (pts : ℤ) (seek : Bool)
  | data (buf : BufElement)

/-- What the header of the file says about the selected streams, and the sizes of the buffers of their
fifos. `audio_reorder` is that of the audio stream, and `reorder` what is left in the demuxer when all
headers have been read. -/
structure Headers where
  audio_stream_id : ℕ
  video_stream_id : ℕ
  audio_buf_size : ℕ
  video_buf_size : ℕ
  audio_reorder : Reorder
  reorder : Reorder
  stream_id_ne : audio_stream_id ≠ video_stream_id
  audio_buf_size_pos : 0 < audio_buf_size
  video_buf_size_pos : 0 < video_buf_size
  reorder_b_pos : 0 < audio_reorder.reorder_b

/-- `asf_stream_t`, with what its fifo has received. -/
structure AsfStream where
  seq : ℤ
  frag_offset : ℤ
  timestamp : ℤ
  buffer : List Byte
  skip : Bool
  resync : Bool
  first_seq : Bool
  fifo : List Element

/-- The fields of `demux_asf_t` for the discontinuities and the frame rate. -/
structure Clock where
  last_pts_audio : ℤ
  last_pts_video : ℤ
  frame_duration : ℤ
  send_newpts : Bool
  last_frame_pts : ℤ
  buf_flag_seek : Bool

/-- The rest of the current packet, and what its header says. -/
structure Packet where
  input : List Byte
  packet_flags : Byte
  segtype : Byte
  frame_flag : Byte
  packet_size_left : ℤ

structure DemuxAsf extends Packet where
  keyframe_ts : ℤ
  clock : Clock
  audio : AsfStream
  video : AsfStream

/-- An unsigned number as an `int`. -/
def asInt (n : ℕ) : ℤ := Int.bmod n (2^32)

def defragBufsize : ℤ := 65536

def wrapThreshold : ℤ := 20 * 90000

def maxFrameDur : ℤ := 90000

/-- The size of the buffers of the fifo of a stream. -/
def Headers.bufSize (h : Headers) : Kind → ℕ
  | .audio => h.audio_buf_size
  | .video => h.video_buf_size

/-- The objects of the stream are put together in its `buffer`. -/
def Headers.defrag (h : Headers) : Kind → Bool
  | .audio => decide h.audio_reorder.Scrambled
  | .video => false

/-- The identifier of a stream. -/
def Headers.streamId (h : Headers) : Kind → ℕ
  | .audio => h.audio_stream_id
  | .video => h.video_stream_id

/-- The selected stream with an identifier. -/
def Headers.select (h : Headers) (stream_id : ℕ) : Option Kind :=
  if stream_id = h.audio_stream_id then some .audio
  else if stream_id = h.video_stream_id then some .video
  else none

namespace DemuxAsf

def stream (this : DemuxAsf) : Kind → AsfStream
  | .audio => this.audio
  | .video => this.video

def setStream (this : DemuxAsf) (k : Kind) (s : AsfStream) : DemuxAsf :=
  match k with
  | .audio => { this with audio := s }
  | .video => { this with video := s }

/-- `fifo->put`. -/
def put (this : DemuxAsf) (k : Kind) (e : Element) : DemuxAsf :=
  this.setStream k { this.stream k with fifo := (this.stream k).fifo ++ [e] }

/-- `input->read`, and `input->seek` from the current position. -/
def read (this : DemuxAsf) (len : ℕ) : List Byte × DemuxAsf :=
  (this.input.take len, { this with input := this.input.drop len })

/-- `get_byte`, `get_le16` and `get_le32`, for that number of bytes, which may be none. -/
def getLe (this : DemuxAsf) (len : ℕ) : ℕ × DemuxAsf :=
  (ofLittle (this.input.take len), { this with input := this.input.drop len })

end DemuxAsf

/-! ## Buffers -/

def Clock.lastPts (c : Clock) : Kind → ℤ
  | .audio => c.last_pts_audio
  | .video => c.last_pts_video

def Clock.setLastPts (c : Clock) (k : Kind) (pts : ℤ) : Clock :=
  match k with
  | .audio => { c with last_pts_audio := pts }
  | .video => { c with last_pts_video := pts }

/-- `xine_demux_control_newpts`. -/
def controlNewpts (this : DemuxAsf) (pts : ℤ) (seek : Bool) : DemuxAsf :=
  (this.put .video (.newpts pts seek)).put .audio (.newpts pts seek)

/-- The first part of `check_newpts`. -/
def checkDiscontinuity (this : DemuxAsf) (pts : ℤ) (k : Kind) : DemuxAsf :=
  let last := this.clock.lastPts k
  if pts ≠ 0 ∧ (this.clock.send_newpts ∨ last ≠ 0 ∧ |pts - last| > wrapThreshold) then
    let clock := { this.clock with buf_flag_seek := false, send_newpts := false }
    { controlNewpts this pts this.clock.buf_flag_seek with clock := clock.setLastPts k.other 0 }
  else
    this

/-- The frame rate estimation of `check_newpts`. -/
def Clock.estimate (c : Clock) (pts : ℤ) (k : Kind) (frame_end : Bool) : Clock :=
  if pts ≠ 0 ∧ k = .video ∧ frame_end then
    let diff := pts - c.last_frame_pts
    if c.last_frame_pts ≠ 0 ∧ 0 < diff ∧ diff < maxFrameDur then
      { c with frame_duration := (15 * c.frame_duration + diff).tdiv 16, last_frame_pts := pts }
    else
      { c with last_frame_pts := pts }
  else
    c

def checkNewpts (this : DemuxAsf) (pts : ℤ) (k : Kind) (frame_end : Bool) : DemuxAsf :=
  let this := checkDiscontinuity this pts k
  let clock := if pts ≠ 0 then this.clock.setLastPts k pts else this.clock
  { this with clock := clock.estimate pts k frame_end }

/-- The time of a buffer is checked, and it is put into the fifo. `rate` says whether the end of a frame
comes with the duration of a frame. -/
def checkAndPut (this : DemuxAsf) (k : Kind) (content : List Byte) (pts : ℤ) (frame_end rate : Bool) :
    DemuxAsf :=
  let this := checkNewpts this pts k frame_end
  let framerate := if frame_end ∧ rate then some this.clock.frame_duration else none
  this.put k (.data ⟨content, pts, frame_end, framerate⟩)

/-- The loop of `asf_send_buffer_nodefrag`, in at most a number of rounds. -/
def nodefragLoop (h : Headers) (k : Kind) (payload_size : ℤ) : ℕ → DemuxAsf → ℤ → ℤ → DemuxAsf
  | 0, this, _, _ => this
  | rounds + 1, this, timestamp, frag_len =>
    if frag_len = 0 then
      this
    else
      let bufsize := if frag_len < h.bufSize k then frag_len else (h.bufSize k : ℤ)
      let (content, this) := this.read bufsize.toNat
      let pts := timestamp * 90
      let stream := this.stream k
      let frag_offset := stream.frag_offset + bufsize
      let package_done := decide (payload_size ≤ frag_offset)
      let this := this.setStream k
        { stream with frag_offset := if package_done then 0 else frag_offset }
      let this := checkAndPut this k content pts package_done (k = .video)
      nodefragLoop h k payload_size rounds this 0 (frag_len - bufsize)

def asfSendBufferNodefrag (h : Headers) (this : DemuxAsf) (k : Kind)
    (frag_offset seq timestamp frag_len payload_size : ℤ) : DemuxAsf :=
  let stream := this.stream k
  let send (this : DemuxAsf) := nodefragLoop h k payload_size frag_len.toNat this timestamp frag_len
  if stream.frag_offset = 0 ∧ frag_offset = 0 then
    -- a new object
    send (this.setStream k { stream with seq := seq })
  else if seq = stream.seq ∧ frag_offset = stream.frag_offset then
    -- the same object goes on
    send this
  else if frag_offset ≠ 0 then
    (this.read frag_len.toNat).2
  else
    -- the last object is not complete
    send (this.setStream k { stream with seq := seq, frag_offset := 0 })

/-- The loop of `asf_send_buffer_defrag`, in at most a number of rounds, from the bytes `p` on. -/
def defragLoop (h : Headers) (k : Kind) : ℕ → DemuxAsf → List Byte → DemuxAsf
  | 0, this, _ => this
  | rounds + 1, this, p =>
    let stream := this.stream k
    if stream.frag_offset = 0 then
      this
    else
      let bufsize := if stream.frag_offset < h.bufSize k then stream.frag_offset else (h.bufSize k : ℤ)
      let pts := stream.timestamp * 90
      let frag_offset := stream.frag_offset - bufsize
      let this := this.setStream k { stream with frag_offset := frag_offset }
      let this := checkAndPut this k (p.take bufsize.toNat) pts (frag_offset = 0) false
      defragLoop h k rounds this (p.drop bufsize.toNat)

/-- The bytes of an object, which are de-interleaved in the audio stream. -/
def Headers.arrange (h : Headers) (k : Kind) (p : List Byte) : List Byte :=
  if k = .audio ∧ h.reorder.Scrambled then asfReorder h.reorder p else p

/-- The bytes of a fragment are put behind the others in the buffer of the stream. -/
def defragRead (this : DemuxAsf) (k : Kind) (frag_len : ℤ) : DemuxAsf :=
  let stream := this.stream k
  if stream.frag_offset + frag_len > defragBufsize then
    this
  else
    let (data, this) := this.read frag_len.toNat
    this.setStream k { stream with
      buffer := stream.buffer.take stream.frag_offset.toNat ++ data
      frag_offset := stream.frag_offset + frag_len }

/-- An object that is complete is sent. -/
def defragSend (h : Headers) (this : DemuxAsf) (k : Kind) (payload_size : ℤ) : DemuxAsf :=
  let stream := this.stream k
  if payload_size ≤ stream.frag_offset then
    let p := h.arrange k (stream.buffer.take stream.frag_offset.toNat)
    defragLoop h k stream.frag_offset.toNat (this.setStream k { stream with buffer := p }) p
  else
    this

def asfSendBufferDefrag (h : Headers) (this : DemuxAsf) (k : Kind)
    (frag_offset seq timestamp frag_len payload_size : ℤ) : DemuxAsf :=
  let stream := this.stream k
  let store (this : DemuxAsf) := defragSend h (defragRead this k frag_len) k payload_size
  if stream.frag_offset = 0 ∧ frag_offset = 0 then
    -- a new object
    store (this.setStream k { stream with seq := seq, timestamp := timestamp })
  else if seq = stream.seq ∧ frag_offset = stream.frag_offset then
    -- the same object goes on
    store this
  else if frag_offset ≠ 0 then
    (this.read frag_len.toNat).2
  else
    -- the last object is not complete
    store (this.setStream k { stream with seq := seq, frag_offset := 0 })

/-! ## Payloads -/

/-- The number of bytes of a field, from the two bits that give its type. -/
def fieldSize : ℕ → ℕ
  | 1 => 1
  | 2 => 2
  | 3 => 4
  | _ => 0

/-- The same for the length of a fragment, where a field of no bytes is read as one of two. -/
def lengthSize : ℕ → ℕ
  | 1 => 1
  | 3 => 4
  | _ => 2

/-- The types of the fields of a payload. -/
def Packet.seqType (this : Packet) : ℕ := this.segtype.toNat / 2^4 % 4
def Packet.offsetType (this : Packet) : ℕ := this.segtype.toNat / 2^2 % 4
def Packet.rlenType (this : Packet) : ℕ := this.segtype.toNat % 4
def Packet.lengthType (this : Packet) : ℕ := this.frame_flag.toNat / 2^6 % 4

/-- The packet has several payloads, each with its length. -/
def Packet.multiple (this : Packet) : Bool := this.packet_flags.toNat % 2 = 1

/-- The sequence number that is expected next. -/
def expSeq (stream : AsfStream) (seqType seq : ℕ) : ℤ :=
  if stream.first_seq ∨ stream.skip then
    seq
  else if stream.frag_offset ≠ 0 then
    stream.seq % 2^32
  else
    match seqType with
    | 1 => (stream.seq + 1).tmod 256 % 2^32
    | 2 => (stream.seq + 1).tmod 65536 % 2^32
    | 3 => (stream.seq + 1) % 2^32
    | _ => 0

/-- After a gap the decoder is reset, and the video stream waits for a keyframe. -/
def badSeq (this : DemuxAsf) (k : Kind) : DemuxAsf :=
  let this := this.put k .resetDecoder
  let this := match k with
    | .audio => this
    | .video =>
      { this.setStream k { this.stream k with resync := true, skip := true } with keyframe_ts := 0 }
  { this with clock := { this.clock with send_newpts := true } }

/-- The check of the sequence number. -/
def checkSeq (this : DemuxAsf) (k : Kind) (seq : ℕ) : DemuxAsf :=
  let stream := this.stream k
  let exp_seq := expSeq stream this.seqType seq
  -- the flag is cleared where it is set
  let this := this.setStream k { stream with first_seq := false }
  if exp_seq ≠ seq then badSeq this k else this

/-- What `asf_parse_packet_payload_common` reads. -/
structure Common where
  stream : Option Kind
  frag_offset : ℕ
  rlen : ℕ
  seq : ℕ

/-- `asf_parse_packet_payload_common`. There is no result when the rest of the packet is skipped. -/
def asfParsePacketPayloadCommon (h : Headers) (this : DemuxAsf) (raw_id : ℕ) :
    DemuxAsf × Option Common :=
  let stream := h.select (raw_id % 2^7)
  let s_hdr_size := fieldSize this.seqType + fieldSize this.offsetType + fieldSize this.rlenType
  let (seq, this) := this.getLe (fieldSize this.seqType)
  let this := match stream with
    | some k => checkSeq this k seq
    | none => this
  let (frag_offset, this) := this.getLe (fieldSize this.offsetType)
  let (rlen, this) := this.getLe (fieldSize this.rlenType)
  if this.packet_size_left % 2^32 < rlen then
    (this, none)
  else
    ({ this with packet_size_left := this.packet_size_left - s_hdr_size },
      some ⟨stream, frag_offset, rlen, seq⟩)

/-- The keyframe detection and the end of skipping, at the start of an object. -/
def resync (this : DemuxAsf) (k : Kind) (raw_id : ℕ) (timestamp : ℤ) : DemuxAsf :=
  let stream := this.stream k
  let this :=
    if stream.skip ∧ 2^7 ≤ raw_id ∧ this.keyframe_ts = 0 then { this with keyframe_ts := 1 } else this
  if stream.resync ∧ this.keyframe_ts ≤ timestamp ∧ this.keyframe_ts ≠ 0 then
    this.setStream k { stream with resync := false, skip := false }
  else
    this

/-- The end of a payload of one fragment or one object: its bytes are sent, or skipped. -/
def sendBuffer (h : Headers) (this : DemuxAsf) (k : Kind) (frag_offset seq : ℕ) (timestamp : ℤ)
    (frag_len payload_size : ℕ) : DemuxAsf :=
  if (this.stream k).skip then
    (this.read frag_len).2
  else if h.defrag k then
    asfSendBufferDefrag h this k (asInt frag_offset) (asInt seq) timestamp (asInt frag_len)
      (asInt payload_size)
  else
    asfSendBufferNodefrag h this k (asInt frag_offset) (asInt seq) timestamp (asInt frag_len)
      (asInt payload_size)

/-- The loop of `asf_parse_packet_payload_single`, in at most a number of rounds. -/
def singleLoop (h : Headers) (stream : Option Kind) (raw_id data_length : ℕ) :
    ℕ → DemuxAsf → ℕ → ℤ → ℕ → DemuxAsf
  | 0, this, _, _, _ => this
  | rounds + 1, this, seq, timestamp, data_sent =>
    if data_sent < data_length then
      let (object_length, this) := this.getLe 1
      let this := match stream with
        | some k =>
          sendBuffer h (resync this k raw_id timestamp) k 0 seq timestamp object_length object_length
        | none => (this.read object_length).2
      let this := { this with packet_size_left := this.packet_size_left - (object_length + 1) }
      singleLoop h stream raw_id data_length rounds this (seq + 1) 0 (data_sent + (object_length + 1))
    else
      this

/-- `asf_parse_packet_payload_single`, and whether the rest of the packet is read. -/
def asfParsePacketPayloadSingle (h : Headers) (this : DemuxAsf) (raw_id : ℕ) (common : Common) :
    DemuxAsf × Bool :=
  let (_, this) := this.getLe 1
  let size := lengthSize this.lengthType
  let s_hdr_size := if this.multiple then 1 + size else 1
  let (data_length, this) :=
    if this.multiple then this.getLe size
    else (((this.packet_size_left - s_hdr_size) % 2^32).toNat, this)
  if this.packet_size_left % 2^32 < data_length then
    (this, false)
  else
    let this := { this with packet_size_left := this.packet_size_left - s_hdr_size }
    (singleLoop h common.stream raw_id data_length data_length this common.seq common.frag_offset 0,
      true)

/-- `asf_parse_packet_payload_multiple`, and whether the rest of the packet is read. -/
def asfParsePacketPayloadMultiple (h : Headers) (this : DemuxAsf) (raw_id : ℕ) (common : Common) :
    DemuxAsf × Bool :=
  let (payload_size, this) := if 8 ≤ common.rlen then this.getLe 4 else (0, this)
  let (timestamp, this) := if 8 ≤ common.rlen then this.getLe 4 else (0, this)
  let (_, this) := this.read (if 8 ≤ common.rlen then common.rlen - 8 else common.rlen)
  let size := lengthSize this.lengthType
  let s_hdr_size := if this.multiple then common.rlen + size else common.rlen
  let (frag_len, this) :=
    if this.multiple then this.getLe size
    else (((this.packet_size_left - s_hdr_size) % 2^32).toNat, this)
  if this.packet_size_left % 2^32 < frag_len then
    (this, false)
  else
    let payload_size := if payload_size = 0 then frag_len else payload_size
    let this := { this with packet_size_left := this.packet_size_left - s_hdr_size }
    let this := match common.stream with
      | some k =>
        let this := if common.frag_offset = 0 then resync this k raw_id timestamp else this
        sendBuffer h this k common.frag_offset common.seq timestamp frag_len payload_size
      | none => (this.read frag_len).2
    ({ this with packet_size_left := this.packet_size_left - frag_len }, true)

/-- A payload, as a round of the loop of `demux_asf_send_chunk`, and whether the rest of the packet is
read. -/
def asfParsePayload (h : Headers) (this : DemuxAsf) : DemuxAsf × Bool :=
  let (raw_id, this) := this.getLe 1
  let this := { this with packet_size_left := this.packet_size_left - 1 }
  match asfParsePacketPayloadCommon h this raw_id with
  | (this, none) => (this, false)
  | (this, some common) =>
    if common.rlen = 1 then asfParsePacketPayloadSingle h this raw_id common
    else asfParsePacketPayloadMultiple h this raw_id common

end Xine.Asf
