import Mathlib.Data.Rat.Floor
import Xine.Avi.Index

/-!
# Positions in an AVI file

The positions of the streams in their indexes, the entries that are at these positions, and the times of
these, as `demux_avi.c` computes them. The arithmetic of `double` is taken as it is given.
-/

namespace Xine.Avi

/-- Numbers of type `double`, as far as times are computed with them. Every operation is rounded, and none of
them reverses an order. -/
structure Doubles where
  Double : Type
  le : Double → Double → Prop
  ofInt : ℤ → Double
  mul : Double → Double → Double
  div : Double → Double → Double
  toInt : Double → ℤ
  ofInt_mono : ∀ {a b : ℤ}, a ≤ b → le (ofInt a) (ofInt b)
  mul_left_mono : ∀ {x y : Double} {k : ℤ}, 0 ≤ k → le x y → le (mul (ofInt k) x) (mul (ofInt k) y)
  mul_right_mono : ∀ {x y : Double} {k : ℤ}, 0 ≤ k → le x y → le (mul x (ofInt k)) (mul y (ofInt k))
  div_mono : ∀ {x y : Double} {k : ℤ}, 0 < k → le x y → le (div x (ofInt k)) (div y (ofInt k))
  toInt_mono : ∀ {x y : Double}, le x y → toInt x ≤ toInt y

/-- A conversion to an integer drops what is behind the point. -/
def truncate (q : ℚ) : ℤ := if 0 ≤ q then ⌊q⌋ else ⌈q⌉

theorem truncate_mono {p q : ℚ} (h : p ≤ q) : truncate p ≤ truncate q := by
  unfold truncate
  split_ifs with hp hq hq
  · exact Int.floor_le_floor h
  · exact absurd (hp.trans h) hq
  · exact (Int.ceil_nonpos.2 (le_of_not_ge hp)).trans (Int.floor_nonneg.2 hq)
  · exact Int.ceil_le_ceil h

/-- Numbers that need no rounding. -/
def Doubles.exact : Doubles where
  Double := ℚ
  le := (· ≤ ·)
  ofInt := (↑)
  mul := (· * ·)
  div := (· / ·)
  toInt := truncate
  ofInt_mono h := Int.cast_le.2 h
  mul_left_mono hk h := mul_le_mul_of_nonneg_left h (Int.cast_nonneg hk)
  mul_right_mono hk h := mul_le_mul_of_nonneg_right h (Int.cast_nonneg hk)
  div_mono hk h := div_le_div_of_nonneg_right h (Int.cast_nonneg hk.le)
  toInt_mono := truncate_mono

/-- `dwSampleSize`, `dwScale` and `dwRate` of a stream. -/
structure StreamRate where
  dwSampleSize : ℤ
  dwScale : ℤ
  dwRate : ℤ

/-- `DEMUX_OK` and `DEMUX_FINISHED`. -/
inductive DemuxStatus where
  | ok | finished
deriving DecidableEq

/-- A demuxer with its positions: the number of the current chunk of each stream, and the number of the bytes
of it that have been read. -/
structure AviPlay where
  demux : DemuxAvi
  streaming : Bool
  no_audio : Bool
  status : DemuxStatus
  rate : StreamRate
  audio_rate : ℕ → StreamRate
  video_posf : ℕ
  video_posb : ℤ
  audio_posc : ℕ → ℕ
  audio_posb : ℕ → ℤ

/-- The index of an audio stream. -/
def DemuxAvi.aindex (d : DemuxAvi) (track : ℕ) : List AudioIndexEntry :=
  match d.audio[track]? with
  | some audio => audio.aindex
  | none => []

/-- The `nBlockAlign` of an audio stream, or zero if there is none. -/
def DemuxAvi.align (d : DemuxAvi) (track : ℕ) : ℕ :=
  match d.audio[track]? with
  | some audio => audio.nBlockAlign.getD 0
  | none => 0

/-- The stopper for the current video frame. -/
def videoPosStopper (video_posf : ℕ) (d : DemuxAvi) : ℤ :=
  if d.vindex.length ≤ video_posf then -1 else 1

/-- The stopper for the current chunk of an audio stream. -/
def audioPosStopper (track audio_posc : ℕ) (d : DemuxAvi) : ℤ :=
  if (d.aindex track).length ≤ audio_posc then -1 else 1

namespace AviPlay

def getVideoPts (D : Doubles) (this : AviPlay) (pos : ℕ) : ℤ :=
  D.toInt (D.div (D.mul (D.mul (D.ofInt 90000) (D.ofInt pos)) (D.ofInt this.rate.dwScale))
    (D.ofInt this.rate.dwRate))

def getAudioPts (D : Doubles) (this : AviPlay) (track : ℕ) (posc postot posb : ℤ) : ℤ :=
  let at' := this.audio_rate track
  if at'.dwSampleSize = 0 ∧ at'.dwScale > 1 then
    D.toInt (D.div (D.mul (D.mul (D.ofInt 90000) (D.ofInt posc)) (D.ofInt at'.dwScale)) (D.ofInt at'.dwRate))
  else
    let unit : ℤ := if this.demux.align track ≠ 0 then this.demux.align track else at'.dwSampleSize
    D.toInt (D.mul (D.div (D.mul (D.div (D.ofInt (postot + posb)) (D.ofInt unit)) (D.ofInt at'.dwScale))
      (D.ofInt at'.dwRate)) (D.ofInt 90000))

/-- The time of a place in a chunk of an audio stream. -/
def entryPts (D : Doubles) (this : AviPlay) (track : ℕ) (aie : AudioIndexEntry) (posb : ℤ) : ℤ :=
  this.getAudioPts D track aie.block_no aie.tot posb

def videoCurIndexEntry (fuel : ℕ) (this : AviPlay) : Option (AviPlay × Option VideoIndexEntry) :=
  if this.demux.vindex.length ≤ this.video_posf then do
    let (retval, demux) ← idxGrow (videoPosStopper this.video_posf) fuel this.demux
    let this := { this with demux := demux }
    if retval < 0 then some (this, none) else some (this, demux.vindex[this.video_posf]?)
  else some (this, this.demux.vindex[this.video_posf]?)

def audioCurIndexEntry (fuel : ℕ) (this : AviPlay) (track : ℕ) :
    Option (AviPlay × Option AudioIndexEntry) :=
  if (this.demux.aindex track).length ≤ this.audio_posc track then do
    let (retval, demux) ← idxGrow (audioPosStopper track (this.audio_posc track)) fuel this.demux
    let this := { this with demux := demux }
    if retval < 0 then some (this, none) else some (this, (demux.aindex track)[this.audio_posc track]?)
  else some (this, (this.demux.aindex track)[this.audio_posc track]?)

variable {D : Doubles} {this : AviPlay}

theorem getVideoPts_mono (hscale : 0 ≤ this.rate.dwScale) (hrate : 0 < this.rate.dwRate) {i j : ℕ}
    (h : i ≤ j) : this.getVideoPts D i ≤ this.getVideoPts D j := by
  have hpos : D.le (D.ofInt i) (D.ofInt j) := D.ofInt_mono (Int.ofNat_le.2 h)
  have hscaled := D.mul_right_mono hscale (D.mul_left_mono (by decide : (0 : ℤ) ≤ 90000) hpos)
  exact D.toInt_mono (D.div_mono hrate hscaled)

theorem videoCurIndexEntry_of_lt {fuel : ℕ} (h : this.video_posf < this.demux.vindex.length) :
    this.videoCurIndexEntry fuel = some (this, some this.demux.vindex[this.video_posf]) := by
  unfold videoCurIndexEntry
  rw [if_neg (not_le.2 h), List.getElem?_eq_getElem h]

theorem audioCurIndexEntry_of_lt {fuel track : ℕ}
    (h : this.audio_posc track < (this.demux.aindex track).length) :
    this.audioCurIndexEntry fuel track =
      some (this, some (this.demux.aindex track)[this.audio_posc track]) := by
  unfold audioCurIndexEntry
  rw [if_neg (not_le.2 h), List.getElem?_eq_getElem h]

end AviPlay

end Xine.Avi

/-!
## Reading from an AVI file

`AVI_read_video`, `AVI_read_audio` and `demux_avi_next` of `demux_avi.c`. The two reading functions are the
same loop over the positions of their streams; they go on to the next entry only when they find
the current one used up. What is left out of a buffer is the length of the input that it reports.
-/

namespace Xine.Avi

def bufFlagFrameEnd : ℕ := 0x0004

/-- How a stream is read: its current entry with the place and the length of its chunk, and its positions. -/
structure StreamOps where
  curIndexEntry : ℕ → AviPlay → Option (AviPlay × Option (ℤ × ℤ))
  posf : AviPlay → ℕ
  posb : AviPlay → ℤ
  put : AviPlay → ℕ → ℤ → AviPlay

namespace AviPlay

/-- The video stream. -/
def videoOps : StreamOps where
  curIndexEntry fuel this :=
    (this.videoCurIndexEntry fuel).map fun found => (found.1, found.2.map fun vie => (vie.pos, vie.len))
  posf := video_posf
  posb := video_posb
  put this posf posb := { this with video_posf := posf, video_posb := posb }

/-- An audio stream. -/
def audioOps (track : ℕ) : StreamOps where
  curIndexEntry fuel this :=
    (this.audioCurIndexEntry fuel track).map fun found => (found.1, found.2.map fun aie => (aie.pos, aie.len))
  posf this := this.audio_posc track
  posb this := this.audio_posb track
  put this posc posb := { this with
    audio_posc := Function.update this.audio_posc track posc
    audio_posb := Function.update this.audio_posb track posb }

/-- A seek, and the read of some bytes there. -/
def readAt (this : AviPlay) (pos todo : ℤ) : AviPlay × Option (List Byte) :=
  let (offset, input) := this.demux.input.seek pos
  if offset < 0 then (this, none)
  else
    let (data, input) := input.read todo.toNat
    let this := { this with demux := { this.demux with input := input } }
    if (data.length : ℤ) ≠ todo then (this, none) else (this, some data)

/-- The part of an iteration that reads, and the iterations behind it. -/
def readOn (ops : StreamOps)
    (loop : AviPlay → ℤ × ℤ → ℤ → List Byte → Option (AviPlay × Option (List Byte × ℕ)))
    (bytes : ℤ) (mem : List Byte) (this : AviPlay) (entry : ℤ × ℤ) :
    Option (AviPlay × Option (List Byte × ℕ)) :=
  let left := entry.2 - ops.posb this
  let todo := if bytes < left then bytes else left
  match this.readAt (entry.1 + ops.posb this) todo with
  | (this, none) => some (this, none)
  | (this, some data) =>
    loop (ops.put this (ops.posf this) (ops.posb this + todo)) entry (bytes - todo) (mem ++ data)

/-- The part of an iteration behind the end of a chunk: what has been read is a piece, if there is any. -/
def readNext (ops : StreamOps)
    (loop : AviPlay → ℤ × ℤ → ℤ → List Byte → Option (AviPlay × Option (List Byte × ℕ)))
    (bytes : ℤ) (mem : List Byte) : AviPlay × Option (ℤ × ℤ) → Option (AviPlay × Option (List Byte × ℕ))
  | (this, none) => some (this, none)
  | (this, some entry) =>
    if mem ≠ [] then some (this, some (mem, bufFlagFrameEnd)) else readOn ops loop bytes mem this entry

/-- The flags of a buffer, from what is left of the entry. -/
def endFlags (left : ℤ) : ℕ := if left = 0 then bufFlagFrameEnd else 0

/-- The loop of the reading functions: what has been read, with its flags, unless it is an error. -/
def readLoop (ops : StreamOps) :
    ℕ → AviPlay → ℤ × ℤ → ℤ → List Byte → Option (AviPlay × Option (List Byte × ℕ))
  | 0, _, _, _, _ => none
  | fuel + 1, this, entry, bytes, mem =>
    if bytes > 0 then
      if entry.2 - ops.posb this = 0 then do
        let found ← ops.curIndexEntry fuel (ops.put this (ops.posf this + 1) 0)
        readNext ops (readLoop ops fuel) bytes mem found
      else readOn ops (readLoop ops fuel) bytes mem this entry
    else some (this, some (mem, endFlags (entry.2 - ops.posb this)))

/-- The reading functions. -/
def aviRead (ops : StreamOps) (bytes : ℤ) (fuel : ℕ) (this : AviPlay) :
    Option (AviPlay × Option (List Byte × ℕ)) := do
  let (this, entry) ← ops.curIndexEntry fuel this
  match entry with
  | none => some (this, none)
  | some entry => readLoop ops fuel this entry bytes []

def aviReadVideo (bytes : ℤ) (fuel : ℕ) (this : AviPlay) : Option (AviPlay × Option (List Byte × ℕ)) :=
  aviRead videoOps bytes fuel this

def aviReadAudio (track : ℕ) (bytes : ℤ) (fuel : ℕ) (this : AviPlay) :
    Option (AviPlay × Option (List Byte × ℕ)) :=
  aviRead (audioOps track) bytes fuel this

end AviPlay

/-! ## The next buffers -/

/-- A buffer, with what is read and its size. -/
structure BufElement where
  content : List Byte
  decoder_flags : ℕ
  pts : ℤ

/-- A buffer of the video stream. -/
structure VideoElement extends BufElement where
  input_time : ℤ
  input_pos : ℤ
  frame_number : ℕ

/-- A buffer of an audio stream. -/
structure AudioElement extends BufElement where
  track : ℕ

/-- The demuxer with its fifos. There may be none for audio. -/
structure Feed where
  this : AviPlay
  video_fifo : List VideoElement
  audio_fifo : Option (List AudioElement)

/-- A call of `demux_avi_next` on its way: whether the video is to be read, the size of the last buffer if there
is one, and whether the call is over. -/
structure AviCall where
  feed : Feed
  do_read_video : Bool
  size : Option ℕ
  returned : Bool

namespace Feed

/-- The audio streams have a current entry each, after their indexes have been grown for it. -/
def audioReady (fuel : ℕ) (state : AviPlay × Bool) (track : ℕ) : Option (AviPlay × Bool) :=
  if state.2 = true ∧ state.1.no_audio = false then
    (state.1.audioCurIndexEntry fuel track).map fun found => (found.1, found.2.isSome)
  else some state

/-- The turn of an audio stream. -/
def audioTurn (D : Doubles) (decoder_flags : ℕ) (video_pts : ℤ) (fuel : ℕ) (c : AviCall) (track : ℕ) :
    Option AviCall :=
  if c.returned then some c
  else do
    let (this, aie) ← c.feed.this.audioCurIndexEntry fuel track
    let c := { c with feed := { c.feed with this := this } }
    match aie with
    | none => some { c with returned := true }
    | some aie =>
      let audio_pts := this.entryPts D track aie (this.audio_posb track)
      if this.no_audio = false ∧ audio_pts < video_pts then do
        let (this, read) ← this.aviReadAudio track 2048 fuel
        let c := { c with feed := { c.feed with this := this } }
        match read with
        | none => some { c with returned := true }
        | some (mem, buf_flags) =>
          let buf : AudioElement := ⟨⟨mem, buf_flags ||| decoder_flags, audio_pts⟩, track⟩
          some { c with
            feed := { c.feed with audio_fifo := c.feed.audio_fifo.map (· ++ [buf]) }
            size := some mem.length }
      else some { c with do_read_video := true }

/-- The turn of the video stream, and the end of the call: whether there is more to come. -/
def videoTurn (decoder_flags : ℕ) (video_pts : ℤ) (fuel : ℕ) (c : AviCall) : Option (Feed × Bool) :=
  if c.returned then some (c.feed, false)
  else if c.do_read_video then do
    let (this, read) ← c.feed.this.aviReadVideo 2048 fuel
    let feed := { c.feed with this := this }
    match read with
    | none => some (feed, false)
    | some (mem, buf_flags) =>
      let buf : VideoElement :=
        ⟨⟨mem, buf_flags ||| decoder_flags, video_pts⟩, video_pts.tdiv 90, this.demux.input.pos,
          this.video_posf⟩
      some ({ feed with video_fifo := feed.video_fifo ++ [buf] }, 0 < mem.length)
  else some (c.feed, c.size.any (0 < ·))

/-- `demux_avi_next`: whether there is more to come. -/
def demuxAviNext (D : Doubles) (decoder_flags : ℕ) (feed : Feed) (fuel : ℕ) : Option (Feed × Bool) := do
  let (this, vie) ← feed.this.videoCurIndexEntry fuel
  if vie = none then some ({ feed with this := this }, false)
  else
    let tracks := List.range this.demux.audio.length
    let (this, ready) ← tracks.foldlM (audioReady fuel) (this, true)
    let feed := { feed with this := this }
    if ¬ready then some (feed, false)
    else
      let video_pts := this.getVideoPts D this.video_posf
      let c ← tracks.foldlM (audioTurn D decoder_flags video_pts fuel)
        ⟨feed, this.demux.audio.length = 0, none, false⟩
      videoTurn decoder_flags video_pts fuel c

/-- Calls of `demux_avi_next` until there is no more to come. -/
def playAll (D : Doubles) (decoder_flags : ℕ) : ℕ → Feed → Option Feed
  | 0, _ => none
  | fuel + 1, feed => do
    let (feed, more) ← feed.demuxAviNext D decoder_flags fuel
    if more then playAll D decoder_flags fuel feed else some feed

end Feed

end Xine.Avi
