import Xine.Buffer.Conservation

/-!
# Network buffer control

`net_buf_ctrl.c`: the callbacks that watch the fifos of a network stream, and stop the clock
while too little is buffered. The code for the two fifos is the same on two sets of fields, a `Side` each.

An `int` that can overflow wraps, and so does the difference of two pts. A division by zero is `none`. The
events and the settings of the clock that a callback causes are returned beside the state; the line that
`display_stats` prints is left out.
-/

namespace Xine.NetBuf

open Buffer (FifoBuffer BufElement)

/-- The video or the audio fifo. -/
inductive Which | video | audio
deriving DecidableEq

/-- The other one. -/
def Which.other : Which → Which
  | video => audio
  | audio => video

/-- The fields of `nbc_t` for one fifo. -/
structure Side where
  fifo_fill : ℤ
  fifo_free : ℤ
  fifo_length : ℤ
  last_pts : ℤ
  first_pts : ℤ
  fifo_size : ℤ
  br : ℤ
  in_disc : ℤ

structure Nbc where
  buffering : Bool
  enabled : Bool
  progress : ℤ
  high_water_mark : ℤ
  side : Which → Side

/-- The entries of `stream_info` that the callbacks read: `HAS_VIDEO` and `VIDEO_BITRATE`, or the same for
audio. -/
structure StreamInfo where
  has : Which → Bool
  bitrate : Which → ℤ

/-- What the callbacks cause outside. -/
inductive Effect
  | progress (percent : ℤ)
  | speedPause
  | speedNormal

/-- `FIFO_PUT` and `FIFO_GET`. -/
inductive FifoAction | put | get

def nbcInit : Nbc where
  buffering := false
  enabled := false
  progress := 0
  high_water_mark := 5000
  side := fun _ => ⟨0, 0, 0, 0, 0, 0, 0, 0⟩

def fullFifoMark : ℤ := 5

/-- An `int`. -/
def toInt (n : ℤ) : ℤ := Int.bmod n (2 ^ 32)

/-- An `int64_t`. -/
def toInt64 (n : ℤ) : ℤ := Int.bmod n (2 ^ 64)

/-- A division, which needs a divisor. -/
def divide (a b : ℤ) : Option ℤ := if b = 0 then none else some (a.tdiv b)

def reportProgress (p : ℤ) : Effect := .progress (min p 100)

namespace Nbc

/-- Writing back the fields for one fifo. -/
def setSide (this : Nbc) (w : Which) (d : Side) : Nbc := { this with side := Function.update this.side w d }

@[simp] theorem setSide_side (this : Nbc) (w : Which) (d : Side) : (this.setSide w d).side w = d := by
  simp [setSide]

@[simp] theorem setSide_side_of_ne (this : Nbc) {w v : Which} (d : Side) (h : v ≠ w) :
    (this.setSide w d).side v = this.side v := by
  simp [setSide, h]

end Nbc

/-! ## The length of a fifo -/

/-- The fill level in percent. -/
def fillLevel (fifo : FifoBuffer) : Option ℤ :=
  divide (toInt (100 * fifo.fifo_size)) (toInt (fifo.fifo_size + fifo.buffer_pool_num_free - 1))

/-- The pts of a buffer that is put or taken. -/
def Side.setPts (d : Side) (pts : ℤ) : FifoAction → Side
  | .put => { d with last_pts := pts, first_pts := if d.first_pts = 0 then pts else d.first_pts }
  | .get => { d with first_pts := pts }

/-- The length and the bitrate from the first and the last pts. -/
def Side.lengthOfPts (d : Side) : Option Side :=
  let fifo_length := (toInt64 (d.last_pts - d.first_pts)).tdiv 90
  if fifo_length ≠ 0 then
    (divide d.fifo_size fifo_length).map fun q => { d with fifo_length := fifo_length, br := 8000 * q }
  else
    some { d with fifo_length := fifo_length, br := 0 }

/-- The length from the bitrate. -/
def Side.lengthOfBitrate (d : Side) (br : ℤ) : Option Side :=
  (divide (8000 * d.fifo_size) br).map fun fifo_length => { d with fifo_length := fifo_length }

/-- `nbc_compute_fifo_length`, for either fifo; `br` is its bitrate in `stream_info`. -/
def Side.compute (d : Side) (br : ℤ) (fifo : FifoBuffer) (buf : BufElement) (action : FifoAction) :
    Option Side :=
  (fillLevel fifo).bind fun fifo_fill =>
    let d := { d with
      fifo_free := fifo.buffer_pool_num_free
      fifo_fill := fifo_fill
      fifo_size := fifo.fifo_data_size.toNat }
    if br ≠ 0 then
      { d with br := br }.lengthOfBitrate br
    else if buf.pts ≠ 0 ∧ d.in_disc = 0 then
      (d.setPts buf.pts action).lengthOfPts
    else if d.br ≠ 0 then
      d.lengthOfBitrate d.br
    else
      some d

def nbcComputeFifoLength (this : Nbc) (info : StreamInfo) (w : Which) (fifo : FifoBuffer) (buf : BufElement)
    (action : FifoAction) : Option Nbc :=
  ((this.side w).compute (info.bitrate w) fifo buf action).map (this.setSide w)

/-! ## The callbacks -/

def bufControlEnd : BitVec 32 := 0x01010000#32

def bufControlNop : BitVec 32 := 0x01040000#32

def bufControlDiscontinuity : BitVec 32 := 0x01030000#32

def bufControlNewpts : BitVec 32 := 0x01070000#32

def bufFlagEndUser : BitVec 32 := 0x0020#32

def bufFlagEndStream : BitVec 32 := 0x0040#32

/-- `nbc_alloc_cb`: playing goes on if a fifo is full. -/
def nbcAllocCb (this : Nbc) (fifo : FifoBuffer) : Nbc × List Effect :=
  if this.buffering ∧ fifo.buffer_pool_num_free ≤ 1 then
    ({ this with progress := 100, buffering := false }, [reportProgress 100, .speedNormal])
  else
    (this, [])

/-- A new stream starts with its first buffer. -/
def nbcStart (this : Nbc) : Nbc × List Effect :=
  if this.enabled then
    (this, [])
  else
    ({ this with
      enabled := true
      buffering := true
      side := fun w => { this.side w with first_pts := 0, last_pts := 0, fifo_length := 0 }
      progress := 0 }, [.speedPause, reportProgress 0])

/-- The buffering progress, from the lengths of the fifos or else from their fill levels. -/
def bufferingProgress (this : Nbc) (info : StreamInfo) : Option ℤ :=
  (divide ((this.side .video).fifo_length * 50) this.high_water_mark).bind fun video_p =>
    (divide ((this.side .audio).fifo_length * 50) this.high_water_mark).map fun audio_p =>
      let video_p := if video_p > 50 then 50 else video_p
      let audio_p := if audio_p > 50 then 50 else audio_p
      let progress :=
        if info.has .video ∧ info.has .audio then video_p + audio_p
        else if info.has .video then 2 * video_p
        else 2 * audio_p
      if progress = 0 then
        let video_p := (this.side .video).fifo_fill
        let audio_p := (this.side .audio).fifo_fill
        if video_p > audio_p then video_p else audio_p
      else
        progress

/-- Each fifo of the stream is as long as the high water mark asks for. -/
def highWater (this : Nbc) (info : StreamInfo) : Bool :=
  (!info.has .video || decide ((this.side .video).fifo_length > this.high_water_mark)) &&
    (!info.has .audio || decide ((this.side .audio).fifo_length > this.high_water_mark)) &&
      (info.has .video || info.has .audio)

/-- What a put does while the stream is buffering. -/
def nbcPutBuffering (this : Nbc) (info : StreamInfo) : Option (Nbc × List Effect) :=
  if highWater this info then
    some ({ this with progress := 100, buffering := false }, [reportProgress 100, .speedNormal])
  else
    (bufferingProgress this info).map fun progress =>
      if progress > this.progress then ({ this with progress := progress }, [reportProgress progress])
      else (this, [])

/-- The switch of `nbc_put_cb` on the control buffers. -/
def nbcPutControl (this : Nbc) (w : Which) (buf : BufElement) : Nbc × List Effect :=
  if buf.type = bufControlNop ∨ buf.type = bufControlEnd then
    if buf.decoder_flags &&& bufFlagEndUser ≠ 0 ∨ buf.decoder_flags &&& bufFlagEndStream ≠ 0 then
      if this.buffering then
        ({ this with enabled := false, buffering := false, progress := 100 },
          [reportProgress 100, .speedNormal])
      else
        ({ this with enabled := false }, [])
    else
      (this, [])
  else if buf.type = bufControlNewpts then
    (this.setSide w { this.side w with in_disc := (this.side w).in_disc + 1 }, [])
  else
    (this, [])

/-- What both callbacks note of the fifo on a control buffer. -/
def nbcNote (this : Nbc) (w : Which) (fifo : FifoBuffer) : Nbc :=
  this.setSide w { this.side w with
    fifo_free := fifo.buffer_pool_num_free
    fifo_size := fifo.fifo_data_size.toNat }

def nbcPutCb (this : Nbc) (info : StreamInfo) (w : Which) (fifo : FifoBuffer) (buf : BufElement) :
    Option (Nbc × List Effect) :=
  if buf.isControl then
    let control := nbcPutControl this w buf
    some (nbcNote control.1 w fifo, control.2)
  else
    let started := nbcStart this
    (nbcComputeFifoLength started.1 info w fifo buf .put).bind fun this =>
      if this.buffering then
        (nbcPutBuffering this info).map fun (this, effects) => (this, started.2 ++ effects)
      else
        some (this, started.2)

/-- Buffering starts when one fifo is empty and the other is not full, and goes on until it is stopped. -/
def nbcGetEnabled (this : Nbc) (info : StreamInfo) (w : Which) (fifo : FifoBuffer) : Nbc × List Effect :=
  if this.buffering then
    (this, [.speedPause])
  else if fifo.fifo_size = 0 ∧ info.has w ∧ (this.side w.other).fifo_free > fullFifoMark then
    ({ this with buffering := true, progress := 0 }, [reportProgress 0, .speedPause])
  else
    (this, [])

def nbcGetCb (this : Nbc) (info : StreamInfo) (w : Which) (fifo : FifoBuffer) (buf : BufElement) :
    Option (Nbc × List Effect) :=
  if buf.isControl then
    let this := if buf.type = bufControlNewpts then
      this.setSide w { this.side w with in_disc := (this.side w).in_disc - 1 } else this
    some (nbcNote this w fifo, [])
  else
    (nbcComputeFifoLength this info w fifo buf .get).map fun this =>
      if this.enabled then nbcGetEnabled this info w fifo else (this, [])

end Xine.NetBuf

/-!
## The fifos of a network stream

Any threads work on the two fifos of a stream, as in `Xine.Buffer.System`, and the callbacks run with what they
do. An action that has to wait changes nothing, so that a step is `none` only where a callback divides by zero.

No caller of `fifo_buffer_insert`, which has no callbacks, inserts a `BUF_CONTROL_NEWPTS`: these are
`BUF_CONTROL_NOP`, `BUF_CONTROL_FLUSH_DECODER` and `BUF_SPU_DVD`.
-/

namespace Xine.NetBuf

open Buffer (FifoBuffer BufElement Elem Store)

variable {τ : Type*} [DecidableEq τ]

/-- A stream with network buffer control. -/
structure State (τ : Type*) where
  nbc : Nbc
  info : StreamInfo
  fifo : Which → Buffer.State τ
  /-- What the callbacks have caused so far. -/
  effects : List Effect

inductive Action (τ : Type*)
  /-- A critical section of a thread on one fifo. -/
  | on (w : Which) (act : Buffer.Action τ)
  /-- `buffer_pool_alloc` is entered, which may have to wait. -/
  | allocates (w : Which)
  /-- The demuxer or a decoder sets `stream_info`. -/
  | setInfo (info : StreamInfo)

/-- A buffer that announces a discontinuity. -/
def isNewpts (b : BufElement) : Bool := b.type == bufControlNewpts

/-- What a thread does to one fifo. -/
def fifoStep (s : Buffer.State τ) (act : Buffer.Action τ) : Option (Buffer.State τ) :=
  match act with
  | .insert _ e => if isNewpts (s.fifo.elements e) then none else Buffer.step s act
  | _ => Buffer.step s act

/-- The callback of an action: a put has it before the buffer is linked, a get behind its removal. -/
def callback (s : State τ) (w : Which) (f : Buffer.State τ) : Buffer.Action τ → Option (Nbc × List Effect)
  | .put _ e => nbcPutCb s.nbc s.info w (s.fifo w).fifo ((s.fifo w).fifo.elements e)
  | .get _ e => nbcGetCb s.nbc s.info w f.fifo (f.fifo.elements e)
  | _ => some (s.nbc, [])

/-- The stream when a fifo has come to `f` by an action, with its callback. -/
def perform (s : State τ) (w : Which) (act : Buffer.Action τ) (f : Buffer.State τ) : Option (State τ) :=
  (callback s w f act).map fun called =>
    { s with nbc := called.1, fifo := Function.update s.fifo w f, effects := s.effects ++ called.2 }

def step (s : State τ) : Action τ → Option (State τ)
  | .on w act => (fifoStep (s.fifo w) act).elim (some s) (perform s w act)
  | .allocates w =>
    let called := nbcAllocCb s.nbc (s.fifo w).fifo
    some { s with nbc := called.1, effects := s.effects ++ called.2 }
  | .setInfo info => some { s with info := info }

/-- A new fifo. -/
def newFifo (capacity : ℕ) (buf_size : BitVec 32) : FifoBuffer :=
  (Buffer.fifoBufferNew capacity buf_size).get (Buffer.fifoBufferNew_isSome capacity buf_size)

/-- A stream with empty fifos. -/
def start (capacity : Which → ℕ) (buf_size : BitVec 32) (info : StreamInfo) : State τ where
  nbc := nbcInit
  info := info
  fifo := fun w => Buffer.State.initial (newFifo (capacity w) buf_size)
  effects := []

/-! ## The fifos -/

section Types

variable {fifo fifo' : FifoBuffer} {e : Elem}

theorem type_put (x : Elem) : ((Buffer.fifoBufferPut fifo e).elements x).type = (fifo.elements x).type := by
  unfold Buffer.fifoBufferPut
  cases fifo.last with
  | none => exact FifoBuffer.setNext_type _ e x none
  | some last =>
    calc _ = ((fifo.setNext last (some e)).elements x).type := FifoBuffer.setNext_type _ e x none
      _ = _ := fifo.setNext_type last x _

theorem type_get (h : Buffer.fifoBufferGet fifo = some (fifo', e)) : fifo'.elements = fifo.elements := by
  unfold Buffer.fifoBufferGet at h
  cases hfirst : fifo.first with
  | none =>
    rw [hfirst] at h
    exact absurd h.symm (Option.some_ne_none _)
  | some buf =>
    rw [hfirst] at h
    obtain ⟨rfl, rfl⟩ := Prod.mk.inj (Option.some.inj h)
    rfl

theorem type_pop (h : Buffer.popPool fifo = some (fifo', e)) (x : Elem) :
    (fifo'.elements x).type = (fifo.elements x).type := by
  unfold Buffer.popPool at h
  cases htop : fifo.buffer_pool_top with
  | none =>
    rw [htop] at h
    exact absurd h.symm (Option.some_ne_none _)
  | some buf =>
    rw [htop] at h
    obtain ⟨rfl, rfl⟩ := Prod.mk.inj (Option.some.inj h)
    rcases eq_or_ne x buf with rfl | hne
    · simp [BufElement.sane]
    · simp [hne]

theorem type_free (h : Buffer.bufferPoolFree fifo e = some fifo') (x : Elem) :
    (fifo'.elements x).type = (fifo.elements x).type := by
  unfold Buffer.bufferPoolFree at h
  obtain ⟨-, h⟩ := Option.ite_none_left_eq_some.1 h
  cases h
  exact fifo.setNext_type e x _

theorem type_clearUnlink (prev next : Option Elem) (x : Elem) :
    ((Buffer.clearUnlink fifo e prev next).elements x).type = (fifo.elements x).type := by
  unfold Buffer.clearUnlink
  cases prev with
  | none => rfl
  | some p => exact fifo.setNext_type p x next

end Types

theorem type_step {s t : Buffer.State τ} {act : Buffer.Action τ} (hs : Buffer.step s act = some t)
    (hfill : ∀ u e b, act ≠ .fill u e b) (x : Elem) :
    (t.fifo.elements x).type = (s.fifo.elements x).type := by
  cases act with
  | put u e =>
    obtain ⟨-, h⟩ := Option.ite_none_right_eq_some.1 hs
    cases h
    exact type_put x
  | insert u e =>
    obtain ⟨-, h⟩ := Option.ite_none_right_eq_some.1 hs
    cases h
    exact s.fifo.setNext_type e x _
  | get u e =>
    obtain ⟨-, h⟩ := Option.ite_none_right_eq_some.1 hs
    cases hget : Buffer.fifoBufferGet s.fifo with
    | none => simp [hget] at h
    | some r =>
      obtain ⟨fifo, buf⟩ := r
      simp only [hget, Option.ite_none_right_eq_some, Option.some.injEq] at h
      obtain ⟨-, rfl⟩ := h
      rw [type_get hget]
  | alloc u e =>
    simp only [Buffer.step, Buffer.bufferPoolAlloc] at hs
    split_ifs at hs
    cases hpop : Buffer.popPool s.fifo with
    | none => simp [hpop] at hs
    | some r =>
      obtain ⟨fifo, buf⟩ := r
      simp only [hpop, Option.ite_none_right_eq_some, Option.some.injEq] at hs
      obtain ⟨-, rfl⟩ := hs
      exact type_pop hpop x
  | tryAlloc u r =>
    simp only [Buffer.step, Buffer.bufferPoolTryAlloc] at hs
    cases hpop : Buffer.popPool s.fifo with
    | none =>
      simp only [hpop, Option.ite_none_right_eq_some, Option.some.injEq] at hs
      obtain ⟨-, rfl⟩ := hs
      rfl
    | some r =>
      obtain ⟨fifo, buf⟩ := r
      simp only [hpop, Option.ite_none_right_eq_some, Option.some.injEq] at hs
      obtain ⟨-, rfl⟩ := hs
      exact type_pop hpop x
  | free u e =>
    obtain ⟨-, h⟩ := Option.ite_none_right_eq_some.1 hs
    obtain ⟨fifo, hfree, rfl⟩ := Option.map_eq_some_iff.1 h
    exact type_free hfree x
  | fill u e b => exact absurd rfl (hfill u e b)
  | clear u =>
    obtain ⟨-, h⟩ := Option.ite_none_right_eq_some.1 hs
    cases h
    rfl
  | clearScan u =>
    obtain ⟨buf, prev, -, ⟨-, rfl⟩ | ⟨-, rfl⟩⟩ := Buffer.step_clearScan_cases hs
    · rfl
    · exact type_clearUnlink _ _ x
  | clearFree u e =>
    obtain ⟨next, prev, fifo, -, hfree, rfl⟩ := Buffer.step_clearFree_cases hs
    exact type_free hfree x
  | clearEnd u =>
    obtain ⟨prev, -, rfl⟩ := Buffer.step_clearEnd_cases hs
    rfl

theorem get_frame {s t : Buffer.State τ} {u : τ} {e : Elem} (hs : Buffer.step s (.get u e) = some t) :
    t.fifo.elements = s.fifo.elements ∧ t.fifo.fifo_size = s.fifo.fifo_size - 1 ∧
      t.fifo.buffer_pool_num_free = s.fifo.buffer_pool_num_free ∧ t.clearing = none := by
  obtain ⟨hclearing, h⟩ := Option.ite_none_right_eq_some.1 hs
  cases hget : Buffer.fifoBufferGet s.fifo with
  | none => simp [hget] at h
  | some r =>
    obtain ⟨fifo, buf⟩ := r
    simp only [hget, Option.ite_none_right_eq_some, Option.some.injEq] at h
    obtain ⟨-, rfl⟩ := h
    refine ⟨type_get hget, ?_, ?_, Option.isNone_iff_eq_none.1 hclearing⟩
    all_goals
      unfold Buffer.fifoBufferGet at hget
      cases hfirst : s.fifo.first with
      | none =>
        rw [hfirst] at hget
        exact absurd hget.symm (Option.some_ne_none _)
      | some buf =>
        rw [hfirst] at hget
        obtain ⟨rfl, -⟩ := Prod.mk.inj (Option.some.inj hget)
        rfl

end Xine.NetBuf
