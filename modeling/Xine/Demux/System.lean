import Xine.Demux.Track

/-!
# Threads that emit control markers

The helpers of `demux.c`, which put a marker into both fifos of a stream, the flush of
the engine, and the two decoder loops. Any number of threads call the helpers and the flush; a thread
is at `idle` outside them. An action is what a thread does to one fifo, or while it holds
`counter_lock`. Where the code waits for a free buffer or for a decoder it is not enabled until then.

`headers_done` is called by one thread at a time, and also by the flush; this is what `headers_caller`
is for, which the code does not have. What the flush does with the output ports does not concern the
fifos, and how long a decoder takes for a buffer only excludes some of the interleavings.

Without an audio fifo the helpers leave out its half.
-/

namespace Xine.Demux

variable {τ : Type*} [DecidableEq τ]

/-- The helpers that only put their marker. -/
inductive Helper where
  | newpts (pts : ℤ) (flags : BitVec 32)
  | start
  | «end» (flags : BitVec 32)
  | nop (flags : BitVec 32)

/-- The type of the marker. -/
def Helper.type : Helper → BitVec 32
  | .newpts .. => bufControlNewpts
  | .start => bufControlStart
  | .end _ => bufControlEnd
  | .nop _ => bufControlNop

/-- The marker, when `old` is in the field `disc_off` of the allocated element, which an allocation
leaves alone. -/
def Helper.buf (old : ℤ) : Helper → Buf
  | .newpts pts flags => ⟨bufControlNewpts, flags, pts⟩
  | .start => ⟨bufControlStart, 0, old⟩
  | .end flags => ⟨bufControlEnd, flags, old⟩
  | .nop flags => ⟨bufControlNop, flags, old⟩

/-- Where a thread is. -/
inductive Pc where
  | idle
  /-- In a helper, before the audio half. -/
  | helperAudio (h : Helper)
  /-- In `xine_demux_flush_engine`, before the audio fifo is cleared. -/
  | flushAudio
  /-- Before the reset marker is put. -/
  | flushReset
  | flushResetAudio
  /-- Before `xine_demux_control_headers_done`. -/
  | flushHeaders
  /-- In `xine_demux_control_headers_done`, before its marker is put, with the two counts that it waits
  for. -/
  | headersVideo (header_count_video header_count_audio : ℕ)
  /-- The same before the audio half, with the serial number of the marker. -/
  | headersAudio (header_count_video header_count_audio video : ℕ)
  /-- At the condition of the loop, with the lock. -/
  | headersCheck (header_count_video header_count_audio video audio : ℕ)
  /-- In the wait. -/
  | headersWait (header_count_video header_count_audio video audio : ℕ)

/-- The stream and its threads. -/
structure State (τ : Type*) where
  video : Track
  audio : Track
  has_audio_fifo : Bool
  counter_lock : Bool
  headers_caller : Option τ
  pc : τ → Pc

/-- A stream before anything is put. -/
def init (has_audio_fifo : Bool) : State τ :=
  ⟨emptyTrack, emptyTrack, has_audio_fifo, false, none, fun _ => .idle⟩

/-- The test for headers in `video_decoder_loop`. -/
def videoIsHeaders (type : BitVec 32) : Bool := type &&& 0xffff0000#32 == bufControlHeadersDone

/-- The test for headers in `audio_decoder_loop`. -/
def audioIsHeaders (type : BitVec 32) : Bool := type == bufControlHeadersDone

/-- The markers that are put into both fifos only. -/
def markers : List (BitVec 32) :=
  [bufControlStart, bufControlEnd, bufControlDiscontinuity, bufControlNewpts,
    bufControlResetDecoder, bufControlHeadersDone]

/-- One action of a thread or a decoder loop; `old` is as for `Helper.buf`. -/
inductive Action (τ : Type*) where
  /-- A helper puts the video half of its marker. -/
  | helper (t : τ) (h : Helper) (old : ℤ)
  | helperAudio (t : τ) (old : ℤ)
  /-- `xine_demux_flush_engine` clears the video fifo. -/
  | flush (t : τ)
  | flushAudio (t : τ)
  | flushReset (t : τ) (old : ℤ)
  | flushResetAudio (t : τ) (old : ℤ)
  /-- `xine_demux_control_headers_done` takes the lock and reads the counts. -/
  | headers (t : τ)
  | headersVideo (t : τ) (old : ℤ)
  | headersAudio (t : τ) (old : ℤ)
  /-- It looks at the counts, and waits or returns. -/
  | headersCheck (t : τ)
  /-- The wait is over, for any reason. -/
  | headersWake (t : τ)
  /-- A demuxer puts a buffer that is not one of the markers into a fifo. -/
  | putVideo (b : Buf)
  | putAudio (b : Buf)
  | videoGet
  | videoHandle
  | audioGet
  | audioHandle

namespace State

/-- A thread goes on. -/
def goto (s : State τ) (t : τ) (pc : Pc) : State τ := { s with pc := Function.update s.pc t pc }

end State

/-- One action of one thread. -/
def step (s : State τ) : Action τ → Option (State τ)
  | .helper t h old =>
    match s.pc t with
    | .idle =>
      some ({ s with video := s.video.put (h.buf old) }.goto t
        (if s.has_audio_fifo then .helperAudio h else .idle))
    | _ => none
  | .helperAudio t old =>
    match s.pc t with
    | .helperAudio h => some ({ s with audio := s.audio.put (h.buf old) }.goto t .idle)
    | _ => none
  | .flush t =>
    match s.pc t with
    | .idle =>
      some ({ s with video := s.video.clear }.goto t
        (if s.has_audio_fifo then .flushAudio else .flushReset))
    | _ => none
  | .flushAudio t =>
    match s.pc t with
    | .flushAudio => some ({ s with audio := s.audio.clear }.goto t .flushReset)
    | _ => none
  | .flushReset t old =>
    match s.pc t with
    | .flushReset =>
      some ({ s with video := s.video.put ⟨bufControlResetDecoder, 0, old⟩ }.goto t
        (if s.has_audio_fifo then .flushResetAudio else .flushHeaders))
    | _ => none
  | .flushResetAudio t old =>
    match s.pc t with
    | .flushResetAudio =>
      some ({ s with audio := s.audio.put ⟨bufControlResetDecoder, 0, old⟩ }.goto t .flushHeaders)
    | _ => none
  | .headers t =>
    match s.pc t with
    | .idle | .flushHeaders =>
      if s.headers_caller.isNone ∧ s.counter_lock = false then
        some ({ s with counter_lock := true, headers_caller := some t }.goto t
          (.headersVideo (s.video.header_count + 1)
            (if s.has_audio_fifo then s.audio.header_count + 1 else 0)))
      else none
    | _ => none
  | .headersVideo t old =>
    match s.pc t with
    | .headersVideo hv ha =>
      some ({ s with video := s.video.put ⟨bufControlHeadersDone, 0, old⟩ }.goto t
        (if s.has_audio_fifo then .headersAudio hv ha s.video.puts
        else .headersCheck hv ha s.video.puts 0))
    | _ => none
  | .headersAudio t old =>
    match s.pc t with
    | .headersAudio hv ha video =>
      some ({ s with audio := s.audio.put ⟨bufControlHeadersDone, 0, old⟩ }.goto t
        (.headersCheck hv ha video s.audio.puts))
    | _ => none
  | .headersCheck t =>
    match s.pc t with
    | .headersCheck hv ha video audio =>
      if s.audio.header_count < ha ∨ s.video.header_count < hv then
        some ({ s with counter_lock := false }.goto t (.headersWait hv ha video audio))
      else some ({ s with counter_lock := false, headers_caller := none }.goto t .idle)
    | _ => none
  | .headersWake t =>
    match s.pc t with
    | .headersWait hv ha video audio =>
      if s.counter_lock then none
      else some ({ s with counter_lock := true }.goto t (.headersCheck hv ha video audio))
    | _ => none
  | .putVideo b =>
    if b.type &&& 0xffff0000#32 ∈ markers then none else some { s with video := s.video.put b }
  | .putAudio b =>
    if b.type &&& 0xffff0000#32 ∈ markers ∨ s.has_audio_fifo = false then none
    else some { s with audio := s.audio.put b }
  | .videoGet => s.video.get.map fun video => { s with video }
  | .videoHandle => (s.video.handle videoIsHeaders s.counter_lock).map fun video => { s with video }
  | .audioGet => s.audio.get.map fun audio => { s with audio }
  | .audioHandle => (s.audio.handle audioIsHeaders s.counter_lock).map fun audio => { s with audio }

end Xine.Demux
