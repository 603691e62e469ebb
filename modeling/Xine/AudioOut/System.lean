import Mathlib.Data.BitVec
import Xine.Library.Chain
import Xine.Library.Places

/-!
# Audio fifos

The fifos of `audio_out.c`. Both fifos of an output port link the same buffers through their
`next` pointers, which are a map of their own here, apart from what else a buffer holds. A buffer is named by its
index in the order in which `ao_new_port` creates them.

The assertion in `fifo_append_int` only prints a message; what it asserts is a hypothesis of `fifoAppend_spec`.
-/

namespace Xine.AudioOut

open Chain

/-- The name of a buffer, in place of its address. -/
abbrev Buf := ℕ

/-- The `next` pointers of all buffers. -/
abbrev Links := Buf → Option Buf

structure AudioFifo where
  first : Option Buf
  last : Option Buf
  num_buffers : ℤ

def fifoNew : AudioFifo := ⟨none, none, 0⟩

/-- `fifo_append`: following a null `last` is a crash. -/
def fifoAppend (next : Links) (fifo : AudioFifo) (buf : Buf) : Option (Links × AudioFifo) :=
  match fifo.first with
  | none => some (next, ⟨some buf, some buf, 1⟩)
  | some _ =>
    fifo.last.map fun last =>
      (Function.update next last (some buf),
        { fifo with last := some buf, num_buffers := fifo.num_buffers + 1 })

/-- `fifo_remove`: waits for a buffer and removes the first one. -/
def fifoRemove (next : Links) (fifo : AudioFifo) : Option (Links × AudioFifo × Buf) :=
  fifo.first.map fun buf =>
    (Function.update next buf none,
      if next buf = none then ⟨none, none, 0⟩
      else { fifo with first := next buf, num_buffers := fifo.num_buffers - 1 },
      buf)

/-- The pointers and the counter of a fifo are those of the list `xs`. -/
structure FifoRep (next : Links) (fifo : AudioFifo) (xs : List Buf) : Prop where
  /-- `first` and `last` are the ends of the chain. -/
  queue : Queue next fifo.first fifo.last xs
  /-- The buffers are counted. -/
  num_buffers : fifo.num_buffers = xs.length

theorem fifoNew_spec (next : Links) : FifoRep next fifoNew [] := ⟨queue_nil, rfl⟩

theorem FifoRep.congr {next next' : Links} {fifo : AudioFifo} {xs : List Buf}
    (h : FifoRep next fifo xs) (hnext : ∀ a ∈ xs, next' a = next a) : FifoRep next' fifo xs :=
  ⟨h.queue.congr hnext, h.num_buffers⟩

theorem fifoAppend_spec {next : Links} {fifo : AudioFifo} {xs : List Buf} {buf : Buf}
    (h : FifoRep next fifo xs) (hbuf : buf ∉ xs) (hnull : next buf = none) :
    ∃ next' fifo', fifoAppend next fifo buf = some (next', fifo') ∧
      FifoRep next' fifo' (xs ++ [buf]) ∧ ∀ a ∉ xs, next' a = next a := by
  have hqueue := h.queue
  unfold fifoAppend
  cases hfirst : fifo.first with
  | none =>
    obtain rfl : xs = [] := hqueue.first_eq_none.1 hfirst
    exact ⟨_, _, rfl, ⟨queue_singleton_null hnull, rfl⟩, fun _ _ => rfl⟩
  | some a =>
    have hxs : xs ≠ [] := fun hxs => by simp [hqueue.first_eq_none.2 hxs] at hfirst
    cases hlast : fifo.last with
    | none => exact absurd (hqueue.last_eq_none.1 hlast) hxs
    | some l =>
      rw [hlast] at hqueue
      have hl : l ∈ xs := by
        obtain ⟨ys, rfl⟩ := hqueue.exists_concat
        simp
      refine ⟨_, _, rfl, ⟨?_, ?_⟩, fun b hb => ?_⟩
      · exact hfirst ▸ hqueue.push_back_null hbuf hnull
      · simp [h.num_buffers]
      · have hbl : b ≠ l := fun hbl => hb (hbl ▸ hl)
        exact Function.update_of_ne hbl _ _

theorem fifoRemove_spec {next next' : Links} {fifo fifo' : AudioFifo} {xs : List Buf} {buf : Buf}
    (h : FifoRep next fifo xs) (hrem : fifoRemove next fifo = some (next', fifo', buf)) :
    ∃ ys, xs = buf :: ys ∧ FifoRep next' fifo' ys ∧ next' = Function.update next buf none := by
  have hqueue := h.queue
  have hnum := h.num_buffers
  simp only [fifoRemove, Option.map_eq_some_iff, Prod.mk.injEq] at hrem
  obtain ⟨b, hfirst, rfl, rfl, rfl⟩ := hrem
  rw [hfirst] at hqueue
  obtain ⟨ys, rfl⟩ := hqueue.exists_cons
  have hpop := hqueue.pop_null
  refine ⟨ys, rfl, ?_, rfl⟩
  by_cases hn : next b = none
  · rw [if_pos hn]
    rw [hn, if_pos rfl] at hpop
    exact ⟨hpop, by rw [hpop.eq_nil]; rfl⟩
  · rw [if_neg hn]
    rw [if_neg hn] at hpop
    exact ⟨hpop, by simp [hnum]⟩

theorem fifoRemove_eq_none {next : Links} {fifo : AudioFifo} {xs : List Buf}
    (h : FifoRep next fifo xs) : fifoRemove next fifo = none ↔ xs = [] := by
  rw [← h.queue.first_eq_none]
  simp [fifoRemove]

end Xine.AudioOut

/-!
## Threads on an audio output port

The output port of `audio_out.c`. Any number of threads use the port, and any of them may flush
it, set its properties or exit.

An action is one critical section, or one access to a field that the code reads and writes without a lock, of one
thread. What a thread does between its critical sections is its program counter, `LoopPc` for the output thread
and `ClientPc` for the others. The mutexes that the code holds over several actions are not part of the state:
they only exclude some of the interleavings.

Time, the driver and the streams' metronoms are outside the port, and an action carries what the thread observes
of them. The conversions of `prepare_samples` change no buffer's place.

`queued`, `played` and `returned` are history: how often each buffer was put into the out fifo, was written to the
driver or given to the frontend, and came back from the out fifo without that.
-/

namespace Xine.AudioOut

open Places

variable {τ : Type*} [DecidableEq τ]

def numAudioBuffers : ℕ := 32

def aoMaxGap : ℤ := 15000

/-- `SYNC_TIME_INVERVAL`. -/
def syncTimeInterval : ℤ := 90000

def syncBufInterval : ℤ := numAudioBuffers / 2

structure AoFormat where
  bits : ℕ
  rate : ℕ
  mode : ℤ
  deriving DecidableEq

/-- `audio_buffer_t` without its link, and without the samples and the extra info. -/
structure AudioBuffer where
  num_frames : ℤ
  vpts : ℤ
  stream : Option ℕ
  format : AoFormat

/-- Where the output thread is in `ao_loop`. -/
inductive LoopPc where
  /-- At the condition of the loop. -/
  | top
  /-- Before `fifo_remove`. -/
  | fetch
  /-- At the test of `flush_audio_driver`. -/
  | flush
  /-- At the test of `discard_buffers`. -/
  | discard
  /-- At the test of `audio_paused` and `audio_loop_running`. -/
  | pause
  /-- Inside it, at the test for `audio_paused == 1`. -/
  | paused
  /-- Before the change of the driver's settings. -/
  | settings
  /-- Before the choice by the gap. -/
  | sync
  /-- Before the write to the driver, whose failure is only reported. -/
  | write
  /-- After it. -/
  | written
  /-- Out of the loop, or the port has no output thread. -/
  | ended
  deriving DecidableEq

/-- Where a thread is that uses the port. -/
inductive ClientPc where
  | idle
  /-- In `ao_put_buffer`, before the last `fifo_append`, which goes to the out fifo. -/
  | putOut (buf : Buf)
  /-- The same, but it goes to the free fifo. -/
  | putFree (buf : Buf)
  /-- In `ao_set_property`, at the test of the loop that empties the out fifo. -/
  | grabTest
  /-- In this loop, with a buffer. -/
  | grabPut (buf : Buf)
  /-- In `ao_flush`, at the test of its loop. -/
  | flushTest
  /-- In this loop, before `fifo_remove`. -/
  | flushTake
  /-- In this loop, with a buffer. -/
  | flushPut (buf : Buf)
  /-- In `ao_flush`, in `fifo_wait_empty`, which waits once and may wake up for no reason. -/
  | flushWait
  /-- In `xine_get_next_audio_frame`, with a buffer. -/
  | frame (buf : Buf)
  /-- In `ao_exit`, before `fifo_remove`. -/
  | exitTake
  /-- In `ao_exit`, with a buffer. -/
  | exitPut (buf : Buf)
  /-- In `ao_exit`, in `pthread_join`; after it the port is gone. -/
  | exitJoin

/-- The buffer that a thread is about to put somewhere. -/
def ClientPc.inFlight : ClientPc → Option Buf
  | .putOut buf | .putFree buf | .grabPut buf | .flushPut buf | .frame buf | .exitPut buf => some buf
  | _ => none

/-- `aos_t`, the locals of `ao_loop`, and the threads with the buffers in their hands. -/
structure State (τ : Type*) where
  next : Links
  free_fifo : AudioFifo
  out_fifo : AudioFifo
  buffers : Buf → AudioBuffer
  audio_loop_running : Bool
  grab_only : Bool
  audio_paused : ℤ
  flush_audio_driver : ℤ
  discard_buffers : ℤ
  driver_open : Bool
  input : AoFormat
  streams : List ℕ
  resample_sync_method : Bool
  gap_tolerance : ℤ
  in_buf : Option Buf
  last_sync_time : ℤ
  bufs_since_sync : ℤ
  loop : LoopPc
  holder : Buf → Option τ
  pc : τ → ClientPc
  queued : Buf → ℕ
  played : Buf → ℕ
  returned : Buf → ℕ

/-! ## The port's functions -/

namespace State

variable (s : State τ)

/-- `fifo_append (this->free_fifo, buf)`. -/
def appendFree (buf : Buf) : Option (State τ) :=
  (fifoAppend s.next s.free_fifo buf).map fun r => { s with next := r.1, free_fifo := r.2 }

/-- `fifo_append (this->out_fifo, buf)`. -/
def appendOut (buf : Buf) : Option (State τ) :=
  (fifoAppend s.next s.out_fifo buf).map fun r =>
    { s with next := r.1, out_fifo := r.2, queued := incr s.queued buf }

/-- `fifo_remove (this->free_fifo)`. -/
def removeFree : Option (State τ × Buf) :=
  (fifoRemove s.next s.free_fifo).map fun r => ({ s with next := r.1, free_fifo := r.2.1 }, r.2.2)

/-- `fifo_remove (this->out_fifo)`. -/
def removeOut : Option (State τ × Buf) :=
  (fifoRemove s.next s.out_fifo).map fun r => ({ s with next := r.1, out_fifo := r.2.1 }, r.2.2)

/-- The thread `t` goes on to `pc`. -/
def goto (t : τ) (pc : ClientPc) : State τ := { s with pc := Function.update s.pc t pc }

/-- The thread `t` has the buffer now. -/
def take (t : τ) (buf : Buf) : State τ :=
  { s with holder := Function.update s.holder buf (some t) }

/-- The buffer is in no thread's hands any more. -/
def drop (buf : Buf) : State τ := { s with holder := Function.update s.holder buf none }

/-- Change what a buffer holds. -/
def fill (buf : Buf) (b : AudioBuffer) : State τ :=
  { s with buffers := Function.update s.buffers buf b }

/-- `ao_change_settings`, and whether it succeeds: `opened` is the driver's answer. -/
def changeSettings (format : AoFormat) (opened : Bool) : State τ × Bool :=
  if s.grab_only then ({ s with driver_open := false, input := format }, format.rate != 0)
  else ({ s with driver_open := opened, input := format }, opened)

/-- The loop gives `in_buf` back and starts over: `fifo_append (this->free_fifo, in_buf)`,
`in_buf = NULL`. -/
def loopReturn : Option (State τ) :=
  s.in_buf.bind fun buf => (s.appendFree buf).map fun s' => { s' with in_buf := none, loop := .top }

/-- The loop gives `in_buf` back without having played it. -/
def loopDrop : Option (State τ) :=
  s.in_buf.bind fun buf => s.loopReturn.map fun s' => { s' with returned := incr s'.returned buf }

end State

/-- `abs (gap)`, whose argument is converted to `int`. -/
def cAbs (gap : ℤ) : ℤ := |(BitVec.ofInt 32 gap).toInt|

/-- The state after `ao_new_port`. -/
def aoNewPort (grab_only : Bool) (gap_tolerance : ℤ) : Option (State τ) :=
  (List.range numAudioBuffers).foldlM (fun s buf => s.appendFree buf)
    { next := fun _ => none, free_fifo := fifoNew, out_fifo := fifoNew, buffers := fun _ => ⟨0, 0, none, ⟨0, 0, 0⟩⟩,
      audio_loop_running := !grab_only, grab_only, audio_paused := 0, flush_audio_driver := 0,
      discard_buffers := 0, driver_open := false, input := ⟨0, 0, 0⟩, streams := [],
      resample_sync_method := false, gap_tolerance, in_buf := none, last_sync_time := 0,
      bufs_since_sync := 0, loop := if grab_only then .ended else .top, holder := fun _ => none,
      pc := fun _ => .idle, queued := fun _ => 0, played := fun _ => 0, returned := fun _ => 0 }

/-! ## The output thread -/

/-- What the output thread observes in one action. -/
inductive LoopAction where
  | top
  | fetch
  | flush
  | discard
  | pause
  | paused (cur_time : ℤ)
  | settings (opened : Bool)
  | sync (cur_time hw_vpts : ℤ)
  | write
  | written

/-- One action of the output thread. -/
def loopStep (s : State τ) : LoopAction → Option (State τ)
  | .top =>
    if s.loop = .top then
      if s.audio_loop_running ∨ s.out_fifo.first ≠ none then some { s with loop := .fetch }
      else
        match s.in_buf with
        | some _ => s.loopDrop.map fun s' => { s' with loop := .ended }
        | none => some { s with loop := .ended }
    else none
  | .fetch =>
    if s.loop = .fetch then
      match s.in_buf with
      | some _ => some { s with loop := .flush }
      | none =>
        s.removeOut.map fun r =>
          { r.1 with
            in_buf := some r.2, bufs_since_sync := s.bufs_since_sync + 1, loop := .flush }
    else none
  | .flush =>
    if s.loop = .flush then
      if s.flush_audio_driver ≠ 0 then
        some { s with flush_audio_driver := s.flush_audio_driver - 1, loop := .discard }
      else some { s with loop := .discard }
    else none
  | .discard =>
    if s.loop = .discard then
      if s.discard_buffers ≠ 0 then s.loopDrop else some { s with loop := .pause }
    else none
  | .pause =>
    if s.loop = .pause then
      if s.audio_paused ≠ 0 ∧ s.audio_loop_running then some { s with loop := .paused }
      else some { s with loop := .settings }
    else none
  | .paused cur_time =>
    if s.loop = .paused then
      s.in_buf.bind fun buf =>
        if s.audio_paused = 1 ∧ (s.buffers buf).vpts < cur_time then s.loopDrop
        else some { s with loop := .top }
    else none
  | .settings opened =>
    if s.loop = .settings then
      s.in_buf.bind fun buf =>
        if (s.buffers buf).num_frames ≠ 0 ∧
            (s.driver_open = false ∨ (s.buffers buf).format ≠ s.input) then
          some { (s.changeSettings (s.buffers buf).format opened).1 with loop := .sync }
        else some { s with loop := .sync }
    else none
  | .sync cur_time hw_vpts =>
    if s.loop = .sync then
      s.in_buf.bind fun buf =>
        let gap := (s.buffers buf).vpts - hw_vpts
        if gap < -aoMaxGap ∨ (s.buffers buf).num_frames = 0 then s.loopDrop
        else if cAbs gap < aoMaxGap ∧ cAbs gap > s.gap_tolerance ∧
            cur_time > s.last_sync_time + syncTimeInterval ∧
            s.bufs_since_sync ≥ syncBufInterval ∧ s.resample_sync_method = false then
          -- the gap goes to the metronoms of all streams
          if s.streams = [] then some { s with loop := .top }
          else some { s with last_sync_time := cur_time, bufs_since_sync := 0, loop := .top }
        else if gap > aoMaxGap then
          -- silence is output, and the buffer is looked at again
          some { s with loop := .top }
        else some { s with loop := .write }
    else none
  | .write =>
    if s.loop = .write then
      s.in_buf.map fun buf => { s with played := incr s.played buf, loop := .written }
    else none
  | .written => if s.loop = .written then s.loopReturn else none

/-! ## The other threads -/

/-- What a thread that uses the port asks for and observes in one action. -/
inductive ClientAction where
  /-- `ao_get_buffer` returns `buf`. -/
  | getBuffer (buf : Buf)
  /-- The thread fills a buffer in its hands. -/
  | fill (buf : Buf) (b : AudioBuffer)
  /-- `ao_put_buffer` up to its last `fifo_append`; `vpts` is the metronom's answer. -/
  | putBuffer (buf : Buf) (stream : ℕ) (format : AoFormat) (vpts : ℤ)
  /-- The last `fifo_append` of `ao_put_buffer`. -/
  | putAppend
  /-- `ao_set_property` for `AO_PROP_DISCARD_BUFFERS`. -/
  | setDiscard (value : Bool)
  /-- It looks for a buffer in the out fifo. -/
  | grabTake
  /-- It puts the buffer into the free fifo. -/
  | grabAppend
  /-- `ao_set_property` for `AO_PROP_PAUSED`. -/
  | setPaused (value : ℤ)
  /-- `ao_flush` starts. -/
  | flush
  | flushTest
  | flushTake (buf : Buf)
  | flushAppend
  | flushDone
  /-- `xine_get_next_audio_frame` up to the conversion. -/
  | nextFrame (buf : Buf)
  /-- Its end; `converted` says whether the samples were copied. -/
  | nextFrameDone (converted : Bool)
  /-- `xine_free_audio_frame`. -/
  | freeFrame (buf : Buf)
  /-- `ao_open`; `opened` is the driver's answer. -/
  | aoOpen (stream : ℕ) (format : AoFormat) (opened : Bool)
  /-- `ao_close`. -/
  | aoClose (stream : ℕ)
  /-- `ao_set_property` for `AO_PROP_CLOSE_DEVICE`. -/
  | closeDevice
  /-- `ao_update_av_sync_method`. -/
  | syncMethod (value : ℤ)
  /-- `ao_exit` starts. -/
  | exit
  | exitTake (buf : Buf)
  | exitAppend

/-- One action of the thread `t` in its free time. -/
def idleStep (s : State τ) (t : τ) : ClientAction → Option (State τ)
  | .getBuffer buf =>
    s.removeFree.bind fun r => if r.2 = buf then some (r.1.take t buf) else none
  | .fill buf b => if s.holder buf = some t then some (s.fill buf b) else none
  | .putBuffer buf stream format vpts =>
    if s.holder buf = some t then
      if (s.buffers buf).num_frames = 0 then (s.appendFree buf).map fun s' => s'.drop buf
      else
        let filled := s.fill buf { s.buffers buf with stream := some stream, format, vpts }
        some (filled.goto t (if s.discard_buffers = 0 then .putOut buf else .putFree buf))
    else none
  | .setDiscard value =>
    let discard_buffers := if value then s.discard_buffers + 1 else s.discard_buffers - 1
    some ({ s with discard_buffers }.goto t
      (if s.grab_only ∧ discard_buffers ≠ 0 then .grabTest else .idle))
  | .setPaused value => some { s with audio_paused := value }
  | .flush =>
    if s.audio_loop_running then
      some ({ s with
        discard_buffers := s.discard_buffers + 1
        flush_audio_driver := s.flush_audio_driver + 1 }.goto t .flushTest)
    else some s
  | .nextFrame buf =>
    s.removeOut.bind fun r =>
      if r.2 = buf then
        some ({ r.1 with played := incr s.played buf }.take t buf |>.goto t (.frame buf))
      else none
  | .freeFrame buf =>
    if s.holder buf = some t then (s.appendFree buf).map fun s' => s'.drop buf else none
  | .aoOpen stream format opened =>
    if s.driver_open = false ∨ format ≠ s.input then
      let r := s.changeSettings format opened
      some (if r.2 then { r.1 with streams := r.1.streams ++ [stream] } else r.1)
    else some { s with streams := s.streams ++ [stream] }
  | .aoClose stream =>
    let streams := s.streams.erase stream
    some { s with
      streams, driver_open := if streams = [] ∧ s.grab_only = false then false else s.driver_open }
  | .closeDevice => some { s with driver_open := false }
  | .syncMethod value => some { s with resample_sync_method := value = 1 }
  | .exit =>
    if s.audio_loop_running then
      some ({ s with audio_loop_running := false, audio_paused := 0 }.goto t .exitTake)
    else some s
  | _ => none

/-- One action of the thread `t` inside a function of the port. -/
def busyStep (s : State τ) (t : τ) : ClientPc → ClientAction → Option (State τ)
  | .putOut buf, .putAppend => (s.appendOut buf).map fun s' => (s'.drop buf).goto t .idle
  | .putFree buf, .putAppend => (s.appendFree buf).map fun s' => (s'.drop buf).goto t .idle
  | .grabTest, .grabTake =>
    match s.removeOut with
    | some (s', buf) =>
      some ({ s' with returned := incr s.returned buf }.take t buf |>.goto t (.grabPut buf))
    | none => some (s.goto t .idle)
  | .grabPut buf, .grabAppend => (s.appendFree buf).map fun s' => (s'.drop buf).goto t .grabTest
  | .flushTest, .flushTest =>
    if s.flush_audio_driver ≠ 0 ∧ s.audio_paused = 0 then some (s.goto t .flushTake)
    else some ({ s with discard_buffers := s.discard_buffers - 1 }.goto t .flushWait)
  | .flushTake, .flushTake buf =>
    s.removeFree.bind fun r =>
      if r.2 = buf then some ((r.1.take t buf).goto t (.flushPut buf)) else none
  | .flushPut buf, .flushAppend =>
    ((s.fill buf { s.buffers buf with num_frames := 0, stream := none }).appendOut buf).map
      fun s' => (s'.drop buf).goto t .flushTest
  | .flushWait, .flushDone => some (s.goto t .idle)
  | .frame buf, .nextFrameDone converted =>
    if converted then (s.appendFree buf).map fun s' => (s'.drop buf).goto t .idle
    else some (s.goto t .idle)
  | .exitTake, .exitTake buf =>
    s.removeFree.bind fun r =>
      if r.2 = buf then some ((r.1.take t buf).goto t (.exitPut buf)) else none
  | .exitPut buf, .exitAppend =>
    ((s.fill buf { s.buffers buf with num_frames := 0, stream := none }).appendOut buf).map
      fun s' => (s'.drop buf).goto t .exitJoin
  | _, _ => none

/-- An action of the output thread, or of another one. -/
inductive Action (τ : Type*) where
  | loop (act : LoopAction)
  | client (t : τ) (act : ClientAction)

def step (s : State τ) : Action τ → Option (State τ)
  | .loop act => loopStep s act
  | .client t act =>
    match s.pc t with
    | .idle => idleStep s t act
    | pc => busyStep s t pc act

end Xine.AudioOut
