import Xine.Library.Chain
import Xine.Library.Places

/-!
# Frame queues

The two queues of frames of `video_out.c`, which link the frames through their `next` pointers.
The pointers are a map of their own here, apart from what else a frame holds. A frame is named by its `id`, the
order in which `vo_new_port` allocates them.
-/

namespace Xine.VideoOut

open Chain

/-- The name of a frame, in place of its address. -/
abbrev Frame := ℕ

/-- The `next` pointers of all frames. -/
abbrev Links := Frame → Option Frame

structure ImgBufFifo where
  first : Option Frame
  last : Option Frame
  num_buffers : ℤ
  locked_for_read : Bool

def voNewImgBufQueue : ImgBufFifo := ⟨none, none, 0, false⟩

/-- `vo_append_to_img_buf_queue`: the assertion that the frame is in no queue is an abort. -/
def voAppendToImgBufQueue (next : Links) (queue : ImgBufFifo) (img : Frame) :
    Option (Links × ImgBufFifo) :=
  if next img ≠ none then none
  else
    match queue.first, queue.last with
    | none, _ => some (next, { queue with first := some img, last := some img, num_buffers := 0 + 1 })
    | some _, some last =>
      some (Function.update next last (some img),
        { queue with last := some img, num_buffers := queue.num_buffers + 1 })
    | some _, none => some (next, { queue with num_buffers := queue.num_buffers + 1 })

/-- Taking the first frame out of a queue, as `vo_remove_from_img_buf_queue` and `duplicate_frame`
do. -/
def unlinkFirst (next : Links) (queue : ImgBufFifo) (img : Frame) : Links × ImgBufFifo :=
  (Function.update next img none,
    if next img = none then { queue with first := none, last := none, num_buffers := 0 }
    else { queue with first := next img, num_buffers := queue.num_buffers - 1 })

/-- `vo_remove_from_img_buf_queue`: waits for a frame, and while the queue is locked for reading. -/
def voRemoveFromImgBufQueue (next : Links) (queue : ImgBufFifo) :
    Option (Links × ImgBufFifo × Frame) :=
  match queue.first with
  | none => none
  | some img =>
    if queue.locked_for_read then none
    else some ((unlinkFirst next queue img).1, (unlinkFirst next queue img).2, img)

/-- The pointers and the counter of a queue are those of the list `xs`. -/
structure QueueRep (next : Links) (queue : ImgBufFifo) (xs : List Frame) : Prop where
  /-- `first` and `last` are the ends of the chain. -/
  chain : Queue next queue.first queue.last xs
  /-- The frames are counted. -/
  num_buffers : queue.num_buffers = xs.length

theorem voNewImgBufQueue_spec (next : Links) : QueueRep next voNewImgBufQueue [] :=
  ⟨queue_nil, rfl⟩

theorem QueueRep.congr {next next' : Links} {queue : ImgBufFifo} {xs : List Frame}
    (h : QueueRep next queue xs) (hnext : ∀ a ∈ xs, next' a = next a) : QueueRep next' queue xs :=
  ⟨h.chain.congr hnext, h.num_buffers⟩

theorem QueueRep.lock {next : Links} {queue : ImgBufFifo} {xs : List Frame}
    (h : QueueRep next queue xs) (locked_for_read : Bool) :
    QueueRep next { queue with locked_for_read } xs :=
  ⟨h.chain, h.num_buffers⟩

theorem voAppend_spec {next : Links} {queue : ImgBufFifo} {xs : List Frame} {img : Frame}
    (h : QueueRep next queue xs) (himg : img ∉ xs) (hnull : next img = none) :
    ∃ next' queue', voAppendToImgBufQueue next queue img = some (next', queue') ∧
      QueueRep next' queue' (xs ++ [img]) ∧ ∀ a ∉ xs, next' a = next a := by
  have hqueue := h.chain
  unfold voAppendToImgBufQueue
  rw [if_neg (by simp [hnull])]
  cases hfirst : queue.first with
  | none =>
    obtain rfl : xs = [] := hqueue.first_eq_none.1 hfirst
    exact ⟨_, _, rfl, ⟨queue_singleton_null hnull, rfl⟩, fun _ _ => rfl⟩
  | some a =>
    have hxs : xs ≠ [] := fun hxs => by simp [hqueue.first_eq_none.2 hxs] at hfirst
    cases hlast : queue.last with
    | none => exact absurd (hqueue.last_eq_none.1 hlast) hxs
    | some l =>
      rw [hlast] at hqueue
      have hl : l ∈ xs := by
        obtain ⟨ys, rfl⟩ := hqueue.exists_concat
        simp
      refine ⟨_, _, rfl, ⟨?_, ?_⟩, fun b hb => ?_⟩
      · exact hfirst ▸ hqueue.push_back_null himg hnull
      · simp [h.num_buffers]
      · have hbl : b ≠ l := fun hbl => hb (hbl ▸ hl)
        exact Function.update_of_ne hbl _ _

theorem unlinkFirst_spec {next : Links} {queue : ImgBufFifo} {xs : List Frame} {img : Frame}
    (h : QueueRep next queue xs) (hfirst : queue.first = some img) :
    ∃ ys, xs = img :: ys ∧ QueueRep (unlinkFirst next queue img).1 (unlinkFirst next queue img).2 ys
      := by
  have hqueue := h.chain
  have hnum := h.num_buffers
  rw [hfirst] at hqueue
  obtain ⟨ys, rfl⟩ := hqueue.exists_cons
  have hpop := hqueue.pop_null
  refine ⟨ys, rfl, ?_⟩
  unfold unlinkFirst
  by_cases hn : next img = none
  · rw [if_pos hn]
    rw [hn, if_pos rfl] at hpop
    exact ⟨hpop, by rw [hpop.eq_nil]; rfl⟩
  · rw [if_neg hn]
    rw [if_neg hn] at hpop
    exact ⟨hpop, by simp [hnum]⟩

theorem voRemove_spec {next next' : Links} {queue queue' : ImgBufFifo} {xs : List Frame}
    {img : Frame} (h : QueueRep next queue xs)
    (hrem : voRemoveFromImgBufQueue next queue = some (next', queue', img)) :
    ∃ ys, xs = img :: ys ∧ QueueRep next' queue' ys ∧ next' = Function.update next img none := by
  unfold voRemoveFromImgBufQueue at hrem
  cases hfirst : queue.first with
  | none => simp [hfirst] at hrem
  | some a =>
    simp only [hfirst, Option.ite_none_left_eq_some, Option.some.injEq, Prod.mk.injEq] at hrem
    obtain ⟨-, rfl, rfl, rfl⟩ := hrem
    obtain ⟨ys, hys, hrep⟩ := unlinkFirst_spec h hfirst
    exact ⟨ys, hys, hrep, rfl⟩

end Xine.VideoOut

/-!
## Threads on a video output port

The output port of `video_out.c`.

An action is one critical section of one thread, or what the video loop does between two of them; `LoopPc` is
where the video loop is. Any number of other threads use the port, and their references are counted and not told
apart: `refs` are the decoders' references to each frame, `driver` the displayed frames that the driver has not
released, `grabbed` the frames that a frontend or a flush has taken from the display queue of a port without a
video loop. `fetched` are the frames between the two critical sections of `vo_get_frame`, and `drawing` those
between the two of `vo_frame_draw`.

The threads use the port as its header says: a decoder locks, draws and frees only frames that it has a reference
to, and does not draw a frame again that is still in the display queue; the driver releases each displayed frame
once. `queued` are the frames whose draw is under way or that are in the display queue.

Mutexes that the video loop holds over several actions are not part of the state: they only exclude some of the
interleavings. Time, the metronom, the streams and the overlays are outside the port, and an action carries what
the thread observes of them.
-/

namespace Xine.VideoOut

open Places

/-- `vo_frame_t`, without its link and the picture. -/
structure VoFrame where
  lock_counter : ℤ
  vpts : ℤ
  duration : ℤ
  is_first : Bool
  bad_frame : Bool

/-- Where `overlay_and_display_frame` returns to. -/
inductive Caller where
  | video_out_loop
  | paused_loop

/-- Where the video loop is. -/
inductive LoopPc where
  /-- There is no video loop, since a frontend grabs the frames. -/
  | off
  /-- At the condition of the loop. -/
  | top
  /-- In `expire_frames`, at the condition of its loop. -/
  | expire (vpts diff : ℤ)
  /-- In this loop, with a frame that it has taken from the display queue. -/
  | expired (vpts diff : ℤ) (img : Frame)
  /-- At the start of `get_next_frame`. -/
  | next (vpts : ℤ)
  /-- In `get_next_frame`, before the test for the last frame. -/
  | backup (img : Frame)
  /-- In `get_next_frame`, before the frame is removed. -/
  | remove
  /-- In `overlay_and_display_frame`, before the old `last_frame` is freed. -/
  | display (caller : Caller) (img : Frame)
  /-- Before the new one is locked. -/
  | hold (caller : Caller) (img : Frame)
  /-- Before `display_frame` of the driver. -/
  | show (caller : Caller) (img : Frame)
  /-- At `check_redraw_needed` when there is no frame. -/
  | redraw
  /-- Waiting for the time of the next frame. -/
  | sleep
  /-- In `paused_loop`, at the condition of its loop. -/
  | paused
  /-- Before the test for a free frame. -/
  | pausedFree
  /-- Before the test for a backup. -/
  | pausedBackup
  /-- Before the test for a redraw. -/
  | pausedRedraw
  /-- After the loop, throwing away undisplayed frames. -/
  | drain
  /-- The same, with a frame. -/
  | drained (img : Frame)
  /-- Before the backup is freed. -/
  | drainBackup
  /-- Before the last frame is freed. -/
  | drainLast
  | ended

/-- The frame that the video loop has in its hands. -/
def LoopPc.img : LoopPc → Option Frame
  | .expired _ _ img | .display _ img | .hold _ img | .show _ img | .drained img => some img
  | _ => none

/-- Whether `last_frame` is a reference: between `vo_frame_dec_lock` and the assignment it is not. -/
def LoopPc.lastCounts : LoopPc → Bool
  | .hold _ _ => false
  | _ => true

/-- `vos_t`, the place of the video loop, and the references of the other threads. -/
structure State where
  next : Links
  free_img_buf_queue : ImgBufFifo
  display_img_buf_queue : ImgBufFifo
  frames : Frame → VoFrame
  last_frame : Option Frame
  img_backup : Option Frame
  redraw_needed : ℤ
  discard_frames : ℤ
  video_loop_running : Bool
  grab_only : Bool
  loop : LoopPc
  fetched : Frame → Bool
  drawing : Frame → Bool
  queued : Frame → Bool
  refs : Frame → ℕ
  driver : Frame → ℕ
  grabbed : Frame → ℕ

namespace State

variable (s : State)

/-- Set the fields of a frame. -/
def setFrame (img : Frame) (frame : VoFrame) : State :=
  { s with frames := Function.update s.frames img frame }

/-- `vo_frame_inc_lock`. -/
def incLock (img : Frame) : State :=
  s.setFrame img { s.frames img with lock_counter := (s.frames img).lock_counter + 1 }

/-- `vo_frame_dec_lock`. -/
def decLock (img : Frame) : Option State :=
  let s' := s.setFrame img { s.frames img with lock_counter := (s.frames img).lock_counter - 1 }
  if (s.frames img).lock_counter - 1 = 0 then
    (voAppendToImgBufQueue s'.next s'.free_img_buf_queue img).map fun r =>
      { s' with next := r.1, free_img_buf_queue := r.2 }
  else some s'

/-- `vo_frame_dec_lock`, when there is a frame. -/
def decLockIf : Option Frame → Option State
  | some img => s.decLock img
  | none => some s

/-- Taking the first frame out of the display queue, with `vo_remove_from_img_buf_queue`. -/
def removeDisplay : Option (State × Frame) :=
  (voRemoveFromImgBufQueue s.next s.display_img_buf_queue).map fun r =>
    ({ s with
      next := r.1, display_img_buf_queue := r.2.1
      queued := Function.update s.queued r.2.2 false }, r.2.2)

/-- `duplicate_frame`: `none` when there is no free frame. It waits for nothing, and does not look at
`locked_for_read`. -/
def duplicateFrame (img : Frame) : Option (State × Frame) :=
  s.free_img_buf_queue.first.map fun dupl =>
    let r := unlinkFirst s.next s.free_img_buf_queue dupl
    ({ s with next := r.1, free_img_buf_queue := r.2 }.setFrame dupl
      { s.frames dupl with
        lock_counter := 1, bad_frame := false, vpts := 0, duration := (s.frames img).duration }, dupl)

end State

/-- The port of `vo_new_port` before it allocates the frames. -/
def emptyPort (grab_only : Bool) : State where
  next := fun _ => none
  free_img_buf_queue := voNewImgBufQueue
  display_img_buf_queue := voNewImgBufQueue
  frames := fun _ => ⟨0, 0, 0, false, false⟩
  last_frame := none
  img_backup := none
  redraw_needed := 0
  discard_frames := 0
  video_loop_running := !grab_only
  grab_only := grab_only
  loop := if grab_only then .off else .top
  fetched := fun _ => false
  drawing := fun _ => false
  queued := fun _ => false
  refs := fun _ => 0
  driver := fun _ => 0
  grabbed := fun _ => 0

/-- The state after `vo_new_port`, whose driver has allocated `n` frames, all zero. -/
def voNewPort (n : ℕ) (grab_only : Bool) : Option State :=
  (List.range n).foldlM
    (fun s img => (voAppendToImgBufQueue s.next s.free_img_buf_queue img).map fun r =>
      { s with next := r.1, free_img_buf_queue := r.2 })
    (emptyPort grab_only)

/-! ## The video loop -/

/-- What the video loop does in one action, and what it observes. -/
inductive LoopAction where
  | top (vpts : ℤ)
  | expire
  | expired
  | next
  /-- `still` is the test of the stream that may be a still frame. -/
  | backup (still : Bool)
  | remove
  | display
  | hold
  | show
  /-- `needed` is what the overlays and the driver answer. -/
  | redraw (needed : Bool)
  /-- `pause` is whether the clock stands, `again` whether there is still time to sleep. -/
  | sleep (pause again : Bool)
  | paused (pause : Bool)
  | pausedFree
  | pausedBackup
  | pausedRedraw (needed : Bool)
  | drain
  | drained
  | drainBackup
  | drainLast

/-- One round of the loop in `expire_frames`. -/
def expireStep (s : State) (vpts diff : ℤ) : Option State :=
  match s.display_img_buf_queue.first with
  | none => some { s with loop := .next vpts }
  | some img =>
    let frame := s.frames img
    if diff > frame.duration ∨ s.discard_frames ≠ 0 then
      if frame.is_first then
        -- the first frame is shown at once, when the decoder does not need it any more
        if frame.lock_counter = 1 then
          some { s.setFrame img { frame with vpts } with loop := .next vpts }
        else some { s with loop := .next vpts }
      else if vpts - frame.vpts > frame.duration ∨ s.discard_frames ≠ 0 then
        s.removeDisplay.map fun r => { r.1 with loop := .expired vpts (vpts - frame.vpts) r.2 }
      else some { s with loop := .expire vpts (vpts - frame.vpts) }
    else some { s with loop := .next vpts }

/-- What `expire_frames` does with an expired frame. -/
def expiredStep (s : State) (vpts diff : ℤ) (img : Frame) : Option State :=
  if s.discard_frames ≠ 0 then
    -- when flushing frames, the first one is kept as a backup
    match s.img_backup with
    | none => some { s with img_backup := some img, loop := .expire vpts diff }
    | some _ => (s.decLock img).map fun s' => { s' with loop := .expire vpts diff }
  else
    match s.display_img_buf_queue.first with
    | none =>
      (s.decLockIf s.img_backup).map fun s' =>
        { s' with img_backup := some img, redraw_needed := 4, loop := .expire vpts diff }
    | some _ => (s.decLock img).map fun s' => { s' with loop := .expire vpts diff }

/-- The start of `get_next_frame`. -/
def nextStep (s : State) (vpts : ℤ) : Option State :=
  match s.display_img_buf_queue.first with
  | none =>
    match s.img_backup with
    | some backup =>
      if s.redraw_needed = 1 then
        -- keep playing still frames
        match s.duplicateFrame backup with
        | some (s', dupl) =>
          some { s'.setFrame dupl { s'.frames dupl with vpts } with
            loop := .display .video_out_loop dupl }
        | none => some { s with loop := .redraw }
      else
        some { s with
          redraw_needed := if s.redraw_needed ≠ 0 then s.redraw_needed - 1 else 0, loop := .redraw }
    | none =>
      some { s with
        redraw_needed := if s.redraw_needed ≠ 0 then s.redraw_needed - 1 else 0, loop := .redraw }
  | some img =>
    if vpts - (s.frames img).vpts < 0 then some { s with loop := .redraw }
    else
      (s.decLockIf s.img_backup).map fun s' => { s' with img_backup := none, loop := .backup img }

/-- The test for a free frame in `paused_loop`: when there is none, the first frame of the display
queue becomes the only free one. -/
def pausedFreeStep (s : State) : Option State :=
  match s.display_img_buf_queue.first, s.free_img_buf_queue.first with
  | some _, none =>
    s.removeDisplay.map fun r =>
      { r.1 with
        next := Function.update r.1.next r.2 none
        free_img_buf_queue :=
          { r.1.free_img_buf_queue with first := some r.2, last := some r.2, num_buffers := 1 }
        loop := .pausedBackup }
  | _, _ => some { s with loop := .pausedBackup }

/-- The test for a redraw in `paused_loop`. -/
def pausedRedrawStep (s : State) (needed : Bool) : State :=
  let redraw_needed := if needed then 1 else s.redraw_needed
  let s' := { s with redraw_needed, loop := .paused }
  match s.img_backup with
  | some backup =>
    if redraw_needed ≠ 0 then
      match s'.duplicateFrame backup with
      | some (s'', dupl) => { s'' with loop := .display .paused_loop dupl }
      | none => s'
    else s'
  | none => s'

/-- One action of the video loop. -/
def loopStep (s : State) : LoopPc → LoopAction → Option State
  | .top, .top vpts =>
    some { s with loop := if s.video_loop_running then .expire vpts 1000000 else .drain }
  | .expire vpts diff, .expire => expireStep s vpts diff
  | .expired vpts diff img, .expired => expiredStep s vpts diff img
  | .next vpts, .next => nextStep s vpts
  | .backup img, .backup still =>
    if s.next img = none ∧ still then
      match s.duplicateFrame img with
      | some (s', dupl) => some { s' with img_backup := some dupl, loop := .remove }
      | none => some { s with img_backup := none, loop := .remove }
    else some { s with loop := .remove }
  | .remove, .remove =>
    s.removeDisplay.map fun r => { r.1 with loop := .display .video_out_loop r.2 }
  | .display caller img, .display =>
    (s.decLockIf s.last_frame).map fun s' => { s' with loop := .hold caller img }
  | .hold caller img, .hold =>
    some { s.incLock img with last_frame := some img, loop := .show caller img }
  | .show caller img, .show =>
    some { s with
      driver := incr s.driver img, redraw_needed := 0
      loop := match caller with
        | .video_out_loop => .sleep
        | .paused_loop => .paused }
  | .redraw, .redraw needed =>
    some { s with redraw_needed := if needed then 1 else s.redraw_needed, loop := .sleep }
  | .sleep, .sleep pause again =>
    if pause then
      -- prevent decoder threads from allocating new frames
      some { s with
        free_img_buf_queue := { s.free_img_buf_queue with locked_for_read := true }, loop := .paused }
    else some { s with loop := if again ∧ s.video_loop_running then .sleep else .top }
  | .paused, .paused pause =>
    if pause then some { s with loop := .pausedFree }
    else some { s with
      free_img_buf_queue := { s.free_img_buf_queue with locked_for_read := false }, loop := .sleep }
  | .pausedFree, .pausedFree => pausedFreeStep s
  | .pausedBackup, .pausedBackup =>
    match s.display_img_buf_queue.first, s.img_backup with
    | some _, none =>
      s.removeDisplay.map fun r =>
        { r.1 with img_backup := some r.2, redraw_needed := 1, loop := .pausedRedraw }
    | _, _ => some { s with loop := .pausedRedraw }
  | .pausedRedraw, .pausedRedraw needed => some (pausedRedrawStep s needed)
  | .drain, .drain =>
    match s.display_img_buf_queue.first with
    | some _ => s.removeDisplay.map fun r => { r.1 with loop := .drained r.2 }
    | none => some { s with loop := .drainBackup }
  | .drained img, .drained => (s.decLock img).map fun s' => { s' with loop := .drain }
  | .drainBackup, .drainBackup =>
    (s.decLockIf s.img_backup).map fun s' => { s' with img_backup := none, loop := .drainLast }
  | .drainLast, .drainLast =>
    (s.decLockIf s.last_frame).map fun s' => { s' with last_frame := none, loop := .ended }
  | _, _ => none

/-! ## The other threads -/

/-- One action of a decoder, the driver, a frontend, or who controls the port. -/
inductive Action where
  | loop (act : LoopAction)
  /-- `vo_get_frame` takes a frame from the free queue. -/
  | fetch (img : Frame)
  /-- It sets up the frame and returns it. -/
  | getFrame (img : Frame)
  /-- `vo_frame_inc_lock` by a decoder. -/
  | incLock (img : Frame)
  /-- `vo_frame_dec_lock` by a decoder. -/
  | decLock (img : Frame)
  /-- The decoder decides whether the frame is bad. -/
  | decode (img : Frame) (bad_frame : Bool)
  /-- `vo_frame_draw` up to `vo_frame_inc_lock`, with the metronom's answer and whether a stream waits
  for its first frame. -/
  | draw (img : Frame) (vpts duration : ℤ) (is_first : Bool)
  /-- `vo_frame_draw` appends the frame to the display queue. -/
  | drawAppend (img : Frame)
  /-- The driver releases a displayed frame. -/
  | driverFree (img : Frame)
  /-- `vo_set_property` for `VO_PROP_DISCARD_FRAMES`, and the two ends of `vo_flush`. -/
  | setDiscard (value : Bool)
  /-- Without a video loop, `vo_set_property` or `xine_get_next_video_frame` takes a frame. -/
  | grab (img : Frame)
  /-- `vo_set_property` or `xine_free_video_frame` frees it. -/
  | grabFree (img : Frame)
  /-- `vo_open`. -/
  | voOpen
  /-- `vo_exit` stops the video loop. -/
  | exit

/-- `vo_frame_draw` up to `vo_frame_inc_lock`. -/
def drawStep (s : State) (img : Frame) (vpts duration : ℤ) (is_first : Bool) : State :=
  let duration := if s.grab_only = false ∧ duration ≤ 0 then 3000 else duration
  let s' := s.setFrame img { s.frames img with vpts, duration }
  if s.grab_only ∧ s.discard_frames ≠ 0 then s'
  else if (s.frames img).bad_frame then s'
  else
    { (s'.setFrame img { s'.frames img with is_first }).incLock img with
      drawing := Function.update s.drawing img true, queued := Function.update s.queued img true }

/-- One action of one thread. -/
def step (s : State) : Action → Option State
  | .loop act => loopStep s s.loop act
  | .fetch img =>
    match voRemoveFromImgBufQueue s.next s.free_img_buf_queue with
    | some (next, free_img_buf_queue, img') =>
      if img' = img then
        some { s with next, free_img_buf_queue, fetched := Function.update s.fetched img true }
      else none
    | none => none
  | .getFrame img =>
    if s.fetched img then
      some { s.setFrame img { s.frames img with lock_counter := 1, bad_frame := false } with
        fetched := Function.update s.fetched img false, refs := incr s.refs img }
    else none
  | .incLock img =>
    if 0 < s.refs img then some { s.incLock img with refs := incr s.refs img } else none
  | .decLock img =>
    if 0 < s.refs img then (s.decLock img).map fun s' => { s' with refs := decr s.refs img }
    else none
  | .decode img bad_frame =>
    if 0 < s.refs img then some (s.setFrame img { s.frames img with bad_frame }) else none
  | .draw img vpts duration is_first =>
    if 0 < s.refs img ∧ s.queued img = false then some (drawStep s img vpts duration is_first)
    else none
  | .drawAppend img =>
    if s.drawing img then
      (voAppendToImgBufQueue s.next s.display_img_buf_queue img).map fun r =>
        { s with
          next := r.1, display_img_buf_queue := r.2, drawing := Function.update s.drawing img false }
    else none
  | .driverFree img =>
    if 0 < s.driver img then (s.decLock img).map fun s' => { s' with driver := decr s.driver img }
    else none
  | .setDiscard value =>
    some { s with discard_frames := if value then s.discard_frames + 1 else s.discard_frames - 1 }
  | .grab img =>
    if s.grab_only then
      match s.removeDisplay with
      | some (s', img') => if img' = img then some { s' with grabbed := incr s.grabbed img } else none
      | none => none
    else none
  | .grabFree img =>
    if 0 < s.grabbed img then (s.decLock img).map fun s' => { s' with grabbed := decr s.grabbed img }
    else none
  | .voOpen => some { s with discard_frames := 0 }
  | .exit => some { s with video_loop_running := false }

/-- The branch of `paused_loop` that makes a frame of the display queue a free one. -/
def Steals (s : State) (act : Action) : Prop :=
  act = .loop .pausedFree ∧ s.display_img_buf_queue.first ≠ none ∧ s.free_img_buf_queue.first = none

end Xine.VideoOut
