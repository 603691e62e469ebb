import Xine.Library.Runs
import Xine.Qt.Seek

/-!
# Sending the frames of a QuickTime file

`demux_qt_send_chunk` and `demux_qt_seek` of `demux_qt.c`, with the durations that are attached to the
frames of the video trak. What is read from the input and put into the fifos is left out. Where the time of a frame
is that of the next one, its duration is 1, and the time that is borrowed so is kept in `edit_list_compensation`.
-/

namespace Xine.Qt

/-- A trak that is played: its frames, the media id of the properties in use, and the current frame. -/
structure PlayTrak where
  table : FrameTable
  media_id : Word
  current_frame : ℕ

/-- A frame of the video trak with the duration that it is sent with. -/
structure Sent where
  frame : ℕ
  frame_duration : ℤ
  deriving DecidableEq

/-- What the demuxer keeps, and what it has sent. -/
structure DemuxQt where
  chosen_reference : Option ℕ
  video_trak : Option PlayTrak
  audio_trak : Option PlayTrak
  seekable : Bool
  seek_flag : Bool
  edit_list_compensation : ℤ
  finished : Bool
  sent : List Sent

/-- A conversion to an `int`. -/
def toInt (i : ℤ) : ℤ := Int.bmod i (2 ^ 32)

def maxPtsDiff : ℤ := 100000

namespace PlayTrak

/-- The frames are used up. -/
def ended (trak : PlayTrak) : Prop := trak.table.frame_count ≤ trak.current_frame

instance (trak : PlayTrak) : Decidable trak.ended := inferInstanceAs (Decidable (_ ≤ _))

def currentFrame (trak : PlayTrak) : Option QtFrame := trak.table.frames[trak.current_frame]?

/-- The difference of the times of a frame and the next one, and a fixed duration for the last one. -/
def frameDuration (trak : PlayTrak) (i : ℕ) : Option ℤ :=
  if i + 1 < trak.table.frame_count then do
    let next ← trak.table.frames[i + 1]?
    let frame ← trak.table.frames[i]?
    some (toInt (toInt next.pts - frame.pts))
  else some 12000

/-- The search for the key frame at or before a frame. -/
def keyframeBefore (trak : PlayTrak) : ℕ → Option ℕ
  | 0 => some 0
  | i + 1 => do
    let frame ← trak.table.frames[i + 1]?
    if frame.keyframe then some (i + 1) else keyframeBefore trak i

/-- The search for the first frame before a time. -/
def frameBefore (trak : PlayTrak) (keyframe_pts : ℤ) : ℕ → Option ℕ
  | 0 => some 0
  | i + 1 => do
    let frame ← trak.table.frames[i + 1]?
    if frame.pts < keyframe_pts then some (i + 1) else frameBefore trak keyframe_pts i

end PlayTrak

namespace DemuxQt

/-- The trak from which a frame is sent: the audio trak or the video trak, or none if they are used up. -/
def dispatchAudio : Option PlayTrak → Option PlayTrak → Option (Option Bool)
  | none, none => some none
  | some video_trak, none => some (if video_trak.ended then none else some false)
  | none, some audio_trak => some (if audio_trak.ended then none else some true)
  | some video_trak, some audio_trak =>
    if audio_trak.ended ∧ video_trak.ended then some none
    else if video_trak.ended then some (some true)
    else if audio_trak.ended then some (some false)
    else do
      let audio ← audio_trak.currentFrame
      let video ← video_trak.currentFrame
      let pts_diff := Int.bmod (audio.pts - video.pts) (2 ^ 64)
      if pts_diff > maxPtsDiff then some (some false)
      else if pts_diff < -maxPtsDiff then some (some true)
      else some (some (decide (audio.offset < video.offset)))

/-- The duration that is attached to a frame, and the compensation that is left. -/
def compensate (frame_duration edit_list_compensation : ℤ) : ℤ × ℤ :=
  if frame_duration = 0 then (1, toInt (edit_list_compensation + 1))
  else (toInt (frame_duration - edit_list_compensation), 0)

/-- A frame of the video trak. -/
def sendVideo (this : DemuxQt) (video_trak : PlayTrak) : Option DemuxQt := do
  let i := video_trak.current_frame
  let frame ← video_trak.table.frames[i]?
  let this := { this with video_trak := some { video_trak with current_frame := i + 1 } }
  if frame.media_id ≠ video_trak.media_id then some { this with finished := false }
  else do
    let frame_duration ← video_trak.frameDuration i
    let (frame_duration, edit_list_compensation) := compensate frame_duration this.edit_list_compensation
    some { this with
      edit_list_compensation := edit_list_compensation
      sent := this.sent ++ [⟨i, frame_duration⟩] }

/-- The part of `demux_qt_send_chunk` behind the choice of the trak. -/
def dispatch (this : DemuxQt) : Option DemuxQt := do
  match ← dispatchAudio this.video_trak this.audio_trak with
  | none => some { this with finished := true }
  | some false => do
    let video_trak ← this.video_trak
    this.sendVideo video_trak
  | some true => do
    let audio_trak ← this.audio_trak
    some { this with
      audio_trak := some { audio_trak with current_frame := audio_trak.current_frame + 1 } }

/-- `demux_qt_send_chunk`. After a seek the time of the current frame is sent first. -/
def sendChunk (this : DemuxQt) : Option DemuxQt :=
  if this.chosen_reference.isSome then some { this with finished := true }
  else
    match this.audio_trak.or this.video_trak with
    | none => some { this with finished := true }
    | some trak =>
      if this.seek_flag then do
        let _ ← trak.currentFrame
        dispatch { this with seek_flag := false }
      else this.dispatch

/-- The seek in one trak: the trak at its new frame, or none if there is nothing behind the target. -/
def seekTrak (trak : PlayTrak) (start_pos start_time : ℤ) (rounds : ℕ) : Option (Option PlayTrak) := do
  match ← trak.table.binarySeek start_pos start_time rounds with
  | .finished => some none
  | .ok current_frame => some (some { trak with current_frame := current_frame.toNat })

/-- The key frame, and the audio frame before it. -/
def seekBack (this : DemuxQt) : Option DemuxQt := do
  match this.video_trak with
  | none => some this
  | some video_trak => do
    let key ← video_trak.keyframeBefore video_trak.current_frame
    let this := { this with video_trak := some { video_trak with current_frame := key } }
    match this.audio_trak with
    | none => some this
    | some audio_trak => do
      let frame ← video_trak.table.frames[key]?
      let before ← audio_trak.frameBefore frame.pts audio_trak.current_frame
      some { this with audio_trak := some { audio_trak with current_frame := before } }

/-- The seek in the audio trak, and what is behind it. -/
def seekAudio (this : DemuxQt) (start_pos start_time : ℤ) (rounds : ℕ) : Option DemuxQt := do
  match this.audio_trak with
  | none => do
    let this ← this.seekBack
    some { this with seek_flag := true, finished := false }
  | some audio_trak => do
    match ← seekTrak audio_trak start_pos start_time rounds with
    | none => some { this with finished := true }
    | some audio_trak => do
      let this ← seekBack { this with audio_trak := some audio_trak }
      some { this with seek_flag := true, finished := false }

/-- `demux_qt_seek`, in a number of rounds of its searches. -/
def seek (this : DemuxQt) (start_pos start_time : ℤ) (rounds : ℕ) : Option DemuxQt := do
  if this.seekable = false then some { this with seek_flag := true, finished := false }
  else
    match this.video_trak with
    | none => this.seekAudio start_pos start_time rounds
    | some video_trak => do
      match ← seekTrak video_trak start_pos start_time rounds with
      | none => some { this with finished := true }
      | some video_trak => seekAudio { this with video_trak := some video_trak } start_pos start_time rounds

end DemuxQt

/-- The calls of a demuxer. -/
inductive QtCall where
  | sendChunk
  | seek (start_pos start_time : ℤ) (rounds : ℕ)

/-- A call. -/
def DemuxQt.step (this : DemuxQt) : QtCall → Option DemuxQt
  | .sendChunk => this.sendChunk
  | .seek start_pos start_time rounds => this.seek start_pos start_time rounds

end Xine.Qt
