import Mathlib.Algebra.Group.Int.Defs
import Mathlib.Algebra.Group.Nat.Defs
import Mathlib.Tactic.Common

/-!
# Traks of a QuickTime file

The tables of a trak, as `parse_trak_atom` of `demux_qt.c` leaves them, and the frame table that
`build_frame_table` makes of them.
-/

namespace Xine.Qt

/-- An `unsigned int`. -/
abbrev Word := BitVec 32

structure QtFrame where
  offset : ℤ
  size : Word
  pts : ℤ
  keyframe : Bool
  media_id : Word

/-- The frames of a trak. The loops over them that fill the table in count with an `int`. -/
structure FrameTable where
  frames : List QtFrame
  length_le : frames.length ≤ 2 ^ 31

namespace FrameTable

variable {t : FrameTable} {i : ℕ}

def frame_count (t : FrameTable) : ℕ := t.frames.length

/-- The frame of an index, if there is one. -/
def frame (t : FrameTable) (i : ℤ) : Option QtFrame := if 0 ≤ i then t.frames[i.toNat]? else none

/-- A field of the frames as a function of the index. -/
def key (t : FrameTable) (field : QtFrame → ℤ) (i : ℕ) : ℤ := (t.frames[i]?.map field).getD 0

theorem exists_frame (h : i < t.frame_count) (field : QtFrame → ℤ) :
    ∃ frame, t.frame i = some frame ∧ field frame = t.key field i := by
  have hget : t.frames[i]? = some t.frames[i] := List.getElem?_eq_getElem h
  refine ⟨t.frames[i], ?_, ?_⟩
  · unfold FrameTable.frame
    rw [if_pos (Int.natCast_nonneg i), Int.toNat_natCast, hget]
  · unfold key
    rw [hget]
    rfl

end FrameTable

/-! ## Sample tables -/

/-- A table of an atom. It is loaded in a loop that counts with an `int`. -/
structure Table (α : Type) where
  entries : List α
  length_le : entries.length ≤ 2 ^ 31

/-- `time_to_sample_table_t`. -/
structure TimeToSample where
  count : Word
  duration : Word

/-- `sample_to_chunk_table_t`. -/
structure SampleToChunk where
  first_chunk : Word
  samples_per_chunk : Word
  media_id : Word

/-- `edit_list_table_t`. -/
structure EditList where
  track_duration : Word
  media_time : Word

inductive MediaType where
  | audio | video | other
  deriving DecidableEq

/-- What is read of the audio properties of a trak when its frames are made. -/
structure AudioProperties where
  channels : Word
  samples_per_frame : Word
  bytes_per_frame : Word
  vbr : Word

/-- What is read of `qt_trak` when its frames are made. A table is none if its atom is not there. -/
structure QtTrak where
  type : MediaType
  stsd_atoms_count : ℕ
  /-- The first entry of the sample description atom, none if there is none. -/
  properties : Option AudioProperties
  timescale : Word
  edit_list_table : Option (Table EditList)
  chunk_offset_table : Option (Table (BitVec 64))
  sample_size : Word
  sample_size_count : Word
  /-- With a `sample_size` that is not zero, the pointer -1 stands for a table with no entries. -/
  sample_size_table : Option (Table Word)
  sync_sample_table : Option (Table Word)
  sample_to_chunk_table : Option (Table SampleToChunk)
  time_to_sample_table : Option (Table TimeToSample)
  /-- The count is an `int`, and memory for a negative one is not to be had. -/
  stsd_atoms_count_lt : stsd_atoms_count < 2 ^ 31
  /-- The sizes are loaded if there is not one size for all samples. -/
  sample_size_table_length : sample_size = 0 →
    sample_size_count.toNat = (sample_size_table.elim [] Table.entries).length

namespace QtTrak

/-- The entries of the stsc table. -/
def sampleToChunk (trak : QtTrak) : List SampleToChunk :=
  trak.sample_to_chunk_table.elim [] Table.entries

/-- The entries of the stco or co64 table. -/
def chunkOffsets (trak : QtTrak) : List (BitVec 64) := trak.chunk_offset_table.elim [] Table.entries

def chunk_offset_count (trak : QtTrak) : ℕ := trak.chunkOffsets.length

/-- The entries of the stsz table. -/
def sampleSizes (trak : QtTrak) : List Word := trak.sample_size_table.elim [] Table.entries

variable {trak : QtTrak}

theorem chunk_offset_count_le (trak : QtTrak) : trak.chunk_offset_count ≤ 2 ^ 31 := by
  unfold chunk_offset_count chunkOffsets
  cases trak.chunk_offset_table with
  | none => exact Nat.zero_le _
  | some table => exact table.length_le

theorem length_sampleSizes (h : trak.sample_size = 0) :
    trak.sampleSizes.length = trak.sample_size_count.toNat := (trak.sample_size_table_length h).symm

end QtTrak

end Xine.Qt

/-!
## The frame table of a trak

`build_frame_table` of `demux_qt.c`. The frames of a video trak and of a trak with audio of a
variable rate are the samples: the sample-to-chunk table, the time-to-sample table, the sizes and the chunk
offsets are stepped through together, and the times are then fixed up with the edit list. The frames of other
audio are the chunks. A division by zero and an access outside of an array fail.
-/

namespace Xine.Qt

/-- What there is in the memory that is used: the content of an array of frames, unless there is no memory
for it, whether there is memory for the counts of the media ids, and what has no value yet. -/
structure Memory where
  frames : Option (ℕ → QtFrame)
  media_id_counts : Bool
  /-- The duration of the entry that ends the time-to-sample table. -/
  last_duration : Word
  edit_list_media_time : Word
  edit_list_duration : ℤ

/-- Memory for all frames, and a value for all that has none. -/
def someMemory : Memory where
  frames := some fun _ => ⟨0, 0, 0, false, 0⟩
  media_id_counts := true
  last_duration := 0
  edit_list_media_time := 0
  edit_list_duration := 0

def maxDuration : ℤ := 2 ^ 63 - 1

/-- The index of an `int` that has come to a number of iterations, if it is not negative. -/
def frameAt (frames : List QtFrame) (i : ℕ) : Option QtFrame := if i < 2 ^ 31 then frames[i]? else none

namespace QtTrak

/-- An entry of the stts table, behind which there is one with a count of zero. -/
def timeToSample (trak : QtTrak) (memory : Memory) (i : ℕ) : Option TimeToSample := do
  let table ← trak.time_to_sample_table
  (table.entries ++ [⟨0, memory.last_duration⟩])[i]?

/-- The size of a sample. -/
def sampleSize (trak : QtTrak) (frame_counter : ℕ) : Option Word :=
  if trak.sample_size ≠ 0 then some trak.sample_size else trak.sampleSizes[frame_counter]?

/-- The media id of a sample, and the counts of the media ids with it. -/
def mediaId (trak : QtTrak) (media_id : Word) (media_id_counts : List ℤ) : Option (Word × List ℤ) :=
  if media_id.toNat > trak.stsd_atoms_count then some (0, media_id_counts)
  else do
    let count ← media_id_counts[(media_id - 1).toNat]?
    some (media_id, media_id_counts.set (media_id - 1).toNat (Int.bmod (count + 1) (2 ^ 32)))

/-! ## Samples -/

/-- The variables of the loops over samples. -/
structure Samples where
  frames : List QtFrame
  frame_counter : ℕ
  current_offset : BitVec 64
  current_pts : BitVec 64
  pts_index : ℕ
  pts_index_countdown : Word
  media_id_counts : List ℤ

/-- The countdown of the stts entry, which is refreshed if there is nothing left of it. -/
def refresh (trak : QtTrak) (memory : Memory) (pts_index : ℕ) (pts_index_countdown : Word) :
    Option (ℕ × Word) :=
  if pts_index_countdown = 0 then do
    let next ← trak.timeToSample memory (pts_index + 1)
    some (pts_index + 1, next.count)
  else some (pts_index, pts_index_countdown)

/-- A sample of a chunk. -/
def sampleStep (trak : QtTrak) (memory : Memory) (s : Samples) (e : SampleToChunk) : Option Samples := do
  let (media_id, media_id_counts) ← trak.mediaId e.media_id s.media_id_counts
  let size ← trak.sampleSize s.frame_counter
  let time ← trak.timeToSample memory s.pts_index
  let (pts_index, pts_index_countdown) ←
    trak.refresh memory s.pts_index (s.pts_index_countdown - 1)
  if s.frame_counter < s.frames.length then
    some {
      frames := s.frames.set s.frame_counter {
        offset := s.current_offset.toInt
        size
        pts := s.current_pts.toInt
        keyframe := trak.sync_sample_table.isNone
        media_id }
      frame_counter := s.frame_counter + 1
      current_offset := s.current_offset + size.setWidth 64
      current_pts := s.current_pts + time.duration.setWidth 64
      pts_index
      pts_index_countdown
      media_id_counts }
  else none

/-- The samples of a chunk. -/
def chunkStep (trak : QtTrak) (memory : Memory) (e : SampleToChunk) (s : Samples) (j : ℕ) :
    Option Samples := do
  let offset ← trak.chunkOffsets[j]?
  (List.replicate e.samples_per_chunk.toNat e).foldlM (trak.sampleStep memory)
    { s with current_offset := offset }

/-- The indexes of the chunks of an entry of the stsc table. -/
def chunkRange (e : SampleToChunk) (chunk_end : Word) : List ℕ :=
  List.range' (e.first_chunk - 1).toNat ((chunk_end - 1).toNat - (e.first_chunk - 1).toNat)

/-- The entries of the stsc table, each with the first chunk of the next one. -/
def entryRuns (chunk_offset_count : ℕ) : List SampleToChunk → List (SampleToChunk × Word)
  | [] => []
  | [e] => [(e, BitVec.ofNat 32 (chunk_offset_count + 1))]
  | e :: next :: rest => (e, next.first_chunk) :: entryRuns chunk_offset_count (next :: rest)

/-- The entries of the stsc table of a trak. -/
def runs (trak : QtTrak) : List (SampleToChunk × Word) :=
  entryRuns trak.chunk_offset_count trak.sampleToChunk

/-- The chunks of an entry of the stsc table. -/
def entryStep (trak : QtTrak) (memory : Memory) (s : Samples) (run : SampleToChunk × Word) :
    Option Samples :=
  (chunkRange run.1 run.2).foldlM (trak.chunkStep memory run.1) s

/-- A key frame of the stss table. -/
def syncStep (frames : List QtFrame) (sync : Word) : Option (List QtFrame) := do
  let frame ← frames[(sync - 1).toNat]?
  some (frames.set (sync - 1).toNat { frame with keyframe := true })

/-! ## Times -/

/-- What `get_next_edit_list_entry` keeps. -/
structure EditState where
  index : ℕ
  media_time : Word
  duration : ℤ

/-- The search for the next entry of the edit list with a media time. -/
def findEdit (trak : QtTrak) (global_timescale : Word) : List EditList → EditState → Option EditState
  | [], s => some s
  | e :: rest, s =>
    if e.media_time ≠ -1 then
      if global_timescale = 0 then none
      else some {
        index := s.index + 1
        media_time := e.media_time
        duration := (Int.bmod (e.track_duration.toNat * trak.timescale.toNat) (2 ^ 64)).tdiv
          global_timescale.toNat }
    else findEdit trak global_timescale rest { s with index := s.index + 1 }

/-- `get_next_edit_list_entry`. -/
def nextEdit (trak : QtTrak) (global_timescale : Word) (s : EditState) : Option EditState :=
  match trak.edit_list_table with
  | none => some { s with media_time := 0, duration := maxDuration }
  | some table => do
    let s ← trak.findEdit global_timescale (table.entries.drop s.index) s
    -- the last entry has no end
    some (if s.index = table.entries.length then { s with duration := maxDuration } else s)

/-- The variables of the loop that fixes up the times. -/
structure FixUp where
  frames : List QtFrame
  frame_duration : ℤ
  edit_list_pts_counter : Word
  edit : EditState

/-- The duration of a frame, which for the last one is that of the frame before it. -/
def frameDuration (s : FixUp) (frame : QtFrame) (i : ℕ) : Option ℤ :=
  if i < s.frames.length - 1 then do
    let next ← frameAt s.frames (i + 1)
    some (Int.bmod (next.pts - frame.pts) (2 ^ 64))
  else some s.frame_duration

/-- The time of a frame. In front of the media time of the edit list it does not go on. -/
def fixUpFrame (s : FixUp) (i : ℕ) : Option FixUp := do
  let frame ← frameAt s.frames i
  let frames := s.frames.set i { frame with pts := s.edit_list_pts_counter.toNat }
  if frame.pts < s.edit.media_time.toNat then some { s with frames }
  else do
    let frame_duration ← frameDuration s frame i
    some {
      frames
      frame_duration
      edit_list_pts_counter := BitVec.ofInt 32 (s.edit_list_pts_counter.toNat + frame_duration)
      edit := { s.edit with duration := Int.bmod (s.edit.duration - frame_duration) (2 ^ 64) } }

/-- An iteration of the loop that fixes up the times. -/
def fixUpStep (trak : QtTrak) (global_timescale : Word) (s : FixUp) (i : ℕ) : Option FixUp := do
  let s ← fixUpFrame s i
  if s.edit.duration ≤ 0 then do
    let edit ← trak.nextEdit global_timescale s.edit
    some { s with edit }
  else some s

/-- An iteration of the loop that scales the times. -/
def scaleStep (trak : QtTrak) (frames : List QtFrame) (i : ℕ) : Option (List QtFrame) := do
  let frame ← frameAt frames i
  if trak.timescale = 0 then none
  else
    some (frames.set i
      { frame with pts := (Int.bmod (frame.pts * 90000) (2 ^ 64)).tdiv trak.timescale.toNat })

/-! ## Frames -/

/-- `qt_error`, as far as `build_frame_table` returns it. -/
inductive QtError where
  | ok | noMemory

/-- What `build_frame_table` leaves: what it returns, the frames, and the entry of the sample description
atom that it has chosen, if it has. -/
structure Built where
  error : QtError
  frames : List QtFrame
  properties : Option ℕ

/-- The entry of the sample description atom with the media id that more samples have than the one before
it. -/
def atomToUse (media_id_counts : List ℤ) : List ℕ → ℕ → ℕ
  | [], atom_to_use => atom_to_use
  | i :: rest, atom_to_use =>
    atomToUse media_id_counts rest
      (if media_id_counts.getD i 0 > media_id_counts.getD (i - 1) 0 then i else atom_to_use)

/-- The samples of all chunks. -/
def expandSamples (trak : QtTrak) (memory : Memory) (frames : List QtFrame) (first : TimeToSample) :
    Option Samples :=
  trak.runs.foldlM (trak.entryStep memory) {
    frames
    frame_counter := 0
    current_offset := 0
    current_pts := 0
    pts_index := 0
    pts_index_countdown := first.count
    media_id_counts := List.replicate trak.stsd_atoms_count 0 }

/-- The times of all frames. -/
def fixUpTimes (trak : QtTrak) (memory : Memory) (global_timescale : Word) (frames : List QtFrame) :
    Option (List QtFrame) := do
  let edit ← trak.nextEdit global_timescale ⟨0, memory.edit_list_media_time, memory.edit_list_duration⟩
  let s ← (List.range frames.length).foldlM (trak.fixUpStep global_timescale) ⟨frames, 0, 0, edit⟩
  (List.range frames.length).foldlM trak.scaleStep s.frames

/-- The samples as frames, in memory that has been allocated. The sample description that is taken is one of
those that there are. -/
def fillSamples (trak : QtTrak) (memory : Memory) (global_timescale : Word) (frames : List QtFrame)
    (first : TimeToSample) : Option Built := do
  let s ← trak.expandSamples memory frames first
  let frames ← (trak.sync_sample_table.elim [] Table.entries).foldlM syncStep s.frames
  let frames ← trak.fixUpTimes memory global_timescale frames
  let atom_to_use := atomToUse s.media_id_counts (List.range' 1 (trak.stsd_atoms_count - 1)) 0
  if atom_to_use < trak.stsd_atoms_count then some ⟨.ok, frames, atom_to_use⟩ else none

/-- The branch of `build_frame_table` for frames that are samples. -/
def buildSamples (trak : QtTrak) (memory : Memory) (global_timescale : Word) : Option Built :=
  match memory.frames with
  | none => some ⟨.noMemory, [], none⟩
  | some content => do
    let frames := (List.range trak.sample_size_count.toNat).map content
    let first ← trak.timeToSample memory 0
    if memory.media_id_counts = false then some ⟨.noMemory, frames, none⟩
    else trak.fillSamples memory global_timescale frames first

/-- A chunk as a frame. -/
def rawStep (trak : QtTrak) (properties : AudioProperties) (e : SampleToChunk)
    (s : List QtFrame × Word) (j : ℕ) : Option (List QtFrame × Word) := do
  let frame ← s.1[j]?
  if trak.timescale = 0 ∨ properties.samples_per_frame = 0 then none
  else
    some (s.1.set j { frame with
      pts := (s.2.toNat * 90000 : ℤ).tdiv trak.timescale.toNat
      size := e.samples_per_chunk * properties.channels / properties.samples_per_frame *
        properties.bytes_per_frame
      media_id := if e.media_id.toNat > trak.stsd_atoms_count then 0 else e.media_id },
      s.2 + e.samples_per_chunk)

/-- The chunks of an entry of the stsc table as frames. -/
def rawEntryStep (trak : QtTrak) (properties : AudioProperties) (s : List QtFrame × Word)
    (run : SampleToChunk × Word) : Option (List QtFrame × Word) :=
  (chunkRange run.1 run.2).foldlM (trak.rawStep properties run.1) s

/-- The rest of the information for a chunk. -/
def rawFill (trak : QtTrak) (frames : List QtFrame) (i : ℕ) : Option (List QtFrame) := do
  let frame ← frameAt frames i
  let offset ← trak.chunkOffsets[i]?
  some (frames.set i { frame with offset := offset.toInt, keyframe := false })

/-- The branch of `build_frame_table` for frames that are chunks. -/
def buildChunks (trak : QtTrak) (memory : Memory) (properties : AudioProperties) : Option Built :=
  match memory.frames with
  | none => some ⟨.noMemory, [], none⟩
  | some content => do
    let (frames, _) ← trak.runs.foldlM (trak.rawEntryStep properties)
      ((List.range trak.chunk_offset_count).map content, 0)
    let frames ← (List.range frames.length).foldlM trak.rawFill frames
    some ⟨.ok, frames, none⟩

def buildFrameTable (trak : QtTrak) (memory : Memory) (global_timescale : Word) : Option Built :=
  match trak.type with
  | .other => some ⟨.ok, [], none⟩
  | .video => trak.buildSamples memory global_timescale
  | .audio => do
    let properties ← trak.properties
    if properties.vbr ≠ 0 then trak.buildSamples memory global_timescale
    else trak.buildChunks memory properties

end QtTrak

end Xine.Qt
