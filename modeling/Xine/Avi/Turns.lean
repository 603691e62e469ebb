import Xine.Avi.ReadPiece

/-!
# What playback should deliver

The fifos should come to hold the chunks of each stream in pieces, and each piece with the flags, the time and the
number of the chunk that its bytes are of. What the fifos hold is compared with the positions of the streams.
-/

namespace Xine.Avi

open Fuel Pieces AviPlay

/-- A buffer with some bytes of a chunk. -/
def Stamped (src : List Byte) (chunks : List (ℤ × ℤ)) (decoder_flags : ℕ) (pts : ℕ → ℕ → ℤ) (k b size : ℕ)
    (buf : BufElement) : Prop :=
  ∃ chunk, chunks[k]? = some chunk ∧ buf.content = slice src (chunk.1 + b) size ∧
    buf.content.length = size ∧ buf.decoder_flags = endFlags (chunk.2 - (b + size)) ||| decoder_flags ∧
      buf.pts = pts k b

/-- The time of a place in an audio stream. -/
def AviPlay.placePts (D : Doubles) (this : AviPlay) (track k : ℕ) (b : ℤ) : ℤ :=
  match (this.demux.aindex track)[k]? with
  | some aie => this.entryPts D track aie b
  | none => 0

/-- A buffer of the video stream, for a demuxer with the indexes of the file. -/
def VideoRight (D : Doubles) (decoder_flags : ℕ) (start : AviPlay) (k b size : ℕ) (buf : VideoElement) : Prop :=
  Stamped start.demux.input.src start.demux.video decoder_flags (fun k _ => start.getVideoPts D k) k b size
    buf.toBufElement ∧ buf.frame_number = k

/-- A buffer of an audio stream. -/
def AudioRight (D : Doubles) (decoder_flags : ℕ) (start : AviPlay) (track k b size : ℕ) (buf : AudioElement) :
    Prop :=
  Stamped start.demux.input.src (start.demux.trackChunks track) decoder_flags
    (fun k b => start.placePts D track k b) k b size buf.toBufElement

namespace Feed

variable {D : Doubles} {decoder_flags : ℕ} {start this : AviPlay} {feed feed' final : Feed} {track i j : ℕ}

/-- The buffers of an audio stream. -/
def trackBufs (feed : Feed) (track : ℕ) : List AudioElement :=
  (feed.audio_fifo.getD []).filter fun buf => buf.track = track

/-- The fifos hold all chunks: those of the video stream, and those of the audio streams unless there is no
audio. -/
def Completed (D : Doubles) (decoder_flags : ℕ) (start : AviPlay) (feed : Feed) : Prop :=
  Complete (sizes start.demux.video) (VideoRight D decoder_flags start) feed.video_fifo ∧
    (start.no_audio = false → ∀ track < start.demux.audio.length,
      Complete (sizes (start.demux.trackChunks track)) (AudioRight D decoder_flags start track)
        (feed.trackBufs track))

/-- What is in the fifos stays there. -/
structure Extends (feed feed' : Feed) : Prop where
  video_fifo : feed.video_fifo <+: feed'.video_fifo
  audio_fifo : feed.audio_fifo.getD [] <+: feed'.audio_fifo.getD []

theorem Extends.refl (feed : Feed) : feed.Extends feed := ⟨List.prefix_rfl, List.prefix_rfl⟩

theorem Extends.trans (h : feed.Extends feed') (h' : feed'.Extends final) : feed.Extends final :=
  ⟨h.video_fifo.trans h'.video_fifo, h.audio_fifo.trans h'.audio_fifo⟩

theorem Extends.trackBufs (h : feed.Extends feed') (track : ℕ) :
    feed.trackBufs track <+: feed'.trackBufs track := h.audio_fifo.filter _

/-- Whatever comes behind, the fifos do not come to hold all chunks. -/
def Lost (D : Doubles) (decoder_flags : ℕ) (start : AviPlay) (feed : Feed) : Prop :=
  ∀ final, feed.Extends final → ¬final.Completed D decoder_flags start

theorem Lost.extends (h : feed.Lost D decoder_flags start) (hextends : feed.Extends feed') :
    feed'.Lost D decoder_flags start := fun final hfinal => h final (hextends.trans hfinal)

end Feed

theorem stamped_sized {src : List Byte} {chunks : List (ℤ × ℤ)} {decoder_flags k b size : ℕ} {pts : ℕ → ℕ → ℤ}
    {buf : BufElement} (h : Stamped src chunks decoder_flags pts k b size buf) : buf.content.length = size := by
  obtain ⟨chunk, -, -, hsize, -⟩ := h
  exact hsize

theorem stamped_slice {src : List Byte} {chunks : List (ℤ × ℤ)} {decoder_flags k b size : ℕ} {pts : ℕ → ℕ → ℤ}
    {chunk : ℤ × ℤ} (hchunk : chunks[k]? = some chunk) (hin : InFile src chunk)
    (hle : (b : ℤ) + size ≤ chunk.2) :
    Stamped src chunks decoder_flags pts k b size
      ⟨slice src (chunk.1 + b) size, endFlags (chunk.2 - (b + size)) ||| decoder_flags, pts k b⟩ := by
  obtain ⟨hpos, hlen, hfile⟩ := hin
  have hlength : ((slice src (chunk.1 + b) size).length : ℤ) = size :=
    length_slice (by omega) (by omega) (by omega)
  exact ⟨chunk, hchunk, rfl, Int.ofNat_inj.1 hlength, rfl, rfl⟩

namespace AviPlay

/-- No stream has bytes left. -/
def AllDone (this : AviPlay) : Prop :=
  Done (sizes this.demux.video) this.video_posf this.video_posb.toNat ∧
    (this.no_audio = false → ∀ track < this.demux.audio.length,
      Done (sizes (this.demux.trackChunks track)) (this.audio_posc track) (this.audio_posb track).toNat)

variable {start this : AviPlay}

theorem Same.video (h : Same start this) : this.demux.video = start.demux.video := by
  unfold DemuxAvi.video
  rw [h.vindex]

theorem Same.trackChunks (h : Same start this) (track : ℕ) :
    this.demux.trackChunks track = start.demux.trackChunks track := by
  unfold DemuxAvi.trackChunks
  rw [h.aindex]

theorem Same.getVideoPts (h : Same start this) (D : Doubles) (k : ℕ) :
    this.getVideoPts D k = start.getVideoPts D k := by
  unfold AviPlay.getVideoPts
  rw [h.rate]

theorem Same.entryPts (h : Same start this) (D : Doubles) (track : ℕ) (aie : AudioIndexEntry) (b : ℤ) :
    this.entryPts D track aie b = start.entryPts D track aie b := by
  unfold AviPlay.entryPts getAudioPts DemuxAvi.align
  rw [h.audio_rate, h.audio]

theorem Same.placePts (h : Same start this) (D : Doubles) (track k : ℕ) (b : ℤ) :
    this.placePts D track k b = start.placePts D track k b := by
  unfold AviPlay.placePts
  simp only [h.aindex, h.entryPts]

theorem Same.allDone (h : Same start this) :
    this.AllDone ↔ Done (sizes start.demux.video) this.video_posf this.video_posb.toNat ∧
      (start.no_audio = false → ∀ track < start.demux.audio.length,
        Done (sizes (start.demux.trackChunks track)) (this.audio_posc track) (this.audio_posb track).toNat) := by
  unfold AllDone
  simp only [h.video, h.trackChunks, h.no_audio, h.audio]

/-! ## When a turn does no harm -/

/-- An audio stream is read in its turn. -/
def Due (D : Doubles) (video_pts : ℤ) (this : AviPlay) (track : ℕ) : Prop :=
  this.no_audio = false ∧
    this.placePts D track (this.audio_posc track) (this.audio_posb track) < video_pts

/-- The video stream can be read in its turn: its next bytes fill the buffer, and they are of a chunk with the time
that has been computed, unless no stream has bytes left. -/
structure FrameFits (D : Doubles) (video_pts : ℤ) (this : AviPlay) : Prop where
  piece : ∀ i j, Leads (sizes this.demux.video) this.video_posf this.video_posb.toNat i j →
    j + 2048 ≤ Pieces.length (sizes this.demux.video) i ∧ video_pts = this.getVideoPts D i
  last : Done (sizes this.demux.video) this.video_posf this.video_posb.toNat → this.AllDone

/-- The turn of an audio stream does no harm. If the stream is to be read, its next bytes fill the buffer, or there
is a chunk behind them, and the time of the place that it is at is theirs. No stream has bytes left if there is
nothing to read. -/
structure TurnFits (D : Doubles) (video_pts : ℤ) (this : AviPlay) (track : ℕ) : Prop where
  current : (this.demux.trackChunks track).length ≤ this.audio_posc track → this.AllDone
  piece : this.Due D video_pts track → ∀ i j, Leads (sizes (this.demux.trackChunks track))
    (this.audio_posc track) (this.audio_posb track).toNat i j →
      (j + 2048 ≤ Pieces.length (sizes (this.demux.trackChunks track)) i ∨
        i + 1 < (this.demux.trackChunks track).length) ∧
      this.placePts D track (this.audio_posc track) (this.audio_posb track) = this.placePts D track i j
  last : this.Due D video_pts track → Done (sizes (this.demux.trackChunks track)) (this.audio_posc track)
    (this.audio_posb track).toNat → this.AllDone

variable {D : Doubles} {video_pts : ℤ} {track : ℕ}

theorem frameFits_of_allDone (h : this.AllDone) : this.FrameFits D video_pts where
  piece _ _ hleads := absurd h.1 hleads.not_done
  last _ := h

theorem turnFits_of_allDone (htrack : track < this.demux.audio.length) (h : this.AllDone) :
    this.TurnFits D video_pts track where
  current _ := h
  piece hdue _ _ hleads := absurd (h.2 hdue.1 track htrack) hleads.not_done
  last _ _ := h

end AviPlay

/-! ## What the fifos hold -/

/-- The fifos hold what is in front of the positions of the streams. -/
structure Good (D : Doubles) (decoder_flags : ℕ) (start : AviPlay) (feed : Feed) : Prop where
  same : Same start feed.this
  heard : start.no_audio = false → feed.audio_fifo.isSome
  tracks : ∀ buf ∈ feed.audio_fifo.getD [], buf.track < start.demux.audio.length
  video_posb : 0 ≤ feed.this.video_posb
  audio_posb : ∀ track, 0 ≤ feed.this.audio_posb track
  video : Delivered (sizes start.demux.video) (VideoRight D decoder_flags start) feed.video_fifo
    feed.this.video_posf feed.this.video_posb.toNat
  audio : ∀ track, Delivered (sizes (start.demux.trackChunks track)) (AudioRight D decoder_flags start track)
    (feed.trackBufs track) (feed.this.audio_posc track) (feed.this.audio_posb track).toNat

namespace Good

variable {D : Doubles} {decoder_flags : ℕ} {start : AviPlay} {feed feed' : Feed} {track i j k : ℕ} {x b : ℤ}

theorem video_sized (k b size : ℕ) (buf : VideoElement) (h : VideoRight D decoder_flags start k b size buf) :
    buf.content.length = size := stamped_sized h.1

theorem audio_sized (k b size : ℕ) (buf : AudioElement)
    (h : AudioRight D decoder_flags start track k b size buf) : buf.content.length = size := stamped_sized h

theorem completed_iff (h : Good D decoder_flags start feed) :
    feed.Completed D decoder_flags start ↔ feed.this.AllDone := by
  rw [h.same.allDone]
  constructor
  · rintro ⟨hvideo, haudio⟩
    refine ⟨?_, fun hheard track htrack => ?_⟩
    · obtain ⟨i, j, hleads⟩ | hdone := h.video.place.leads_or_done
      · exact absurd hvideo (h.video.not_complete video_sized hleads)
      · exact hdone
    · obtain ⟨i, j, hleads⟩ | hdone := (h.audio track).place.leads_or_done
      · exact absurd (haudio hheard track htrack) ((h.audio track).not_complete audio_sized hleads)
      · exact hdone
  · rintro ⟨hvideo, haudio⟩
    exact ⟨h.video.done hvideo, fun hheard track htrack => (h.audio track).done (haudio hheard track htrack)⟩

theorem lost_video (h : Good D decoder_flags start feed) {buf : VideoElement}
    (hleads : Leads (sizes start.demux.video) feed.this.video_posf feed.this.video_posb.toNat i j)
    (hwrong : ∀ size, ¬VideoRight D decoder_flags start i j size buf)
    (hfifo : feed'.video_fifo = feed.video_fifo ++ [buf]) : feed'.Lost D decoder_flags start := by
  rintro final hextends ⟨hvideo, -⟩
  obtain ⟨rest, hrest⟩ := hextends.video_fifo
  rw [hfifo, List.append_assoc, List.singleton_append] at hrest
  obtain ⟨size, hright⟩ := h.video.right_of_append video_sized hleads (hrest ▸ hvideo)
  exact hwrong size hright

theorem lost_audio (h : Good D decoder_flags start feed) (hheard : start.no_audio = false)
    (htrack : track < start.demux.audio.length) {buf : AudioElement}
    (hleads : Leads (sizes (start.demux.trackChunks track)) (feed.this.audio_posc track)
      (feed.this.audio_posb track).toNat i j)
    (hwrong : ∀ size, ¬AudioRight D decoder_flags start track i j size buf)
    (hfifo : feed'.trackBufs track = feed.trackBufs track ++ [buf]) : feed'.Lost D decoder_flags start := by
  rintro final hextends ⟨-, haudio⟩
  obtain ⟨rest, hrest⟩ := hextends.trackBufs track
  rw [hfifo, List.append_assoc, List.singleton_append] at hrest
  obtain ⟨size, hright⟩ :=
    (h.audio track).right_of_append audio_sized hleads (hrest ▸ haudio hheard track htrack)
  exact hwrong size hright

end Good

end Xine.Avi

/-!
## The turns of a call

What a turn of `demux_avi_next` comes to when the fifos hold what is in front of the positions.
-/

namespace Xine.Avi

open Fuel Pieces AviPlay Feed

variable {D : Doubles} {decoder_flags : ℕ} {start this : AviPlay} {feed : Feed} {c : AviCall} {video_pts : ℤ}
  {track i j k : ℕ} {x b : ℤ}

/-- The chunks in the indexes are in the file. -/
structure Stored (start : AviPlay) : Prop where
  video : ∀ chunk ∈ start.demux.video, InFile start.demux.input.src chunk
  audio : ∀ track, ∀ chunk ∈ start.demux.trackChunks track, InFile start.demux.input.src chunk

/-! ## Buffers that are right -/

theorem Good.put_video (h : Good D decoder_flags start feed) {buf : VideoElement} (hx : 0 ≤ x) (hb : 0 ≤ b)
    (hdelivered : Delivered (sizes start.demux.video) (VideoRight D decoder_flags start)
      (feed.video_fifo ++ [buf]) k b.toNat) :
    Good D decoder_flags start
      { feed with this := videoOps.put (feed.this.withPos x) k b, video_fifo := feed.video_fifo ++ [buf] } where
  same := ⟨h.same.vindex, h.same.audio, h.same.src, h.same.rate, h.same.audio_rate, h.same.no_audio,
    (h.same.withPos hx).atEnd⟩
  heard := h.heard
  tracks := h.tracks
  video_posb := hb
  audio_posb := h.audio_posb
  video := hdelivered
  audio := h.audio

theorem trackBufs_put (hheard : feed.audio_fifo.isSome) (buf : AudioElement) (track : ℕ) :
    trackBufs { feed with this := this, audio_fifo := feed.audio_fifo.map (· ++ [buf]) } track =
      feed.trackBufs track ++ if buf.track = track then [buf] else [] := by
  obtain ⟨fifo, hfifo⟩ := Option.isSome_iff_exists.1 hheard
  unfold trackBufs
  rw [hfifo, Option.map_some, Option.getD_some, Option.getD_some, List.filter_append, List.filter_singleton]
  exact congrArg _ (Bool.cond_decide ..)

theorem Good.put_audio (h : Good D decoder_flags start feed) (hheard : start.no_audio = false)
    (htrack : track < start.demux.audio.length) {buf : AudioElement} (hbuf : buf.track = track) (hx : 0 ≤ x)
    (hb : 0 ≤ b)
    (hdelivered : Delivered (sizes (start.demux.trackChunks track)) (AudioRight D decoder_flags start track)
      (feed.trackBufs track ++ [buf]) k b.toNat) :
    Good D decoder_flags start
      { feed with
        this := (audioOps track).put (feed.this.withPos x) k b
        audio_fifo := feed.audio_fifo.map (· ++ [buf]) } where
  same := ⟨h.same.vindex, h.same.audio, h.same.src, h.same.rate, h.same.audio_rate, h.same.no_audio,
    (h.same.withPos hx).atEnd⟩
  heard hheard := by
    rw [Option.isSome_map]
    exact h.heard hheard
  tracks other hother := by
    obtain ⟨fifo, hfifo⟩ := Option.isSome_iff_exists.1 (h.heard hheard)
    rw [hfifo] at hother
    obtain hold | hnew := List.mem_append.1 hother
    · exact h.tracks other (by rwa [hfifo])
    · rwa [List.mem_singleton.1 hnew, hbuf]
  video_posb := h.video_posb
  audio_posb other := by
    unfold audioOps
    dsimp only
    by_cases hsame : other = track
    · rw [hsame, Function.update_self]
      exact hb
    · rw [Function.update_of_ne hsame]
      exact h.audio_posb other
  video := h.video
  audio other := by
    rw [trackBufs_put (h.heard hheard), hbuf]
    unfold audioOps
    dsimp only
    by_cases hsame : other = track
    · rw [hsame, if_pos rfl, Function.update_self, Function.update_self]
      exact hdelivered
    · rw [if_neg (Ne.symm hsame), List.append_nil, Function.update_of_ne hsame, Function.update_of_ne hsame]
      exact h.audio other

/-! ## The turn of an audio stream -/

section Evaluation

variable {aie : AudioIndexEntry}

theorem audioTurn_ended (hsame : Same start c.feed.this) (hreturned : c.returned = false)
    (hentry : (start.demux.aindex track)[c.feed.this.audio_posc track]? = none) :
    Settles (fun fuel => audioTurn D decoder_flags video_pts fuel c track)
      (some { c with returned := true }) := by
  have hcurrent := audioCurIndexEntry_settles hsame track
  rw [hentry] at hcurrent
  unfold audioTurn
  simp only [hreturned]
  exact hcurrent.bind_some (Settles.const _)

theorem audioTurn_waits (hsame : Same start c.feed.this) (hreturned : c.returned = false)
    (hentry : (start.demux.aindex track)[c.feed.this.audio_posc track]? = some aie)
    (hdue : ¬c.feed.this.Due D video_pts track) :
    Settles (fun fuel => audioTurn D decoder_flags video_pts fuel c track)
      (some { c with do_read_video := true }) := by
  have hcurrent := audioCurIndexEntry_settles hsame track
  rw [hentry] at hcurrent
  unfold Due placePts at hdue
  rw [hsame.aindex, hentry] at hdue
  unfold audioTurn
  simp only [hreturned]
  refine hcurrent.bind_some ?_
  dsimp only
  simp only [if_neg hdue]
  exact Settles.const _

/-- The call with the buffer that is put into the fifo for audio. -/
def putAudio (c : AviCall) (this : AviPlay) (buf : AudioElement) : AviCall :=
  { c with
    feed := { c.feed with this := this, audio_fifo := c.feed.audio_fifo.map (· ++ [buf]) }
    size := some buf.content.length }

theorem audioTurn_reads (hsame : Same start c.feed.this) (hreturned : c.returned = false)
    (hentry : (start.demux.aindex track)[c.feed.this.audio_posc track]? = some aie)
    (hdue : c.feed.this.Due D video_pts track) {read : Option (List Byte × ℕ)}
    (hread : Settles (fun fuel => c.feed.this.aviReadAudio track 2048 fuel) (some (this, read))) :
    Settles (fun fuel => audioTurn D decoder_flags video_pts fuel c track)
      (some <| match read with
        | none => { c with feed := { c.feed with this := this }, returned := true }
        | some (mem, buf_flags) =>
          putAudio c this ⟨⟨mem, buf_flags ||| decoder_flags, c.feed.this.placePts D track
            (c.feed.this.audio_posc track) (c.feed.this.audio_posb track)⟩, track⟩) := by
  have hcurrent := audioCurIndexEntry_settles hsame track
  rw [hentry] at hcurrent
  have hpts : c.feed.this.placePts D track (c.feed.this.audio_posc track) (c.feed.this.audio_posb track) =
      c.feed.this.entryPts D track aie (c.feed.this.audio_posb track) := by
    unfold placePts
    rw [hsame.aindex, hentry]
  unfold Due at hdue
  rw [hpts] at hdue ⊢
  unfold audioTurn putAudio
  simp only [hreturned]
  refine hcurrent.bind_some ?_
  dsimp only
  simp only [if_pos hdue]
  refine hread.bind_some ?_
  cases read with
  | none => exact Settles.const _
  | some read => exact Settles.const _

end Evaluation

/-- The number of the buffers in the fifos. -/
def Feed.amount (feed : Feed) : ℕ := feed.video_fifo.length + (feed.audio_fifo.getD []).length

theorem Feed.Extends.amount_le {feed' : Feed} (h : feed.Extends feed') : feed.amount ≤ feed'.amount :=
  Nat.add_le_add h.video_fifo.length_le h.audio_fifo.length_le

/-- A call on its way after the turns of some audio streams that have done no harm. -/
structure Taken (D : Doubles) (decoder_flags : ℕ) (start : AviPlay) (feed : Feed) (n : ℕ) (c : AviCall) :
    Prop where
  grown : feed.Extends c.feed
  good : c.returned = false → Good D decoder_flags start c.feed
  completed : c.returned = true → c.feed.Completed D decoder_flags start
  size : ∀ size, c.size = some size → 0 < size ∧ feed.amount < c.feed.amount
  next : c.do_read_video = true ∨ c.size.isSome ∨ c.returned = true ∨ n = 0 ∧ start.demux.audio.length ≠ 0

/-- A call on its way after a turn that has done harm. -/
def Spoilt (D : Doubles) (decoder_flags : ℕ) (start : AviPlay) (c : AviCall) : Prop :=
  c.feed.Lost D decoder_flags start ∨ c.returned = true ∧ ¬c.feed.Completed D decoder_flags start

theorem extends_putAudio (c : AviCall) (this : AviPlay) (buf : AudioElement) :
    c.feed.Extends (putAudio c this buf).feed := by
  refine ⟨List.prefix_rfl, ?_⟩
  unfold putAudio
  cases c.feed.audio_fifo with
  | none => exact List.prefix_rfl
  | some fifo => exact List.prefix_append fifo [buf]

theorem amount_putAudio (hheard : c.feed.audio_fifo.isSome) (this : AviPlay) (buf : AudioElement) :
    (putAudio c this buf).feed.amount = c.feed.amount + 1 := by
  obtain ⟨fifo, hfifo⟩ := Option.isSome_iff_exists.1 hheard
  unfold putAudio Feed.amount
  dsimp only
  rw [hfifo, Option.map_some, Option.getD_some, Option.getD_some, List.length_append, List.length_singleton,
    Nat.add_assoc]

theorem turnFits_iff {n : ℕ} (hdue : this.Due D video_pts n)
    (hcurrent : ¬(this.demux.trackChunks n).length ≤ this.audio_posc n)
    (hleads : Leads (sizes (this.demux.trackChunks n)) (this.audio_posc n) (this.audio_posb n).toNat i j) :
    this.TurnFits D video_pts n ↔
      (j + 2048 ≤ Pieces.length (sizes (this.demux.trackChunks n)) i ∨
        i + 1 < (this.demux.trackChunks n).length) ∧
      this.placePts D n (this.audio_posc n) (this.audio_posb n) = this.placePts D n i j := by
  constructor
  · exact fun hfits => hfits.piece hdue i j hleads
  · intro hpiece
    refine ⟨fun hpast => absurd hpast hcurrent, fun _ i' j' hleads' => ?_,
      fun _ hdone => absurd hdone hleads.not_done⟩
    obtain ⟨rfl, rfl⟩ := hleads.unique hleads'
    exact hpiece

theorem audioTurn_piece {n : ℕ} (hstored : Stored start) (h : Taken D decoder_flags start feed n c)
    (hreturned : c.returned = false) (hn : n < start.demux.audio.length) (hheard : start.no_audio = false)
    (hleads : Leads (sizes (start.demux.trackChunks n)) (c.feed.this.audio_posc n)
      (c.feed.this.audio_posb n).toNat i j) {chunk : ℤ × ℤ}
    (hchunk : (start.demux.trackChunks n)[i]? = some chunk) (hlt : j < chunk.2.toNat) (pts : ℤ) (hx : 0 ≤ x) :
    let c' := putAudio c ((audioOps n).put (c.feed.this.withPos x) (nextPlace 2048 i j chunk).1
      (nextPlace 2048 i j chunk).2) ⟨⟨slice start.demux.input.src (chunk.1 + j) (pieceSize 2048 j chunk),
        endFlags (chunk.2 - (j + pieceSize 2048 j chunk)) ||| decoder_flags, pts⟩, n⟩
    (pts = start.placePts D n i j → Taken D decoder_flags start feed (n + 1) c') ∧
      (pts ≠ start.placePts D n i j → Spoilt D decoder_flags start c') := by
  have hgood := h.good hreturned
  have hcap : (0 : ℤ) < 2048 := by decide
  have hpos := pieceSize_pos hcap hlt
  have hsize : ((pieceSize 2048 j chunk).toNat : ℤ) = pieceSize 2048 j chunk := Int.toNat_of_nonneg hpos.le
  intro c'
  constructor
  · intro hpts
    have hright : AudioRight D decoder_flags start n i j (pieceSize 2048 j chunk).toNat
        ⟨⟨slice start.demux.input.src (chunk.1 + j) (pieceSize 2048 j chunk),
          endFlags (chunk.2 - (j + pieceSize 2048 j chunk)) ||| decoder_flags, pts⟩, n⟩ := by
      have hslice := @stamped_slice start.demux.input.src (start.demux.trackChunks n) decoder_flags i j
        (pieceSize 2048 j chunk).toNat (fun k b => start.placePts D n k b) chunk hchunk
        (hstored.audio n chunk (List.mem_of_getElem? hchunk)) (hsize.symm ▸ add_pieceSize_le 2048 j chunk)
      rw [hsize] at hslice
      exact hpts ▸ hslice
    have hdelivered := delivered_served hcap hchunk hlt hright ((hgood.audio n).leads hleads)
    have hput := hgood.put_audio hheard hn rfl hx (nextPlace_nonneg hcap) hdelivered
    have hamount := amount_putAudio (hgood.heard hheard)
    refine ⟨h.grown.trans (extends_putAudio c _ _), fun _ => hput,
      fun htrue => absurd (hreturned.symm.trans htrue) Bool.false_ne_true, fun size hsome => ?_,
      .inr (.inl rfl)⟩
    cases hsome
    rw [Good.audio_sized _ _ _ _ hright, hamount]
    have hle := h.grown.amount_le
    omega
  · intro hpts
    have hwrong (size : ℕ) : ¬AudioRight D decoder_flags start n i j size
        ⟨⟨slice start.demux.input.src (chunk.1 + j) (pieceSize 2048 j chunk),
          endFlags (chunk.2 - (j + pieceSize 2048 j chunk)) ||| decoder_flags, pts⟩, n⟩ := by
      rintro ⟨chunk', -, -, -, -, hpts'⟩
      exact hpts hpts'
    have hfifo := @trackBufs_put c'.feed.this c.feed (hgood.heard hheard)
      ⟨⟨slice start.demux.input.src (chunk.1 + j) (pieceSize 2048 j chunk),
        endFlags (chunk.2 - (j + pieceSize 2048 j chunk)) ||| decoder_flags, pts⟩, n⟩ n
    rw [if_pos rfl] at hfifo
    exact .inl (hgood.lost_audio hheard hn hleads hwrong hfifo)

theorem audioTurn_due {n : ℕ} (hstored : Stored start) (h : Taken D decoder_flags start feed n c)
    (hreturned : c.returned = false) (hn : n < start.demux.audio.length) {aie : AudioIndexEntry}
    (hentry : (start.demux.aindex n)[c.feed.this.audio_posc n]? = some aie)
    (hcurrent : ¬(c.feed.this.demux.trackChunks n).length ≤ c.feed.this.audio_posc n)
    (hdue : c.feed.this.Due D video_pts n)
    (hover : ∀ this : AviPlay, (c.feed.this.TurnFits D video_pts n ↔ c.feed.this.AllDone) →
      (c.feed.this.TurnFits D video_pts n → Taken D decoder_flags start feed (n + 1)
        { c with feed := { c.feed with this := this }, returned := true }) ∧
      (¬c.feed.this.TurnFits D video_pts n → Spoilt D decoder_flags start
        { c with feed := { c.feed with this := this }, returned := true })) :
    ∃ c', Settles (fun fuel => audioTurn D decoder_flags video_pts fuel c n) (some c') ∧
      (c.feed.this.TurnFits D video_pts n → Taken D decoder_flags start feed (n + 1) c') ∧
        (¬c.feed.this.TurnFits D video_pts n → Spoilt D decoder_flags start c') := by
  have hgood := h.good hreturned
  have hsame := hgood.same
  have hlength : c.feed.this.demux.audio.length = start.demux.audio.length := by rw [hsame.audio]
  have hheard : start.no_audio = false := hsame.no_audio ▸ hdue.1
  have hcap : (0 : ℤ) < 2048 := by decide
  have hreads := reads_audio n (hstored.audio n)
  obtain ⟨i, j, hleads⟩ | hdone := (hgood.audio n).place.leads_or_done
  · obtain ⟨len, hlen, hlt⟩ := hleads.byte
    obtain ⟨chunk, hchunk, rfl⟩ := exists_chunk hlen
    have hread := aviRead_leads hreads hcap hsame (hgood.audio_posb n) hleads hchunk
    have hfits := turnFits_iff hdue hcurrent (hsame.trackChunks n ▸ hleads)
    rw [hsame.trackChunks, hsame.placePts, hsame.placePts, Pieces.length_eq (getElem?_sizes hchunk)] at hfits
    have hmore : j + 2048 ≤ chunk.2.toNat ↔ 2048 ≤ chunk.2 - j := by omega
    rw [hmore] at hfits
    by_cases hpiece : 2048 ≤ chunk.2 - j ∨ i + 1 < (start.demux.trackChunks n).length
    · -- a buffer is put into the fifo
      obtain ⟨hpos, -, -⟩ := hstored.audio n chunk (List.mem_of_getElem? hchunk)
      have hsize := pieceSize_pos hcap hlt
      have hx : 0 ≤ chunk.1 + j + pieceSize 2048 j chunk := by omega
      have hput := audioTurn_piece hstored h hreturned hn hheard hleads hchunk hlt
        (start.placePts D n (c.feed.this.audio_posc n) (c.feed.this.audio_posb n)) hx
      unfold served at hread
      rw [if_pos hpiece] at hread
      have hturn := @audioTurn_reads D decoder_flags start _ c video_pts n aie hsame hreturned hentry hdue _ hread
      rw [hsame.placePts] at hturn
      refine ⟨_, hturn, fun h => hput.1 (hfits.1 h).2, fun h => hput.2 fun hpts => h (hfits.2 ⟨hpiece, hpts⟩)⟩
    · -- the end of the last chunk is lost
      have hiff : c.feed.this.TurnFits D video_pts n ↔ c.feed.this.AllDone := by
        refine iff_of_false (fun h => hpiece (hfits.1 h).1) fun hall => ?_
        exact (hsame.allDone.1 hall).2 hheard n hn |> hleads.not_done
      unfold served at hread
      rw [if_neg hpiece] at hread
      exact ⟨_, audioTurn_reads hsame hreturned hentry hdue hread, hover _ hiff⟩
  · obtain ⟨this, hread⟩ := aviRead_done hreads hcap hsame (hgood.audio_posb n) hdone
    refine ⟨_, audioTurn_reads hsame hreturned hentry hdue hread, hover this ?_⟩
    exact ⟨fun hfits => hfits.last hdue (hsame.trackChunks n ▸ hdone), turnFits_of_allDone (hlength ▸ hn)⟩

variable (video_pts) in
theorem audioTurn_settles {n : ℕ} (hstored : Stored start) (h : Taken D decoder_flags start feed n c)
    (hreturned : c.returned = false) (hn : n < start.demux.audio.length) :
    ∃ c', Settles (fun fuel => audioTurn D decoder_flags video_pts fuel c n) (some c') ∧
      (c.feed.this.TurnFits D video_pts n → Taken D decoder_flags start feed (n + 1) c') ∧
        (¬c.feed.this.TurnFits D video_pts n → Spoilt D decoder_flags start c') := by
  have hgood := h.good hreturned
  have hsame := hgood.same
  have hlength : c.feed.this.demux.audio.length = start.demux.audio.length := by rw [hsame.audio]
  -- where the call is over, what counts is whether any stream has bytes left
  have hover (this : AviPlay) (hiff : c.feed.this.TurnFits D video_pts n ↔ c.feed.this.AllDone) :
      (c.feed.this.TurnFits D video_pts n → Taken D decoder_flags start feed (n + 1)
        { c with feed := { c.feed with this := this }, returned := true }) ∧
      (¬c.feed.this.TurnFits D video_pts n → Spoilt D decoder_flags start
        { c with feed := { c.feed with this := this }, returned := true }) := by
    rw [hiff, ← hgood.completed_iff]
    refine ⟨fun hcompleted => ?_, fun hnot => .inr ⟨rfl, hnot⟩⟩
    exact ⟨⟨h.grown.video_fifo, h.grown.audio_fifo⟩, fun hfalse => absurd hfalse Bool.false_ne_true.symm,
      fun _ => hcompleted, h.size, .inr (.inr (.inl rfl))⟩
  cases hentry : (start.demux.aindex n)[c.feed.this.audio_posc n]? with
  | none =>
    have hpast : (c.feed.this.demux.trackChunks n).length ≤ c.feed.this.audio_posc n := by
      rw [hsame.trackChunks]
      exact (List.length_map _).trans_le (List.getElem?_eq_none_iff.1 hentry)
    exact ⟨_, audioTurn_ended hsame hreturned hentry,
      hover c.feed.this ⟨fun hfits => hfits.current hpast, turnFits_of_allDone (hlength ▸ hn)⟩⟩
  | some aie =>
    have hnot : ¬(c.feed.this.demux.trackChunks n).length ≤ c.feed.this.audio_posc n := by
      rw [hsame.trackChunks, not_le]
      exact (List.getElem?_eq_some_iff.1 hentry).1.trans_eq (List.length_map _).symm
    by_cases hdue : c.feed.this.Due D video_pts n
    · exact audioTurn_due hstored h hreturned hn hentry hnot hdue hover
    · -- the stream waits for the video stream
      refine ⟨_, audioTurn_waits hsame hreturned hentry hdue, fun _ => ?_, fun hmisfit => ?_⟩
      · exact ⟨h.grown, h.good, h.completed, h.size, .inl rfl⟩
      · exact absurd ⟨fun hpast => absurd hpast hnot, fun hdue' => absurd hdue' hdue,
          fun hdue' => absurd hdue' hdue⟩ hmisfit

/-! ## The turn of the video stream -/

theorem videoTurn_reads (hreturned : c.returned = false) (hvideo : c.do_read_video = true)
    {read : Option (List Byte × ℕ)}
    (hread : Settles (fun fuel => c.feed.this.aviReadVideo 2048 fuel) (some (this, read))) :
    Settles (fun fuel => videoTurn decoder_flags video_pts fuel c)
      (some <| match read with
        | none => ({ c.feed with this := this }, false)
        | some (mem, buf_flags) =>
          ({ c.feed with
            this := this
            video_fifo := c.feed.video_fifo ++ [⟨⟨mem, buf_flags ||| decoder_flags, video_pts⟩,
              video_pts.tdiv 90, this.demux.input.pos, this.video_posf⟩] }, 0 < mem.length)) := by
  unfold videoTurn
  simp only [hreturned, hvideo]
  refine hread.bind_some ?_
  cases read with
  | none => exact Settles.const _
  | some read => exact Settles.const _

theorem frameFits_iff
    (hleads : Leads (sizes this.demux.video) this.video_posf this.video_posb.toNat i j) :
    this.FrameFits D video_pts ↔
      j + 2048 ≤ Pieces.length (sizes this.demux.video) i ∧ video_pts = this.getVideoPts D i := by
  constructor
  · exact fun hfits => hfits.piece i j hleads
  · intro hpiece
    refine ⟨fun i' j' hleads' => ?_, fun hdone => absurd hdone hleads.not_done⟩
    obtain ⟨rfl, rfl⟩ := hleads.unique hleads'
    exact hpiece

/-- What a call comes to that has done no harm. -/
structure Called (D : Doubles) (decoder_flags : ℕ) (start : AviPlay) (feed : Feed) (r : Feed × Bool) : Prop where
  grown : feed.Extends r.1
  good : r.2 = true → Good D decoder_flags start r.1 ∧ feed.amount < r.1.amount
  completed : r.2 = false → r.1.Completed D decoder_flags start

/-- What a call comes to that has done harm. -/
def Ruined (D : Doubles) (decoder_flags : ℕ) (start : AviPlay) (r : Feed × Bool) : Prop :=
  r.1.Lost D decoder_flags start ∨ r.2 = false ∧ ¬r.1.Completed D decoder_flags start

theorem videoTurn_piece {n : ℕ} (hstored : Stored start) (h : Taken D decoder_flags start feed n c)
    (hreturned : c.returned = false)
    (hleads : Leads (sizes start.demux.video) c.feed.this.video_posf c.feed.this.video_posb.toNat i j)
    {chunk : ℤ × ℤ} (hchunk : start.demux.video[i]? = some chunk) (hlt : j < chunk.2.toNat) (hx : 0 ≤ x)
    {mem : List Byte} (hmem : mem = slice start.demux.input.src (chunk.1 + j) (pieceSize 2048 j chunk)) :
    let this := videoOps.put (c.feed.this.withPos x) (nextPlace 2048 i j chunk).1 (nextPlace 2048 i j chunk).2
    let r : Feed × Bool := ({ c.feed with
      this := this
      video_fifo := c.feed.video_fifo ++
        [⟨⟨mem, endFlags (chunk.2 - (j + pieceSize 2048 j chunk)) ||| decoder_flags, video_pts⟩,
          video_pts.tdiv 90, this.demux.input.pos, this.video_posf⟩] }, 0 < mem.length)
    (2048 ≤ chunk.2 - j ∧ video_pts = start.getVideoPts D i → Called D decoder_flags start feed r) ∧
      (¬(2048 ≤ chunk.2 - j ∧ video_pts = start.getVideoPts D i) → Ruined D decoder_flags start r) := by
  have hgood := h.good hreturned
  have hcap : (0 : ℤ) < 2048 := by decide
  have hpos := pieceSize_pos hcap hlt
  have hsize : ((pieceSize 2048 j chunk).toNat : ℤ) = pieceSize 2048 j chunk := Int.toNat_of_nonneg hpos.le
  intro this r
  have hposf : this.video_posf = (nextPlace 2048 i j chunk).1 := rfl
  constructor
  · rintro ⟨hfull, hpts⟩
    have hslice := @stamped_slice start.demux.input.src start.demux.video decoder_flags i j
      (pieceSize 2048 j chunk).toNat (fun k _ => start.getVideoPts D k) chunk hchunk
      (hstored.video chunk (List.mem_of_getElem? hchunk)) (hsize.symm ▸ add_pieceSize_le 2048 j chunk)
    rw [hsize] at hslice
    have hright : VideoRight D decoder_flags start i j (pieceSize 2048 j chunk).toNat
        ⟨⟨mem, endFlags (chunk.2 - (j + pieceSize 2048 j chunk)) ||| decoder_flags, video_pts⟩,
          video_pts.tdiv 90, this.demux.input.pos, this.video_posf⟩ := by
      refine ⟨hmem ▸ hpts ▸ hslice, ?_⟩
      rw [hposf]
      exact congrArg Prod.fst (if_pos hfull)
    have hdelivered := delivered_served hcap hchunk hlt hright (hgood.video.leads hleads)
    have hput := hgood.put_video hx (nextPlace_nonneg hcap) hdelivered
    have hlength : 0 < mem.length := by
      have hsized := Good.video_sized _ _ _ _ hright
      dsimp only at hsized
      omega
    have hgrown : c.feed.Extends r.1 := ⟨List.prefix_append _ _, List.prefix_rfl⟩
    have hamount : r.1.amount = c.feed.amount + 1 := by
      unfold Feed.amount
      dsimp only [r]
      rw [List.length_append, List.length_singleton]
      omega
    have hle := h.grown.amount_le
    refine ⟨h.grown.trans hgrown, fun _ => ⟨hput, by omega⟩, fun hfalse => ?_⟩
    exact absurd hlength (of_decide_eq_false hfalse)
  · intro hnot
    refine .inl (hgood.lost_video hleads (fun size hright => hnot ?_) rfl)
    obtain ⟨⟨chunk', -, -, -, -, hpts⟩, hnumber⟩ := hright
    refine ⟨by_contra fun hfull => ?_, hpts⟩
    -- the number of the frame is that of the next chunk
    have hnext : this.video_posf = i + 1 := hposf.trans (congrArg Prod.fst (if_neg hfull))
    exact Nat.succ_ne_self i (hnext.symm.trans hnumber)

variable (D video_pts) in
theorem videoTurn_settles (hstored : Stored start)
    (h : Taken D decoder_flags start feed start.demux.audio.length c) :
    ∃ r, Settles (fun fuel => videoTurn decoder_flags video_pts fuel c) (some r) ∧
      ((c.returned = false → c.do_read_video = true → c.feed.this.FrameFits D video_pts) →
        Called D decoder_flags start feed r) ∧
      (¬(c.returned = false → c.do_read_video = true → c.feed.this.FrameFits D video_pts) →
        Ruined D decoder_flags start r) := by
  cases hreturned : c.returned with
  | true =>
    refine ⟨(c.feed, false), ?_, fun _ => ⟨h.grown, fun hfalse => absurd hfalse Bool.false_ne_true,
      fun _ => h.completed hreturned⟩, fun hnot => absurd (fun hfalse => ?_) hnot⟩
    · unfold videoTurn
      simp only [hreturned]
      exact Settles.const _
    · exact absurd hfalse Bool.false_ne_true.symm
  | false =>
    have hgood := h.good hreturned
    have hsame := hgood.same
    cases hvideo : c.do_read_video with
    | false =>
      -- an audio stream has been read
      obtain ⟨size, hsize⟩ : ∃ size, c.size = some size := by
        obtain htrue | hsome | htrue | ⟨hzero, hnonzero⟩ := h.next
        · exact absurd (hvideo.symm.trans htrue) Bool.false_ne_true
        · exact Option.isSome_iff_exists.1 hsome
        · exact absurd (hreturned.symm.trans htrue) Bool.false_ne_true
        · exact absurd hzero hnonzero
      obtain ⟨hpos, hamount⟩ := h.size size hsize
      refine ⟨(c.feed, true), ?_, fun _ => ⟨h.grown, fun _ => ⟨hgood, hamount⟩,
        fun hfalse => absurd hfalse Bool.false_ne_true.symm⟩, fun hnot => absurd (fun _ hfalse => ?_) hnot⟩
      · unfold videoTurn
        simp only [hreturned, hvideo, hsize, Option.any_some, decide_eq_true hpos]
        exact Settles.const _
      · exact absurd hfalse Bool.false_ne_true
    | true =>
      rw [imp_iff_right rfl, imp_iff_right rfl]
      have hcap : (0 : ℤ) < 2048 := by decide
      have hreads := reads_video hstored.video
      -- where nothing is read, what counts is whether any stream has bytes left
      have hover (this : AviPlay) (hiff : c.feed.this.FrameFits D video_pts ↔ c.feed.this.AllDone) :
          (c.feed.this.FrameFits D video_pts →
            Called D decoder_flags start feed ({ c.feed with this := this }, false)) ∧
          (¬c.feed.this.FrameFits D video_pts →
            Ruined D decoder_flags start ({ c.feed with this := this }, false)) := by
        rw [hiff, ← hgood.completed_iff]
        refine ⟨fun hcompleted => ?_, fun hnot => .inr ⟨rfl, hnot⟩⟩
        exact ⟨⟨h.grown.video_fifo, h.grown.audio_fifo⟩, fun hfalse => absurd hfalse Bool.false_ne_true,
          fun _ => hcompleted⟩
      obtain ⟨i, j, hleads⟩ | hdone := hgood.video.place.leads_or_done
      · obtain ⟨len, hlen, hlt⟩ := hleads.byte
        obtain ⟨chunk, hchunk, rfl⟩ := exists_chunk hlen
        have hread := aviRead_leads hreads hcap hsame hgood.video_posb hleads hchunk
        have hfits := @frameFits_iff D c.feed.this video_pts i j (hsame.video ▸ hleads)
        rw [hsame.video, hsame.getVideoPts, Pieces.length_eq (getElem?_sizes hchunk)] at hfits
        have hmore : j + 2048 ≤ chunk.2.toNat ↔ 2048 ≤ chunk.2 - j := by omega
        rw [hmore] at hfits
        by_cases hpiece : 2048 ≤ chunk.2 - j ∨ i + 1 < start.demux.video.length
        · -- a buffer is put into the fifo
          obtain ⟨hpos, -, -⟩ := hstored.video chunk (List.mem_of_getElem? hchunk)
          have hsize := pieceSize_pos hcap hlt
          have hx : 0 ≤ chunk.1 + j + pieceSize 2048 j chunk := by omega
          have hput := @videoTurn_piece D decoder_flags start feed c video_pts i j _ _ hstored h hreturned
            hleads chunk hchunk hlt hx _ rfl
          unfold served at hread
          rw [if_pos hpiece] at hread
          rw [hfits]
          exact ⟨_, videoTurn_reads hreturned hvideo hread, hput⟩
        · -- the end of the last chunk is lost
          have hiff : c.feed.this.FrameFits D video_pts ↔ c.feed.this.AllDone := by
            refine iff_of_false (fun h => hpiece (.inl (hfits.1 h).1)) fun hall => ?_
            exact hleads.not_done (hsame.allDone.1 hall).1
          unfold served at hread
          rw [if_neg hpiece] at hread
          exact ⟨_, videoTurn_reads hreturned hvideo hread, hover _ hiff⟩
      · obtain ⟨this, hread⟩ := aviRead_done hreads hcap hsame hgood.video_posb hdone
        refine ⟨_, videoTurn_reads hreturned hvideo hread, hover this ?_⟩
        exact ⟨fun hfits => hfits.last (hsame.video ▸ hdone), frameFits_of_allDone⟩

end Xine.Avi
