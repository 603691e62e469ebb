import Xine.Avi.Extension
import Xine.Library.Pieces

/-!
# Streams at the end of the file

At the end of the file there is nothing to grow an index by, and the current entry of a stream is that of its
index. `Reads` is what the reading functions need of a stream.
-/

namespace Xine.Avi

open Fuel

/-- The file has no chunk behind those in the indexes. -/
def DemuxAvi.AtEnd (d : DemuxAvi) : Prop :=
  0 ≤ d.input.pos ∧ 0 ≤ d.nexttagoffset ∧ d.input.src.length < d.nexttagoffset + 8

/-- The chunks in the index of an audio stream. -/
def DemuxAvi.trackChunks (d : DemuxAvi) (track : ℕ) : List (ℤ × ℤ) :=
  (d.aindex track).map fun aie => (aie.pos, aie.len)

/-- A chunk is in the file. -/
def InFile (src : List Byte) (chunk : ℤ × ℤ) : Prop :=
  0 ≤ chunk.1 ∧ 0 ≤ chunk.2 ∧ chunk.1 + chunk.2 ≤ src.length

theorem idxGrowRound_short {d : DemuxAvi} (h : (d.input.read 8).1.length ≠ 8) (cur : ℤ) :
    idxGrowRound d cur = ({ d with input := (d.input.read 8).2 }, none) := by
  unfold idxGrowRound
  exact if_pos h

theorem idxGrow_atEnd {stopper : DemuxAvi → ℤ} {d : DemuxAvi} (h : d.AtEnd)
    (hstop : stopper { d with input := (d.input.seek d.nexttagoffset).2 } < 0) :
    Settles (fun rounds => idxGrow stopper rounds d) (some (-1, d)) := by
  obtain ⟨hpos, hnext, hend⟩ := h
  refine Settles.succ (fun rounds => ?_) (Settles.const _)
  have hseek (pos pos' : ℤ) (hpos' : 0 ≤ pos') :
      Input.seek { d.input with pos := pos } pos' = (pos', { d.input with pos := pos' }) :=
    if_neg (not_lt.2 hpos')
  have hstart : d.input.seek d.nexttagoffset = (d.nexttagoffset, { d.input with pos := d.nexttagoffset }) :=
    hseek d.input.pos _ hnext
  have hread : (Input.read { d.input with pos := d.nexttagoffset } 8).1.length ≠ 8 := by
    unfold Input.read
    rw [List.length_take, List.length_drop]
    dsimp only
    omega
  have hback := hseek (Input.read { d.input with pos := d.nexttagoffset } 8).2.pos d.input.pos hpos
  unfold idxGrow idxGrowLoop
  dsimp only
  rw [if_pos hstop, idxGrowRound_short (by rw [hstart]; exact hread), hstart]
  dsimp only
  exact congrArg (fun input => some (-1, { d with input := input })) (congrArg Prod.snd hback)

namespace AviPlay

variable {start this : AviPlay} {x : ℤ} {track k : ℕ} {b : ℤ}

/-- The position of the input. -/
def withPos (this : AviPlay) (pos : ℤ) : AviPlay :=
  { this with demux := { this.demux with input := { this.demux.input with pos := pos } } }

/-- A demuxer on its way through a file: the same indexes, at the end of the same file. -/
structure Same (start this : AviPlay) : Prop where
  vindex : this.demux.vindex = start.demux.vindex
  audio : this.demux.audio = start.demux.audio
  src : this.demux.input.src = start.demux.input.src
  rate : this.rate = start.rate
  audio_rate : this.audio_rate = start.audio_rate
  no_audio : this.no_audio = start.no_audio
  atEnd : this.demux.AtEnd

theorem Same.aindex (h : Same start this) (track : ℕ) :
    this.demux.aindex track = start.demux.aindex track := by
  unfold DemuxAvi.aindex
  rw [h.audio]

theorem Same.withPos (h : Same start this) (hx : 0 ≤ x) : Same start (this.withPos x) where
  vindex := h.vindex
  audio := h.audio
  src := h.src
  rate := h.rate
  audio_rate := h.audio_rate
  no_audio := h.no_audio
  atEnd := ⟨hx, h.atEnd.2⟩

/-- What the reading functions need of a stream. -/
structure Reads (start : AviPlay) (ops : StreamOps) (chunks : List (ℤ × ℤ)) : Prop where
  inFile : ∀ chunk ∈ chunks, InFile start.demux.input.src chunk
  entry : ∀ this, Same start this →
    Settles (fun fuel => ops.curIndexEntry fuel this) (some (this, chunks[ops.posf this]?))
  same : ∀ this k b, Same start this → Same start (ops.put this k b)
  demux : ∀ this k b, (ops.put this k b).demux = this.demux
  posf : ∀ this k b, ops.posf (ops.put this k b) = k
  posb : ∀ this k b, ops.posb (ops.put this k b) = b
  posf_withPos : ∀ this x, ops.posf (this.withPos x) = ops.posf this
  posb_withPos : ∀ this x, ops.posb (this.withPos x) = ops.posb this
  put_put : ∀ this j c k b, ops.put (ops.put this j c) k b = ops.put this k b
  put_withPos : ∀ this x k b, (ops.put this k b).withPos x = ops.put (this.withPos x) k b
  put_self : ∀ this, ops.put this (ops.posf this) (ops.posb this) = this

theorem videoCurIndexEntry_settles (h : Same start this) :
    Settles (fun fuel => this.videoCurIndexEntry fuel)
      (some (this, start.demux.vindex[this.video_posf]?)) := by
  rw [← h.vindex]
  by_cases hlt : this.video_posf < this.demux.vindex.length
  · simp only [videoCurIndexEntry_of_lt hlt, List.getElem?_eq_getElem hlt]
    exact Settles.const _
  · have hle : this.demux.vindex.length ≤ this.video_posf := not_lt.1 hlt
    have hstop : videoPosStopper this.video_posf { this.demux with
        input := (this.demux.input.seek this.demux.nexttagoffset).2 } < 0 := by
      exact (if_pos hle).trans_lt (by decide)
    unfold videoCurIndexEntry
    simp only [if_pos hle, List.getElem?_eq_none hle]
    refine (idxGrow_atEnd h.atEnd hstop).bind (fun hnone => absurd hnone (Option.some_ne_none _)) ?_
    intro found hfound
    cases hfound
    exact Settles.const _

theorem audioCurIndexEntry_settles (h : Same start this) (track : ℕ) :
    Settles (fun fuel => this.audioCurIndexEntry fuel track)
      (some (this, (start.demux.aindex track)[this.audio_posc track]?)) := by
  rw [← h.aindex]
  by_cases hlt : this.audio_posc track < (this.demux.aindex track).length
  · simp only [audioCurIndexEntry_of_lt hlt, List.getElem?_eq_getElem hlt]
    exact Settles.const _
  · have hle : (this.demux.aindex track).length ≤ this.audio_posc track := not_lt.1 hlt
    have hstop : audioPosStopper track (this.audio_posc track) { this.demux with
        input := (this.demux.input.seek this.demux.nexttagoffset).2 } < 0 := by
      exact (if_pos hle).trans_lt (by decide)
    unfold audioCurIndexEntry
    simp only [if_pos hle, List.getElem?_eq_none hle]
    refine (idxGrow_atEnd h.atEnd hstop).bind (fun hnone => absurd hnone (Option.some_ne_none _)) ?_
    intro found hfound
    cases hfound
    exact Settles.const _

theorem reads_video (hin : ∀ chunk ∈ start.demux.video, InFile start.demux.input.src chunk) :
    Reads start videoOps start.demux.video where
  inFile := hin
  entry this h := by
    have hentry : start.demux.video[this.video_posf]? =
        start.demux.vindex[this.video_posf]?.map fun vie => (vie.pos, vie.len) := List.getElem?_map ..
    have hmap := (videoCurIndexEntry_settles h).map fun found : AviPlay × Option VideoIndexEntry =>
      (found.1, found.2.map fun vie => (vie.pos, vie.len))
    exact hentry ▸ hmap
  same this k b h := ⟨h.vindex, h.audio, h.src, h.rate, h.audio_rate, h.no_audio, h.atEnd⟩
  demux _ _ _ := rfl
  posf _ _ _ := rfl
  posb _ _ _ := rfl
  posf_withPos _ _ := rfl
  posb_withPos _ _ := rfl
  put_put _ _ _ _ _ := rfl
  put_withPos _ _ _ _ := rfl
  put_self _ := rfl

theorem reads_audio (track : ℕ)
    (hin : ∀ chunk ∈ start.demux.trackChunks track, InFile start.demux.input.src chunk) :
    Reads start (audioOps track) (start.demux.trackChunks track) where
  inFile := hin
  entry this h := by
    have hentry : (start.demux.trackChunks track)[this.audio_posc track]? =
        (start.demux.aindex track)[this.audio_posc track]?.map fun aie => (aie.pos, aie.len) :=
      List.getElem?_map ..
    have hmap := (audioCurIndexEntry_settles h track).map fun found : AviPlay × Option AudioIndexEntry =>
      (found.1, found.2.map fun aie => (aie.pos, aie.len))
    exact hentry ▸ hmap
  same this k b h := ⟨h.vindex, h.audio, h.src, h.rate, h.audio_rate, h.no_audio, h.atEnd⟩
  demux _ _ _ := rfl
  posf _ _ _ := Function.update_self ..
  posb _ _ _ := Function.update_self ..
  posf_withPos _ _ := rfl
  posb_withPos _ _ := rfl
  put_put this j c k b := by
    unfold audioOps
    dsimp only
    rw [Function.update_idem, Function.update_idem]
  put_withPos _ _ _ _ := rfl
  put_self this := by
    unfold audioOps
    dsimp only
    rw [Function.update_eq_self, Function.update_eq_self]

end AviPlay

end Xine.Avi

/-!
## What a reading function reads

At the end of the file a reading function gives as many bytes of one chunk as the buffer takes. It goes on to the
next chunk only where the buffer takes more, so that the last bytes of the last chunk are lost.
-/

namespace Xine.Avi

open Fuel Pieces

/-- Some bytes of the file. -/
def slice (src : List Byte) (pos size : ℤ) : List Byte := (src.drop pos.toNat).take size.toNat

theorem length_slice {src : List Byte} {pos size : ℤ} (hpos : 0 ≤ pos) (hsize : 0 ≤ size)
    (hle : pos + size ≤ src.length) : ((slice src pos size).length : ℤ) = size := by
  unfold slice
  rw [List.length_take, List.length_drop]
  omega

namespace AviPlay

variable {start this : AviPlay} {x : ℤ} {k : ℕ} {b : ℤ}

/-- The lengths of the chunks. -/
def sizes (chunks : List (ℤ × ℤ)) : List ℕ := chunks.map fun chunk => chunk.2.toNat

variable {ops : StreamOps} {chunks : List (ℤ × ℤ)} {chunk entry : ℤ × ℤ} {src : List Byte}
  {cap pos todo : ℤ} {i j len : ℕ}

theorem getElem?_sizes (h : chunks[k]? = some chunk) : (sizes chunks)[k]? = some chunk.2.toNat := by
  unfold sizes
  rw [List.getElem?_map, h]
  rfl

theorem exists_chunk (h : (sizes chunks)[k]? = some len) :
    ∃ chunk, chunks[k]? = some chunk ∧ chunk.2.toNat = len := by
  unfold sizes at h
  rw [List.getElem?_map] at h
  exact Option.map_eq_some_iff.1 h

theorem readAt_eq (hsrc : this.demux.input.src = src) (hpos : 0 ≤ pos) (htodo : 0 ≤ todo)
    (hle : pos + todo ≤ src.length) :
    this.readAt pos todo = (this.withPos (pos + todo), some (slice src pos todo)) := by
  have hlength := length_slice hpos htodo hle
  unfold slice at hlength ⊢
  unfold readAt Input.seek Input.read
  rw [if_neg (by omega)]
  dsimp only
  rw [if_neg (by omega), hsrc, if_neg (not_not.2 hlength), hlength, ← hsrc]
  rfl

/-- The number of the bytes that are read from a place of a chunk. -/
def pieceSize (cap : ℤ) (j : ℤ) (chunk : ℤ × ℤ) : ℤ := min cap (chunk.2 - j)

/-- The place behind a piece, which is the next chunk if the buffer takes more than there is. -/
def nextPlace (cap : ℤ) (i : ℕ) (j : ℤ) (chunk : ℤ × ℤ) : ℕ × ℤ :=
  if cap ≤ chunk.2 - j then (i, j + cap) else (i + 1, 0)

/-- What a reading function comes to when the next byte is at a place of a chunk. -/
def served (ops : StreamOps) (src : List Byte) (cap : ℤ) (count : ℕ) (this : AviPlay) (i : ℕ) (j : ℤ)
    (chunk : ℤ × ℤ) : AviPlay × Option (List Byte × ℕ) :=
  (ops.put (this.withPos (chunk.1 + j + pieceSize cap j chunk)) (nextPlace cap i j chunk).1
    (nextPlace cap i j chunk).2,
    if cap ≤ chunk.2 - j ∨ i + 1 < count then
      some (slice src (chunk.1 + j) (pieceSize cap j chunk), endFlags (chunk.2 - (j + pieceSize cap j chunk)))
    else none)

theorem served_put (h : Reads start ops chunks) {c : ℤ} {count : ℕ} :
    served ops src cap count (ops.put (this.withPos x) k b) i c chunk =
      served ops src cap count this i c chunk := by
  unfold served
  simp only [h.put_withPos, h.put_put]
  rfl

theorem readLoop_over (h : Reads start ops chunks) (hthis : Same start this) {bytes : ℤ} {mem : List Byte}
    {r : Option (AviPlay × Option (List Byte × ℕ))} (hbytes : 0 < bytes) (hleft : entry.2 - ops.posb this = 0)
    (hrest : Settles (fun fuel => readNext ops (readLoop ops fuel) bytes mem
      (ops.put this (ops.posf this + 1) 0, chunks[ops.posf this + 1]?)) r) :
    Settles (fun fuel => readLoop ops fuel this entry bytes mem) r := by
  have hnext := h.entry _ (h.same this (ops.posf this + 1) 0 hthis)
  rw [h.posf] at hnext
  have hbind := hnext.bind_some (g := fun found fuel => readNext ops (readLoop ops fuel) bytes mem found) hrest
  refine Settles.succ (fun fuel => ?_) hbind
  rw [readLoop, if_pos hbytes, if_pos hleft]
  rfl

theorem readLoop_zero (mem : List Byte) :
    Settles (fun fuel => readLoop ops fuel this entry 0 mem)
      (some (this, some (mem, endFlags (entry.2 - ops.posb this)))) := by
  refine Settles.succ (fun fuel => ?_) (Settles.const _)
  rw [readLoop, if_neg (lt_irrefl 0)]

theorem readLoop_on {bytes : ℤ} {mem : List Byte} {r : Option (AviPlay × Option (List Byte × ℕ))}
    (hbytes : 0 < bytes) (hleft : entry.2 - ops.posb this ≠ 0)
    (hrest : Settles (fun fuel => readOn ops (readLoop ops fuel) bytes mem this entry) r) :
    Settles (fun fuel => readLoop ops fuel this entry bytes mem) r := by
  refine Settles.succ (fun fuel => ?_) hrest
  rw [readLoop, if_pos hbytes, if_neg hleft]

theorem readOn_eq (h : Reads start ops chunks) (hthis : Same start this)
    (hentry : chunks[ops.posf this]? = some entry)
    (hlow : 0 ≤ ops.posb this) (htodo : 0 ≤ todo)
    (hmin : (if cap < entry.2 - ops.posb this then cap else entry.2 - ops.posb this) = todo) (fuel : ℕ) :
    readOn ops (readLoop ops fuel) cap [] this entry =
      readLoop ops fuel
        (ops.put (this.withPos (entry.1 + ops.posb this + todo)) (ops.posf this) (ops.posb this + todo)) entry
        (cap - todo) (slice start.demux.input.src (entry.1 + ops.posb this) todo) := by
  obtain ⟨hpos, hlen, hfile⟩ := h.inFile entry (List.mem_of_getElem? hentry)
  have hfits : ops.posb this + todo ≤ entry.2 := by
    split_ifs at hmin <;> omega
  have hread : this.readAt (entry.1 + ops.posb this) todo =
      (this.withPos (entry.1 + ops.posb this + todo),
        some (slice start.demux.input.src (entry.1 + ops.posb this) todo)) :=
    readAt_eq hthis.src (by omega) htodo (by omega)
  unfold readOn
  dsimp only
  rw [hmin, hread]
  dsimp only
  rw [h.posf_withPos, h.posb_withPos, List.nil_append]

theorem readOn_here (h : Reads start ops chunks) (hthis : Same start this)
    (hentry : chunks[ops.posf this]? = some entry) (hcap : 0 < cap) (hlow : 0 ≤ ops.posb this)
    (hlt : ops.posb this < entry.2) :
    Settles (fun fuel => readOn ops (readLoop ops fuel) cap [] this entry)
      (some (served ops start.demux.input.src cap chunks.length this (ops.posf this) (ops.posb this)
        entry)) := by
  obtain ⟨hpos, hlen, hfile⟩ := h.inFile entry (List.mem_of_getElem? hentry)
  unfold served nextPlace pieceSize
  by_cases hfull : cap ≤ entry.2 - ops.posb this
  · -- the buffer is full
    have hmin : (if cap < entry.2 - ops.posb this then cap else entry.2 - ops.posb this) = cap := by
      split_ifs <;> omega
    simp only [readOn_eq h hthis hentry hlow hcap.le hmin, sub_self]
    rw [min_eq_left hfull, if_pos hfull, if_pos (Or.inl hfull)]
    have hover := @readLoop_zero
      (ops.put (this.withPos (entry.1 + ops.posb this + cap)) (ops.posf this) (ops.posb this + cap)) ops
      entry (slice start.demux.input.src (entry.1 + ops.posb this) cap)
    rwa [h.posb] at hover
  · -- the chunk is used up before the buffer is full
    have hmin : (if cap < entry.2 - ops.posb this then cap else entry.2 - ops.posb this) =
        entry.2 - ops.posb this := if_neg (by omega)
    have hlength : ((slice start.demux.input.src (entry.1 + ops.posb this)
        (entry.2 - ops.posb this)).length : ℤ) = entry.2 - ops.posb this :=
      length_slice (by omega) (by omega) (by omega)
    have hne : slice start.demux.input.src (entry.1 + ops.posb this) (entry.2 - ops.posb this) ≠ [] := by
      intro hnil
      rw [hnil, List.length_nil] at hlength
      omega
    have hend : entry.2 - (ops.posb this + (entry.2 - ops.posb this)) = 0 := by omega
    simp only [readOn_eq h hthis hentry hlow (by omega) hmin]
    rw [min_eq_right (not_le.1 hfull).le, if_neg hfull, hend]
    refine readLoop_over h (h.same _ _ _ (hthis.withPos (by omega))) (by omega)
      (by rw [h.posb]; exact hend) ?_
    rw [h.posf, h.put_put]
    by_cases hlast : ops.posf this + 1 < chunks.length
    · rw [List.getElem?_eq_getElem hlast, if_pos (Or.inr hlast)]
      unfold readNext
      simp only [if_pos hne]
      exact Settles.const _
    · rw [List.getElem?_eq_none (not_lt.1 hlast), if_neg (not_or.2 ⟨hfull, hlast⟩)]
      exact Settles.const _

theorem readOn_over (h : Reads start ops chunks) (hthis : Same start this)
    (hentry : chunks[ops.posf this]? = some entry)
    (hcap : 0 < cap) (hend : entry.2 - ops.posb this = 0) (fuel : ℕ) :
    readOn ops (readLoop ops fuel) cap [] this entry =
      readLoop ops fuel (this.withPos (entry.1 + entry.2)) entry cap [] := by
  obtain ⟨-, hlen, -⟩ := h.inFile entry (List.mem_of_getElem? hentry)
  have hmin : (if cap < entry.2 - ops.posb this then cap else entry.2 - ops.posb this) = 0 := by
    rw [hend, if_neg (not_lt.2 hcap.le)]
  have hposb : ops.posb this = entry.2 := by omega
  have hself := h.put_self (this.withPos (entry.1 + entry.2))
  rw [h.posf_withPos, h.posb_withPos, hposb] at hself
  rw [readOn_eq h hthis hentry (by omega) le_rfl hmin, hposb, add_zero, add_zero, sub_zero, hself]
  rfl

theorem readOn_of_readLoop (h : Reads start ops chunks) (hthis : Same start this)
    (hentry : chunks[ops.posf this]? = some entry) (hcap : 0 < cap) {R : AviPlay × Option (List Byte × ℕ) → Prop}
    (hloop : ∀ x, 0 ≤ x →
      ∃ r, Settles (fun fuel => readLoop ops fuel (this.withPos x) entry cap []) (some r) ∧ R r) :
    ∃ r, Settles (fun fuel => readOn ops (readLoop ops fuel) cap [] this entry) (some r) ∧ R r := by
  obtain ⟨hpos, hlen, -⟩ := h.inFile entry (List.mem_of_getElem? hentry)
  by_cases hleft : entry.2 - ops.posb this = 0
  · simp only [readOn_over h hthis hentry hcap hleft]
    exact hloop _ (by omega)
  · obtain ⟨r, hr, hR⟩ := hloop this.demux.input.pos hthis.atEnd.1
    have hself : this.withPos this.demux.input.pos = this := rfl
    rw [hself] at hr
    refine ⟨r, hr.of_succ fun fuel => ?_, hR⟩
    rw [readLoop, if_pos hcap, if_neg hleft]

theorem readLoop_leads (h : Reads start ops chunks) (hcap : 0 < cap) {c : ℕ}
    (hleads : Leads (sizes chunks) k c i j) (hchunk : chunks[i]? = some chunk) (hthis : Same start this) (hposf : ops.posf this = k)
    (hposb : ops.posb this = c) (hentry : chunks[k]? = some entry) :
    Settles (fun fuel => readLoop ops fuel this entry cap [])
      (some (served ops start.demux.input.src cap chunks.length this i j chunk)) := by
  -- by induction on the chunks that are used up
  induction hleads generalizing this entry with
  | @here k b len hlen hlt =>
    obtain rfl := Option.some.inj (hentry.symm.trans hchunk)
    obtain ⟨-, hnonneg, -⟩ := h.inFile entry (List.mem_of_getElem? hentry)
    have hlen := Option.some.inj (hlen.symm.trans (getElem?_sizes hentry))
    obtain rfl := hposf
    refine readLoop_on hcap (by omega) ?_
    rw [← hposb]
    exact readOn_here h hthis hentry hcap (by omega) (by omega)
  | @onward k b i j hlen hrest ih =>
    obtain ⟨-, hnonneg, -⟩ := h.inFile entry (List.mem_of_getElem? hentry)
    have hlen := Option.some.inj (hlen.symm.trans (getElem?_sizes hentry))
    obtain rfl := hposf
    obtain ⟨len, hnext, -⟩ := hrest.head
    obtain ⟨entry', hentry', -⟩ := exists_chunk hnext
    have hsame := h.same this (ops.posf this + 1) 0 hthis
    have hentry'' : chunks[ops.posf (ops.put this (ops.posf this + 1) 0)]? = some entry' := by
      rw [h.posf]
      exact hentry'
    have hserved (x : ℤ) : served ops start.demux.input.src cap chunks.length
        ((ops.put this (ops.posf this + 1) 0).withPos x) i j chunk =
        served ops start.demux.input.src cap chunks.length this i j chunk := by
      rw [h.put_withPos, served_put h]
    obtain ⟨r, hr, rfl⟩ := readOn_of_readLoop h hsame hentry'' hcap
      (R := fun r => r = served ops start.demux.input.src cap chunks.length this i j chunk) fun x hx => by
        have hloop := ih hchunk (hsame.withPos hx) (by rw [h.posf_withPos, h.posf])
          (by rw [h.posb_withPos, h.posb]; rfl) hentry'
        exact ⟨_, hloop, hserved x⟩
    refine readLoop_over h hthis hcap (by omega) ?_
    rw [hentry']
    exact hr

theorem readLoop_done (h : Reads start ops chunks) (hcap : 0 < cap) {c : ℕ} (hdone : Done (sizes chunks) k c)
    (hthis : Same start this) (hposf : ops.posf this = k) (hposb : ops.posb this = c)
    (hentry : chunks[k]? = some entry) :
    ∃ r, Settles (fun fuel => readLoop ops fuel this entry cap []) (some r) ∧ r.2 = none := by
  induction hdone generalizing this entry with
  | past hnone => exact absurd ((getElem?_sizes hentry).symm.trans hnone) (Option.some_ne_none _)
  | @onward k b hlen hrest ih =>
    obtain ⟨-, hnonneg, -⟩ := h.inFile entry (List.mem_of_getElem? hentry)
    have hlen := Option.some.inj (hlen.symm.trans (getElem?_sizes hentry))
    obtain rfl := hposf
    have hsame := h.same this (ops.posf this + 1) 0 hthis
    cases hnext : chunks[ops.posf this + 1]? with
    | none =>
      refine ⟨(ops.put this (ops.posf this + 1) 0, none), readLoop_over h hthis hcap (by omega) ?_, rfl⟩
      rw [hnext]
      exact Settles.const _
    | some entry' =>
      have hentry' : chunks[ops.posf (ops.put this (ops.posf this + 1) 0)]? = some entry' := by
        rw [h.posf]
        exact hnext
      obtain ⟨r, hr, hnone⟩ := readOn_of_readLoop h hsame hentry' hcap (R := fun r => r.2 = none) fun x hx =>
        ih (hsame.withPos hx) (by rw [h.posf_withPos, h.posf]) (by rw [h.posb_withPos, h.posb]; rfl) hnext
      refine ⟨r, readLoop_over h hthis hcap (by omega) ?_, hnone⟩
      rw [hnext]
      exact hr

theorem aviRead_leads (h : Reads start ops chunks) (hcap : 0 < cap) (hthis : Same start this)
    (hposb : 0 ≤ ops.posb this) (hleads : Leads (sizes chunks) (ops.posf this) (ops.posb this).toNat i j)
    (hchunk : chunks[i]? = some chunk) :
    Settles (fun fuel => aviRead ops cap fuel this)
      (some (served ops start.demux.input.src cap chunks.length this i j chunk)) := by
  obtain ⟨len, hlen, -⟩ := hleads.head
  obtain ⟨entry, hentry, -⟩ := exists_chunk hlen
  have hloop := readLoop_leads h hcap hleads hchunk hthis rfl (Int.toNat_of_nonneg hposb).symm hentry
  have hcurrent := h.entry this hthis
  rw [hentry] at hcurrent
  exact hcurrent.bind_some hloop

theorem aviRead_done (h : Reads start ops chunks) (hcap : 0 < cap) (hthis : Same start this)
    (hposb : 0 ≤ ops.posb this) (hdone : Done (sizes chunks) (ops.posf this) (ops.posb this).toNat) :
    ∃ this', Settles (fun fuel => aviRead ops cap fuel this) (some (this', none)) := by
  have hcurrent := h.entry this hthis
  cases hentry : chunks[ops.posf this]? with
  | none =>
    rw [hentry] at hcurrent
    exact ⟨this, hcurrent.bind_some (Settles.const _)⟩
  | some entry =>
    obtain ⟨⟨this', read⟩, hr, rfl⟩ :=
      readLoop_done h hcap hdone hthis rfl (Int.toNat_of_nonneg hposb).symm hentry
    rw [hentry] at hcurrent
    exact ⟨this', hcurrent.bind_some hr⟩

theorem pieceSize_pos (hcap : 0 < cap) (hlt : j < chunk.2.toNat) : 0 < pieceSize cap j chunk :=
  lt_min hcap (by omega)

theorem add_pieceSize_le (cap : ℤ) (j : ℕ) (chunk : ℤ × ℤ) : (j : ℤ) + pieceSize cap j chunk ≤ chunk.2 := by
  unfold pieceSize
  omega

theorem nextPlace_nonneg (hcap : 0 < cap) : 0 ≤ (nextPlace cap i j chunk).2 := by
  unfold nextPlace
  split_ifs
  · exact Int.add_nonneg (Int.natCast_nonneg j) hcap.le
  · exact le_rfl

theorem delivered_served {β : Type*} {right : ℕ → ℕ → ℕ → β → Prop} {bufs : List β} {buf : β} (hcap : 0 < cap)
    (hchunk : chunks[i]? = some chunk) (hlt : j < chunk.2.toNat)
    (hright : right i j (pieceSize cap j chunk).toNat buf) (hbufs : Delivered (sizes chunks) right bufs i j) :
    Delivered (sizes chunks) right (bufs ++ [buf]) (nextPlace cap i j chunk).1
      (nextPlace cap i j chunk).2.toNat := by
  have hpos := pieceSize_pos hcap hlt
  have hle := add_pieceSize_le cap j chunk
  have hpiece := hbufs.piece (getElem?_sizes hchunk) (by omega) (by omega) hright
  unfold nextPlace
  unfold pieceSize at hpiece
  split_ifs with hfull
  · rw [min_eq_left hfull] at hpiece
    have hplace : ((j : ℤ) + cap).toNat = j + cap.toNat := by omega
    exact hplace ▸ hpiece
  · rw [min_eq_right (not_le.1 hfull).le] at hpiece
    have hend : j + (chunk.2 - j).toNat = chunk.2.toNat := by omega
    rw [hend] at hpiece
    exact hpiece.next (getElem?_sizes hchunk)

end AviPlay

end Xine.Avi
