import Xine.Avi.Extension
import Xine.Library.Searches

/-!
# Seeking in an AVI file

`demux_avi_seek` of `demux_avi.c`: a binary search for the video frame, a scan back to a keyframe, and a
binary search for each audio stream. A loop takes a unit of fuel for each iteration, as `idx_grow` does. What
is left out is the flush of the engine and the new time that is sent to it.
-/

namespace Xine.Avi

/-- `AVIIF_KEYFRAME` is set. -/
def VideoIndexEntry.isKeyframe (vie : VideoIndexEntry) : Bool := vie.flags / aviifKeyframe % 2 = 1

/-- The loop of a stopper, from an index downward: a keyframe that is at or past the target, without a frame
behind it that is not. -/
def keyframePast (past : ℕ → VideoIndexEntry → Bool) (vindex : List VideoIndexEntry) : ℕ → ℤ
  | 0 => -1
  | maxframe + 1 =>
    match vindex[maxframe]? with
    | some vie =>
      if past maxframe vie then
        if vie.isKeyframe then 1 else keyframePast past vindex maxframe
      else -1
    | none => -1

def startPosStopper (start_pos : ℤ) (d : DemuxAvi) : ℤ :=
  keyframePast (fun _ vie => vie.pos ≥ start_pos) d.vindex d.vindex.length

namespace AviPlay

def startTimeStopper (D : Doubles) (this : AviPlay) (video_pts : ℤ) (d : DemuxAvi) : ℤ :=
  keyframePast (fun maxframe _ => { this with demux := d }.getVideoPts D maxframe ≥ video_pts) d.vindex
    d.vindex.length

/-- An `int`, unless what is computed is none. -/
def int (i : ℤ) : Option ℤ := if -2 ^ 31 ≤ i ∧ i < 2 ^ 31 then some i else none

def aviSeekStart (this : AviPlay) : AviPlay :=
  { this with video_posf := 0, video_posb := 0, audio_posc := fun _ => 0, audio_posb := fun _ => 0 }

/-- The growth of the index for the start position or the start time. -/
def growForStart (D : Doubles) (this : AviPlay) (start_pos start_time : ℤ) (fuel : ℕ) : Option AviPlay :=
  if start_pos ≠ 0 then
    (idxGrow (startPosStopper start_pos) fuel this.demux).map fun grown =>
      { this with demux := grown.2 }
  else if start_time ≠ 0 then do
    let video_pts ← int (start_time * 90)
    (idxGrow (this.startTimeStopper D video_pts) fuel this.demux).map fun grown =>
      { this with demux := grown.2 }
  else some this

/-- The comparison of the search for a position. -/
def posPast (start_pos : ℤ) (_ : AviPlay) (_ : ℕ) (vie : Option VideoIndexEntry) : Option Bool :=
  vie.map fun vie => vie.pos ≥ start_pos

/-- The comparison of the search for a time. -/
def timePast (D : Doubles) (video_pts : ℤ) (this : AviPlay) (cur_pos : ℕ) (_ : Option VideoIndexEntry) :
    Option Bool :=
  some (this.getVideoPts D cur_pos ≥ video_pts)

/-- The binary search for the video frame, and the entry that it has last looked at. It fails where it
compares an entry that is not there. -/
def videoSearch (past : AviPlay → ℕ → Option VideoIndexEntry → Option Bool) :
    ℕ → AviPlay → Option VideoIndexEntry → ℕ → ℕ → Option (AviPlay × Option VideoIndexEntry)
  | 0, _, _, _, _ => none
  | fuel + 1, this, vie, min_pos, max_pos =>
    if min_pos < max_pos then
      let cur_pos := (min_pos + max_pos) / 2
      let this := { this with video_posf := cur_pos }
      if cur_pos = min_pos then some (this, vie)
      else do
        let (this, vie) ← this.videoCurIndexEntry fuel
        if ← past this cur_pos vie then videoSearch past fuel this vie min_pos cur_pos
        else videoSearch past fuel this vie cur_pos max_pos
    else some (this, vie)

/-- The scan back to a keyframe, from the entry that has last been looked at. -/
def keyframeScan : ℕ → AviPlay → Option VideoIndexEntry → Option AviPlay
  | 0, _, _ => none
  | _ + 1, this, none => some this
  | fuel + 1, this, some vie =>
    if ¬vie.isKeyframe ∧ this.video_posf ≠ 0 then do
      let this := { this with video_posf := this.video_posf - 1 }
      let (this, vie) ← this.videoCurIndexEntry fuel
      keyframeScan fuel this vie
    else some this

/-- The positions of an audio stream. -/
def setPosc (this : AviPlay) (track posc : ℕ) : AviPlay :=
  { this with audio_posc := Function.update this.audio_posc track posc }

@[inherit_doc setPosc] def setPosb (this : AviPlay) (track : ℕ) (posb : ℤ) : AviPlay :=
  { this with audio_posb := Function.update this.audio_posb track posb }

/-- The binary search in the index of an audio stream, and the time that it has last looked at. -/
def audioSearch (D : Doubles) (track : ℕ) (video_pts : ℤ) :
    ℕ → AviPlay → ℤ → ℕ → ℕ → Option (AviPlay × ℤ)
  | 0, _, _, _, _ => none
  | fuel + 1, this, audio_pts, min_pos, max_pos =>
    if min_pos < max_pos then
      let cur_pos := (max_pos + min_pos) / 2
      let this := this.setPosc track cur_pos
      if cur_pos = min_pos then some (this, audio_pts)
      else do
        let (this, aie) ← this.audioCurIndexEntry fuel track
        match aie with
        | some aie =>
          let audio_pts := this.entryPts D track aie 0
          if audio_pts ≥ video_pts then audioSearch D track video_pts fuel this audio_pts min_pos cur_pos
          else audioSearch D track video_pts fuel this audio_pts cur_pos max_pos
        | none =>
          if cur_pos > min_pos then audioSearch D track video_pts fuel this audio_pts min_pos cur_pos
          else some ({ this with status := .finished }, audio_pts)
    else some (this, audio_pts)

/-- The place in a long entry. -/
def posbSearch (D : Doubles) (track : ℕ) (video_pts : ℤ) (aie : AudioIndexEntry) :
    ℕ → AviPlay → ℤ → Option (AviPlay × ℤ)
  | 0, _, _ => none
  | fuel + 1, this, audio_pts =>
    if this.audio_posb track < aie.len then
      let audio_pts := this.entryPts D track aie (this.audio_posb track)
      if audio_pts < video_pts then
        posbSearch D track video_pts aie fuel (this.setPosb track (this.audio_posb track + 1)) audio_pts
      else some (this, audio_pts)
    else some (this, audio_pts)

/-- The step back behind the search, if what has last been looked at is too late. -/
def stepBack (track : ℕ) (video_pts audio_pts : ℤ) (this : AviPlay) : AviPlay :=
  if audio_pts > video_pts ∧ 0 < this.audio_posc track then
    this.setPosc track (this.audio_posc track - 1)
  else this

/-- The search for an audio stream. -/
def seekTrack (D : Doubles) (video_pts : ℤ) (fuel : ℕ) (state : AviPlay × ℤ) (track : ℕ) :
    Option (AviPlay × ℤ) := do
  let (this, audio_pts) := state
  let (this, audio_pts) ←
    audioSearch D track video_pts fuel this audio_pts 0 ((this.demux.aindex track).length - 1)
  let this := this.stepBack track video_pts audio_pts
  let (this, aie) ← this.audioCurIndexEntry fuel track
  match aie with
  | some aie => posbSearch D track video_pts aie fuel this audio_pts
  | none => some (this, audio_pts)

/-- The search for the audio streams. The first time is none that has been looked at. -/
def seekAudio (D : Doubles) (video_pts : ℤ) (fuel : ℕ) (this : AviPlay) : Option AviPlay :=
  if ¬this.no_audio ∧ this.status = .ok then
    ((List.range this.demux.audio.length).foldlM (seekTrack D video_pts fuel) (this, 77777777)).map
      Prod.fst
  else some this

/-- The search for the video frame, and the scan back to a keyframe. -/
def seekVideo (D : Doubles) (start_pos start_time : ℤ) (fuel : ℕ) (this : AviPlay) : Option AviPlay := do
  let max_pos := this.demux.vindex.length - 1
  let (this, vie) ←
    if start_pos ≠ 0 then videoSearch (posPast start_pos) fuel this none 0 max_pos
    else if start_time ≠ 0 then videoSearch (timePast D (start_time * 90)) fuel this none 0 max_pos
    else some (this, none)
  keyframeScan fuel this vie

def demuxAviSeek (D : Doubles) (this : AviPlay) (start_pos start_time : ℤ) (fuel : ℕ) : Option AviPlay :=
  let this := { this with status := .ok }
  if this.streaming then some this
  else do
    let this ← this.aviSeekStart.growForStart D start_pos start_time fuel
    if (start_pos ≠ 0 ∨ start_time ≠ 0) ∧ this.demux.vindex = [] then
      some { this with status := .finished }
    else
      let this ← this.seekVideo D start_pos start_time fuel
      this.seekAudio D (this.getVideoPts D this.video_posf) fuel

end AviPlay

end Xine.Avi

/-!
## Where the search for a video frame lands

The binary search ends in front of the first frame at or past the target. The scan back to a keyframe starts
with the entry that the search has last looked at, which may be the one behind. It then stops at a frame that is
none, or it passes over one.
-/

namespace Xine.Avi

open Fuel Narrowing Walks

/-- There is a keyframe at a place. -/
def DemuxAvi.keyframeAt (d : DemuxAvi) (k : ℕ) : Bool := (d.vindex[k]?).any VideoIndexEntry.isKeyframe

/-- The last keyframe at or before a place. -/
def LastKeyframe (d : DemuxAvi) (k last : ℕ) : Prop :=
  last ≤ k ∧ d.keyframeAt last = true ∧ ∀ j, last < j → j ≤ k → d.keyframeAt j = false

/-- An index that can be searched: there is a frame, the positions do not decrease, and the first frame is a
keyframe. -/
structure DemuxAvi.Searchable (d : DemuxAvi) : Prop where
  nonempty : d.vindex ≠ []
  increasing : d.vindex.Pairwise fun vie vie' => vie.pos ≤ vie'.pos
  keyframe : d.keyframeAt 0 = true

variable {d : DemuxAvi} {k last : ℕ}

theorem LastKeyframe.self (h : d.keyframeAt k = true) : LastKeyframe d k k :=
  ⟨le_rfl, h, fun _ hlt hle => absurd hle hlt.not_ge⟩

theorem lastKeyframe_self_iff : LastKeyframe d k k ↔ d.keyframeAt k = true :=
  ⟨fun h => h.2.1, LastKeyframe.self⟩

theorem LastKeyframe.succ_iff (h : LastKeyframe d k last) :
    LastKeyframe d (k + 1) last ↔ d.keyframeAt (k + 1) = false := by
  obtain ⟨hle, hkey, hnone⟩ := h
  constructor
  · rintro ⟨-, -, hall⟩
    exact hall (k + 1) (Nat.lt_succ_of_le hle) le_rfl
  · intro hfalse
    refine ⟨Nat.le_succ_of_le hle, hkey, fun j hlt hj => ?_⟩
    obtain hj | rfl := Nat.le_succ_iff.1 hj
    · exact hnone j hlt hj
    · exact hfalse

theorem keyframeAt_eq {vie : VideoIndexEntry} (h : d.vindex[k]? = some vie) :
    d.keyframeAt k = vie.isKeyframe := by
  unfold DemuxAvi.keyframeAt
  rw [h]
  rfl

namespace AviPlay

variable {D : Doubles} {this : AviPlay} {start_pos start_time : ℤ} {m posf : ℕ} {s : Search}

/-- A frame is at or past the target: the start position, or the start time where there is none. -/
def isPast (D : Doubles) (this : AviPlay) (start_pos start_time : ℤ) (k : ℕ) : Bool :=
  if start_pos ≠ 0 then (this.demux.vindex[k]?).any fun vie => vie.pos ≥ start_pos
  else this.getVideoPts D k ≥ start_time * 90

/-- A target is in range if a frame of the index is at or past it. For a time the frames have a rate. -/
def InRange (D : Doubles) (this : AviPlay) (start_pos start_time : ℤ) : Prop :=
  start_pos ≠ 0 ∨ start_time ≠ 0 →
    (∃ k < this.demux.vindex.length, this.isPast D start_pos start_time k = true) ∧
      (start_pos = 0 → 0 ≤ this.rate.dwScale ∧ 0 < this.rate.dwRate)

/-- The frame in front of the first one that is at or past the target, or the first frame if there is none in
front of it, or no target. -/
def Selected (D : Doubles) (this : AviPlay) (start_pos start_time : ℤ) (k : ℕ) : Prop :=
  if start_pos ≠ 0 ∨ start_time ≠ 0 then
    ∃ first < this.demux.vindex.length, this.isPast D start_pos start_time first = true ∧
      (∀ j < first, this.isPast D start_pos start_time j = false) ∧ k = first - 1
  else k = 0

/-- A frame is the last keyframe at or before the one that is selected. -/
def Lands (D : Doubles) (this : AviPlay) (start_pos start_time : ℤ) (posf : ℕ) : Prop :=
  ∃ k, this.Selected D start_pos start_time k ∧ LastKeyframe this.demux k posf

/-- Where the search halves a range behind its first frame, at one past the target, both of these are
keyframes, or neither is, or the first one is the first of all. -/
def VideoFits (D : Doubles) (this : AviPlay) (start_pos start_time : ℤ) : Prop :=
  start_pos ≠ 0 ∨ start_time ≠ 0 →
    ∀ r, Reaches (narrowing (this.isPast D start_pos start_time ·)) (0, this.demux.vindex.length - 1) r →
      Closes (this.isPast D start_pos start_time ·) r →
        r.1 = 0 ∨ this.demux.keyframeAt r.1 = this.demux.keyframeAt (r.1 + 1)

/-- The current frame. -/
def atFrame (this : AviPlay) (k : ℕ) : AviPlay := { this with video_posf := k }

@[simp] theorem atFrame_demux : (this.atFrame k).demux = this.demux := rfl

/-! ## The binary search -/

theorem videoCurIndexEntry_atFrame {fuel : ℕ} (h : k < this.demux.vindex.length) :
    (this.atFrame k).videoCurIndexEntry fuel = some (this.atFrame k, this.demux.vindex[k]?) := by
  rw [List.getElem?_eq_getElem h]
  exact @videoCurIndexEntry_of_lt (this.atFrame k) fuel h

/-- A comparison tells whether a frame is past the target. -/
def Compares (this : AviPlay) (cmp : AviPlay → ℕ → Option VideoIndexEntry → Option Bool) (past : ℕ → Bool) :
    Prop :=
  ∀ k < this.demux.vindex.length, cmp (this.atFrame k) k this.demux.vindex[k]? = some (past k)

theorem videoSearch_succ {cmp : AviPlay → ℕ → Option VideoIndexEntry → Option Bool} {past : ℕ → Bool}
    (hcmp : this.Compares cmp past) {r : ℕ × ℕ} (hwide : r.1 + 1 < r.2)
    (hlen : r.2 < this.demux.vindex.length) (vie : Option VideoIndexEntry) (fuel : ℕ) :
    videoSearch cmp (fuel + 1) (this.atFrame k) vie r.1 r.2 =
      videoSearch cmp fuel (this.atFrame (middle r)) this.demux.vindex[middle r]?
        (half (past ·) r).1 (half (past ·) r).2 := by
  obtain ⟨hlow, hhigh⟩ := middle_mem hwide
  have hne : ¬(r.1 + r.2) / 2 = r.1 := hlow.ne'
  have hentry := @videoCurIndexEntry_atFrame _ this fuel (hhigh.trans hlen)
  rw [videoSearch, if_pos (by omega)]
  dsimp only
  rw [if_neg hne]
  change (((this.atFrame (middle r)).videoCurIndexEntry fuel).bind fun found =>
    (cmp found.1 (middle r) found.2).bind fun b =>
      if b = true then videoSearch cmp fuel found.1 found.2 r.1 (middle r)
      else videoSearch cmp fuel found.1 found.2 (middle r) r.2) = _
  rw [hentry, Option.bind_some, hcmp _ (hhigh.trans hlen), Option.bind_some]
  unfold half
  split_ifs <;> rfl

theorem rounds_videoSearch {cmp : AviPlay → ℕ → Option VideoIndexEntry → Option Bool} {past : ℕ → Bool}
    (hlen : m + 1 = this.demux.vindex.length) (hcmp : this.Compares cmp past) :
    Rounds
      (fun fuel s => videoSearch cmp fuel (this.atFrame (s.last.getD 0))
        (s.last.bind (this.demux.vindex[·]?)) s.range.1 s.range.2)
      (look (past ·)) (fun _ => True) (Sided (past ·) m)
      (fun s => (this.atFrame s.range.1, s.last.bind (this.demux.vindex[·]?)))
      (fun s => s.range.2 - s.range.1) where
  fails s _ hok := absurd trivial hok
  stops s hs _ hend fuel := by
    unfold videoSearch
    by_cases hlt : s.range.1 < s.range.2
    · have hnext := look_eq_none_iff.1 hend
      have hcur : (s.range.1 + s.range.2) / 2 = s.range.1 := by omega
      rw [if_pos hlt]
      dsimp only
      rw [if_pos hcur, hcur]
      rfl
    · obtain ⟨hlow, hlast⟩ := hs.single hlt
      rw [if_neg hlt, hlast, hlow]
  goes s hs _ t ht fuel := by
    obtain ⟨hwide, rfl⟩ := look_eq_some_iff.1 ht
    have hinside := hs.inside
    exact videoSearch_succ hcmp hwide (by omega) _ fuel
  keeps s hs t ht := ⟨hs.look ht, look_lt ht⟩

/-! ## The scan back -/

theorem keyframeScan_none : Settles (fun fuel => keyframeScan fuel this none) (some this) :=
  Settles.succ (fun _ => rfl) (Settles.const _)

theorem keyframeScan_stop {vie : VideoIndexEntry} (h : vie.isKeyframe = true ∨ k = 0) :
    Settles (fun fuel => keyframeScan fuel (this.atFrame k) (some vie)) (some (this.atFrame k)) := by
  refine Settles.succ (fun fuel => ?_) (Settles.const _)
  have hstop : ¬(¬vie.isKeyframe = true ∧ k ≠ 0) := fun hgo => h.elim hgo.1 hgo.2
  unfold keyframeScan
  exact if_neg hstop

theorem keyframeScan_back {vie : VideoIndexEntry} (hkey : vie.isKeyframe = false)
    (hk : k < this.demux.vindex.length) {r : Option AviPlay}
    (h : Settles (fun fuel => keyframeScan fuel (this.atFrame k) this.demux.vindex[k]?) r) :
    Settles (fun fuel => keyframeScan fuel (this.atFrame (k + 1)) (some vie)) r := by
  refine Settles.succ (fun fuel => ?_) h
  have hgo : ¬vie.isKeyframe = true ∧ k + 1 ≠ 0 := ⟨Bool.eq_false_iff.1 hkey, Nat.succ_ne_zero k⟩
  have hentry := @videoCurIndexEntry_atFrame k this fuel hk
  rw [keyframeScan]
  refine (if_pos hgo).trans ?_
  change ((this.atFrame k).videoCurIndexEntry fuel).bind (fun found => keyframeScan fuel found.1 found.2) = _
  rw [hentry]
  rfl

theorem keyframeScan_current (hkey : this.demux.keyframeAt 0 = true) (hk : k < this.demux.vindex.length) :
    ∃ last, LastKeyframe this.demux k last ∧
      Settles (fun fuel => keyframeScan fuel (this.atFrame k) this.demux.vindex[k]?)
        (some (this.atFrame last)) := by
  induction k with
  | zero =>
    rw [List.getElem?_eq_getElem hk]
    exact ⟨0, .self hkey, keyframeScan_stop (.inr rfl)⟩
  | succ k ih =>
    have hentry := List.getElem?_eq_getElem hk
    have hat := keyframeAt_eq hentry
    cases hvie : this.demux.vindex[k + 1].isKeyframe with
    | true =>
      rw [hentry]
      exact ⟨k + 1, .self (hat.trans hvie), keyframeScan_stop (.inl hvie)⟩
    | false =>
      have hlt := (Nat.lt_succ_self k).trans hk
      obtain ⟨last, hlast, hsettles⟩ := ih hlt
      rw [hentry]
      exact ⟨last, hlast.succ_iff.2 (hat.trans hvie), keyframeScan_back hvie hlt hsettles⟩

theorem keyframeScan_behind (hkey : this.demux.keyframeAt 0 = true) (hk : k + 1 < this.demux.vindex.length) :
    ∃ posf, Settles (fun fuel => keyframeScan fuel (this.atFrame k) this.demux.vindex[k + 1]?)
        (some (this.atFrame posf)) ∧
      (LastKeyframe this.demux k posf ↔
        k = 0 ∨ this.demux.keyframeAt k = this.demux.keyframeAt (k + 1)) := by
  have hentry := List.getElem?_eq_getElem hk
  have hat := keyframeAt_eq hentry
  rw [hentry]
  cases k with
  | zero => exact ⟨0, keyframeScan_stop (.inr rfl), iff_of_true (.self hkey) (.inl rfl)⟩
  | succ k =>
    have hne : ¬k + 1 = 0 := Nat.succ_ne_zero k
    cases hvie : this.demux.vindex[k + 1 + 1].isKeyframe with
    | true =>
      refine ⟨k + 1, keyframeScan_stop (.inl hvie), ?_⟩
      rw [lastKeyframe_self_iff, hat, hvie, or_iff_right hne]
    | false =>
      -- the scan passes over the current frame
      have hlt : k < this.demux.vindex.length := by omega
      obtain ⟨last, hlast, hsettles⟩ := keyframeScan_current hkey hlt
      refine ⟨last, keyframeScan_back hvie hlt hsettles, ?_⟩
      rw [hlast.succ_iff, hat, hvie, or_iff_right hne]

theorem keyframeScan_search (hkey : this.demux.keyframeAt 0 = true) {past : ℕ → Prop}
    (hlen : m + 1 = this.demux.vindex.length) (hs : Sided past m s)
    (hnext : 0 < m → s.range.2 = s.range.1 + 1) :
    ∃ posf, Settles (fun fuel => keyframeScan fuel (this.atFrame s.range.1)
        (s.last.bind (this.demux.vindex[·]?))) (some (this.atFrame posf)) ∧
      (LastKeyframe this.demux s.range.1 posf ↔ (s.last = some (s.range.1 + 1) →
        s.range.1 = 0 ∨ this.demux.keyframeAt s.range.1 = this.demux.keyframeAt (s.range.1 + 1))) := by
  have hordered := hs.ordered
  have hinside := hs.inside
  -- the entry is that of the current frame, or of the one behind
  have hcurrent (hlast : s.last = some s.range.1) :
      ∃ posf, Settles (fun fuel => keyframeScan fuel (this.atFrame s.range.1)
          (s.last.bind (this.demux.vindex[·]?))) (some (this.atFrame posf)) ∧
        (LastKeyframe this.demux s.range.1 posf ↔ (s.last = some (s.range.1 + 1) →
          s.range.1 = 0 ∨ this.demux.keyframeAt s.range.1 = this.demux.keyframeAt (s.range.1 + 1))) := by
    obtain ⟨posf, hposf, hsettles⟩ := @keyframeScan_current s.range.1 this hkey (by omega)
    rw [hlast]
    refine ⟨posf, hsettles, iff_of_true hposf fun heq => ?_⟩
    exact absurd (Option.some.inj heq).symm (Nat.succ_ne_self _)
  obtain ⟨hnone, hrange⟩ | ⟨hlow, -⟩ | ⟨hhigh, -⟩ := hs.last
  · have hzero : s.range.1 = 0 := congrArg Prod.fst hrange
    rw [hnone, hzero]
    exact ⟨0, keyframeScan_none, iff_of_true (.self hkey) fun heq => absurd heq.symm (Option.some_ne_none _)⟩
  · exact hcurrent hlow
  · by_cases hm : 0 < m
    · have hbehind := hnext hm
      obtain ⟨posf, hsettles, hiff⟩ := @keyframeScan_behind s.range.1 this hkey (by omega)
      rw [hhigh, hbehind]
      exact ⟨posf, hsettles, hiff.trans (imp_iff_right rfl).symm⟩
    · have heq : s.range.2 = s.range.1 := by omega
      exact hcurrent (heq ▸ hhigh)

/-! ## The whole search -/

theorem isPast_mono (h : this.demux.Searchable) (hrange : this.InRange D start_pos start_time)
    (htarget : start_pos ≠ 0 ∨ start_time ≠ 0) {i j : ℕ} (hij : i ≤ j)
    (hj : j < this.demux.vindex.length) (hi : this.isPast D start_pos start_time i = true) :
    this.isPast D start_pos start_time j = true := by
  unfold isPast at hi ⊢
  by_cases hpos : start_pos ≠ 0
  · rw [if_pos hpos] at hi ⊢
    rw [List.getElem?_eq_getElem (hij.trans_lt hj)] at hi
    rw [List.getElem?_eq_getElem hj]
    have hle : this.demux.vindex[i].pos ≤ this.demux.vindex[j].pos := by
      obtain rfl | hlt := hij.eq_or_lt
      · exact le_rfl
      · exact List.pairwise_iff_getElem.1 h.increasing i j _ hj hlt
    exact decide_eq_true ((of_decide_eq_true hi).trans hle)
  · rw [if_neg hpos] at hi ⊢
    obtain ⟨hscale, hrate⟩ := (hrange htarget).2 (not_not.1 hpos)
    exact decide_eq_true ((of_decide_eq_true hi).trans (getVideoPts_mono hscale hrate hij))

theorem compares_pos (hpos : start_pos ≠ 0) :
    this.Compares (posPast start_pos) (this.isPast D start_pos start_time) := by
  intro k hk
  unfold posPast isPast
  rw [if_pos hpos, List.getElem?_eq_getElem hk]
  rfl

theorem compares_time :
    this.Compares (timePast D (start_time * 90)) (this.isPast D 0 start_time) := by
  intro k hk
  unfold timePast isPast
  rw [if_neg (not_not.2 rfl)]
  rfl

theorem selected_iff (h : this.demux.Searchable) (hrange : this.InRange D start_pos start_time)
    (htarget : start_pos ≠ 0 ∨ start_time ≠ 0) (hlen : m + 1 = this.demux.vindex.length)
    (hs : Sided (this.isPast D start_pos start_time ·) m s)
    (hend : look (this.isPast D start_pos start_time ·) s = none) :
    this.Selected D start_pos start_time k ↔ k = s.range.1 := by
  have hpred {first : ℕ} (hfirst : first < this.demux.vindex.length)
      (hpast : this.isPast D start_pos start_time first = true)
      (hnone : ∀ j < first, this.isPast D start_pos start_time j = false) : s.range.1 = first - 1 := by
    refine hs.eq_pred hend (by omega) fun j hj => ⟨fun hj' => ?_, fun hle => ?_⟩
    · by_contra hlt
      exact Bool.false_ne_true ((hnone j (not_le.1 hlt)).symm.trans hj')
    · exact isPast_mono h hrange htarget hle (by omega) hpast
  unfold Selected
  rw [if_pos htarget]
  constructor
  · rintro ⟨first, hfirst, hpast, hnone, rfl⟩
    exact (hpred hfirst hpast hnone).symm
  · rintro rfl
    have hexists : ∃ j, this.isPast D start_pos start_time j = true :=
      (hrange htarget).1.imp fun j hj => hj.2
    obtain ⟨j, hj, hpast⟩ := (hrange htarget).1
    have hfirst := (Nat.find_min' hexists hpast).trans_lt hj
    have hnone : ∀ i < Nat.find hexists, this.isPast D start_pos start_time i = false :=
      fun i hi => Bool.eq_false_iff.2 (Nat.find_min hexists hi)
    exact ⟨_, hfirst, Nat.find_spec hexists, hnone, hpred hfirst (Nat.find_spec hexists) hnone⟩

theorem lands_target_iff (h : this.demux.Searchable) (hrange : this.InRange D start_pos start_time)
    (htarget : start_pos ≠ 0 ∨ start_time ≠ 0)
    {cmp : AviPlay → ℕ → Option VideoIndexEntry → Option Bool}
    (hcmp : this.Compares cmp (this.isPast D start_pos start_time)) :
    ∃ posf, Settles (fun fuel =>
        (videoSearch cmp fuel (this.atFrame 0) none 0 (this.demux.vindex.length - 1)).bind fun found =>
          keyframeScan fuel found.1 found.2) (some (this.atFrame posf)) ∧
      (this.Lands D start_pos start_time posf ↔ this.VideoFits D start_pos start_time) := by
  obtain ⟨m, hlen⟩ : ∃ m, m + 1 = this.demux.vindex.length :=
    ⟨_, Nat.sub_add_cancel (List.length_pos_iff.2 h.nonempty)⟩
  have hm : this.demux.vindex.length - 1 = m := by omega
  obtain ⟨s, hreach, hend, hsearch⟩ :=
    (rounds_videoSearch hlen hcmp).settles Sided.start fun _ _ => trivial
  have hs := Sided.reaches hreach
  obtain ⟨posf, hscan, hiff⟩ := keyframeScan_search h.keyframe hlen hs (hs.next hend)
  refine ⟨posf, ?_, ?_⟩
  · rw [hm]
    refine hsearch.bind (fun hnone => absurd hnone (Option.some_ne_none _)) fun found hfound => ?_
    cases hfound
    exact hscan
  · have hlands : this.Lands D start_pos start_time posf ↔ LastKeyframe this.demux s.range.1 posf := by
      unfold Lands
      simp only [selected_iff h hrange htarget hlen hs hend, exists_eq_left]
    let Alike k := k = 0 ∨ this.demux.keyframeAt k = this.demux.keyframeAt (k + 1)
    have hcloses := forall_closes_iff (P := Alike) hreach hend
    unfold VideoFits
    rw [hlands, hiff, imp_iff_right htarget, hm]
    exact hcloses.symm

theorem seekVideo_settles (h : this.demux.Searchable) (hrange : this.InRange D start_pos start_time) :
    ∃ posf, Settles ((this.atFrame 0).seekVideo D start_pos start_time) (some (this.atFrame posf)) ∧
      (this.Lands D start_pos start_time posf ↔ this.VideoFits D start_pos start_time) := by
  by_cases hpos : start_pos ≠ 0
  · obtain ⟨posf, hsettles, hiff⟩ := lands_target_iff h hrange (.inl hpos) (compares_pos hpos)
    refine ⟨posf, ?_, hiff⟩
    unfold seekVideo
    simp only [if_pos hpos]
    exact hsettles
  obtain rfl := not_not.1 hpos
  by_cases htime : start_time ≠ 0
  · obtain ⟨posf, hsettles, hiff⟩ := lands_target_iff h hrange (.inr htime) compares_time
    refine ⟨posf, ?_, hiff⟩
    unfold seekVideo
    simp only [if_neg hpos, if_pos htime]
    exact hsettles
  · obtain rfl := not_not.1 htime
    refine ⟨0, ?_, ?_⟩
    · unfold seekVideo
      simp only [if_neg hpos]
      exact keyframeScan_none
    · have hnone : ¬((0 : ℤ) ≠ 0 ∨ (0 : ℤ) ≠ 0) := by decide
      refine iff_of_true ⟨0, ?_, .self h.keyframe⟩ fun htarget => absurd htarget hnone
      unfold Selected
      rw [if_neg hnone]

end AviPlay

end Xine.Avi
