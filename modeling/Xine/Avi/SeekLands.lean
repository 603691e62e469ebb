import Xine.Avi.KeyframeSeek
import Xine.Library.Tallies

/-!
# Where the searches for the audio streams land

The binary search of a stream ends in front of the first chunk at or past the time of the video frame. If it has
last looked behind this place, at a chunk that is too late, it takes a step back.
-/

namespace Xine.Avi.AviPlay

open Fuel Narrowing Walks

variable {D : Doubles} {this : AviPlay} {track m k : ℕ} {video_pts audio_pts : ℤ} {s : Search}

/-- The time of a chunk. -/
def trackPts (D : Doubles) (this : AviPlay) (track k : ℕ) : ℤ :=
  match (this.demux.aindex track)[k]? with
  | some aie => this.entryPts D track aie 0
  | none => 0

/-- A stream is at its first chunk, or at one that is not later than the video frame. -/
def TrackLands (D : Doubles) (this : AviPlay) (track : ℕ) (video_pts : ℤ) : Prop :=
  this.audio_posc track = 0 ∨ this.audio_posc track < (this.demux.aindex track).length ∧
    this.trackPts D track (this.audio_posc track) ≤ video_pts

/-- Where the search halves a range behind its first chunk, at one that is later than the video frame, the
chunk before the first one of the range is not later, or it is the first of all. -/
def TrackFits (D : Doubles) (this : AviPlay) (track : ℕ) (video_pts : ℤ) : Prop :=
  ∀ r, Reaches (narrowing (video_pts ≤ this.trackPts D track ·))
      (0, (this.demux.aindex track).length - 1) r →
    Closes (video_pts ≤ this.trackPts D track ·) r → video_pts < this.trackPts D track (r.1 + 1) →
      r.1 ≤ 1 ∨ this.trackPts D track (r.1 - 1) ≤ video_pts

/-! ## The binary search -/

@[simp] theorem setPosc_demux : (this.setPosc track k).demux = this.demux := rfl

@[simp] theorem setPosc_audio_posc : (this.setPosc track k).audio_posc track = k := Function.update_self ..

@[simp] theorem setPosc_setPosc {j : ℕ} : (this.setPosc track j).setPosc track k = this.setPosc track k := by
  unfold setPosc
  rw [Function.update_idem]

theorem setPosc_self (h : this.audio_posc track = k) : this.setPosc track k = this := by
  unfold setPosc
  rw [← h, Function.update_eq_self]

theorem setPosb_self : this.setPosb track (this.audio_posb track) = this := by
  unfold setPosb
  rw [Function.update_eq_self]

theorem audioCurIndexEntry_setPosc {fuel : ℕ} (h : k < (this.demux.aindex track).length) :
    (this.setPosc track k).audioCurIndexEntry fuel track =
      some (this.setPosc track k, some (this.demux.aindex track)[k]) := by
  have hlt : (this.setPosc track k).audio_posc track < (this.demux.aindex track).length := by
    rwa [setPosc_audio_posc]
  have hentry := @audioCurIndexEntry_of_lt (this.setPosc track k) fuel track hlt
  rw [hentry]
  simp only [setPosc_audio_posc, setPosc_demux]

theorem trackPts_eq (h : k < (this.demux.aindex track).length) :
    this.trackPts D track k = this.entryPts D track (this.demux.aindex track)[k] 0 := by
  unfold trackPts
  rw [List.getElem?_eq_getElem h]

theorem audioSearch_succ {r : ℕ × ℕ} (hwide : r.1 + 1 < r.2) (hlen : r.2 < (this.demux.aindex track).length)
    (fuel : ℕ) :
    audioSearch D track video_pts (fuel + 1) (this.setPosc track k) audio_pts r.1 r.2 =
      audioSearch D track video_pts fuel (this.setPosc track (middle r)) (this.trackPts D track (middle r))
        (half (video_pts ≤ this.trackPts D track ·) r).1 (half (video_pts ≤ this.trackPts D track ·) r).2 := by
  obtain ⟨hlow, hhigh⟩ := middle_mem hwide
  have hmiddle : (r.2 + r.1) / 2 = middle r := by
    unfold middle
    rw [Nat.add_comm]
  have hentry := @audioCurIndexEntry_setPosc this track (middle r) fuel (hhigh.trans hlen)
  have hpts : (this.setPosc track (middle r)).entryPts D track (this.demux.aindex track)[middle r] 0 =
      this.trackPts D track (middle r) := (trackPts_eq (hhigh.trans hlen)).symm
  rw [audioSearch, if_pos (by omega)]
  dsimp only
  rw [hmiddle, if_neg hlow.ne', setPosc_setPosc, hentry, Option.bind_eq_bind, Option.bind_some]
  dsimp only
  rw [hpts]
  unfold half
  by_cases hpast : video_pts ≤ this.trackPts D track (middle r)
  · rw [if_pos hpast, if_pos hpast]
  · rw [if_neg hpast, if_neg hpast]

theorem rounds_audioSearch (hlen : (this.demux.aindex track).length - 1 = m) (audio_pts : ℤ) :
    Rounds
      (fun fuel s => audioSearch D track video_pts fuel (this.setPosc track (s.last.getD 0))
        ((s.last.map (this.trackPts D track)).getD audio_pts) s.range.1 s.range.2)
      (look (video_pts ≤ this.trackPts D track ·)) (fun _ => True)
      (Sided (video_pts ≤ this.trackPts D track ·) m)
      (fun s => (this.setPosc track s.range.1, (s.last.map (this.trackPts D track)).getD audio_pts))
      (fun s => s.range.2 - s.range.1) where
  fails s _ hok := absurd trivial hok
  stops s hs _ hend fuel := by
    unfold audioSearch
    by_cases hlt : s.range.1 < s.range.2
    · have hnext := look_eq_none_iff.1 hend
      have hcur : (s.range.2 + s.range.1) / 2 = s.range.1 := by omega
      rw [if_pos hlt]
      dsimp only
      rw [hcur, if_pos rfl, setPosc_setPosc]
    · obtain ⟨hlow, hlast⟩ := hs.single hlt
      rw [if_neg hlt, hlast, hlow]
  goes s hs _ t ht fuel := by
    obtain ⟨hwide, rfl⟩ := look_eq_some_iff.1 ht
    have hinside := hs.inside
    exact audioSearch_succ hwide (by omega) fuel
  keeps s hs t ht := ⟨hs.look ht, look_lt ht⟩

/-- Where the step back leads. -/
def stepped (video_pts audio_pts : ℤ) (k : ℕ) : ℕ := if audio_pts > video_pts ∧ 0 < k then k - 1 else k

theorem stepBack_eq :
    (this.setPosc track k).stepBack track video_pts audio_pts =
      this.setPosc track (stepped video_pts audio_pts k) := by
  unfold stepBack stepped
  rw [setPosc_audio_posc, setPosc_setPosc]
  split_ifs <;> rfl

theorem stepped_le : stepped video_pts audio_pts k ≤ k := by
  unfold stepped
  split_ifs <;> omega

theorem stepped_lands_iff {pts : ℕ → ℤ} (hs : Sided (video_pts ≤ pts ·) m s)
    (hnext : 0 < m → s.range.2 = s.range.1 + 1) :
    (stepped video_pts ((s.last.map pts).getD audio_pts) s.range.1 = 0 ∨
        pts (stepped video_pts ((s.last.map pts).getD audio_pts) s.range.1) ≤ video_pts) ↔
      (s.last = some (s.range.1 + 1) → video_pts < pts (s.range.1 + 1) →
        s.range.1 ≤ 1 ∨ pts (s.range.1 - 1) ≤ video_pts) := by
  have hordered := hs.ordered
  have hinside := hs.inside
  have hlow := hs.low
  generalize hk : s.range.1 = k at *
  -- a search that has last looked at its first place stays there
  have hfirst (hlast : s.last = some k) (hbelow : ¬video_pts ≤ pts k) :
      (stepped video_pts ((s.last.map pts).getD audio_pts) k = 0 ∨
          pts (stepped video_pts ((s.last.map pts).getD audio_pts) k) ≤ video_pts) ↔
        (s.last = some (k + 1) → video_pts < pts (k + 1) → k ≤ 1 ∨ pts (k - 1) ≤ video_pts) := by
    have hstay : stepped video_pts (pts k) k = k := if_neg fun h => hbelow h.1.le
    rw [hlast, Option.map_some, Option.getD_some, hstay]
    exact iff_of_true (.inr (not_le.1 hbelow).le) fun heq => absurd (Option.some.inj heq) (Nat.succ_ne_self k).symm
  obtain ⟨hnone, hrange⟩ | ⟨hlast, hbelow⟩ | ⟨hlast, hpast⟩ := hs.last
  · have hzero : k = 0 := hk.symm.trans (congrArg Prod.fst hrange)
    have hstay : stepped video_pts ((s.last.map pts).getD audio_pts) k = 0 :=
      Nat.eq_zero_of_le_zero (stepped_le.trans hzero.le)
    exact iff_of_true (.inl hstay) fun heq => absurd (hnone.symm.trans heq).symm (Option.some_ne_none _)
  · exact hfirst (hk ▸ hlast) (hk ▸ hbelow)
  · by_cases hm : 0 < m
    · have hbehind := hnext hm
      rw [hbehind] at hlast hpast
      rw [hlast, Option.map_some, Option.getD_some, imp_iff_right rfl]
      unfold stepped
      by_cases hlate : video_pts < pts (k + 1)
      · rw [imp_iff_right hlate]
        by_cases hpos : 0 < k
        · rw [if_pos ⟨hlate, hpos⟩]
          exact or_congr ⟨by omega, by omega⟩ Iff.rfl
        · rw [if_neg fun h => hpos h.2]
          exact iff_of_true (.inl (by omega)) (.inl (by omega))
      · rw [if_neg fun h => hlate h.1]
        refine iff_of_true ?_ fun h => absurd h hlate
        by_cases hzero : k = 0
        · exact .inl hzero
        · exact .inr (not_le.1 (hlow hzero)).le
    · have hzero : k = 0 := by omega
      have hstay : stepped video_pts ((s.last.map pts).getD audio_pts) k = 0 :=
        Nat.eq_zero_of_le_zero (stepped_le.trans hzero.le)
      exact iff_of_true (.inl hstay) fun _ _ => .inl (by omega)

/-! ## The place in an entry -/

theorem setPosb_setPosb {b c : ℤ} : (this.setPosb track b).setPosb track c = this.setPosb track c := by
  unfold setPosb
  rw [Function.update_idem]

theorem posbSearch_settles (aie : AudioIndexEntry) (this : AviPlay) (audio_pts : ℤ) :
    ∃ posb pts, Settles (fun fuel => posbSearch D track video_pts aie fuel this audio_pts)
      (some (this.setPosb track posb, pts)) := by
  -- by induction on the bytes that are left of the entry
  induction hn : (aie.len - this.audio_posb track).toNat generalizing this audio_pts with
  | zero =>
    refine ⟨this.audio_posb track, audio_pts, Settles.succ (fun fuel => ?_) (Settles.const _)⟩
    rw [posbSearch, if_neg (by omega), setPosb_self]
  | succ n ih =>
    have hlt : this.audio_posb track < aie.len := by omega
    by_cases hearly : this.entryPts D track aie (this.audio_posb track) < video_pts
    · have hposb : (this.setPosb track (this.audio_posb track + 1)).audio_posb track =
          this.audio_posb track + 1 := Function.update_self ..
      obtain ⟨posb, pts, hsettles⟩ := ih (this.setPosb track (this.audio_posb track + 1))
        (this.entryPts D track aie (this.audio_posb track)) (by rw [hposb]; omega)
      rw [setPosb_setPosb] at hsettles
      refine ⟨posb, pts, Settles.succ (fun fuel => ?_) hsettles⟩
      rw [posbSearch, if_pos hlt]
      exact if_pos hearly
    · refine ⟨this.audio_posb track, this.entryPts D track aie (this.audio_posb track),
        Settles.succ (fun fuel => ?_) (Settles.const _)⟩
      rw [posbSearch, if_pos hlt, setPosb_self]
      exact if_neg hearly

/-! ## A stream -/

/-- The demuxer has read on. -/
def withDemux (this : AviPlay) (d : DemuxAvi) : AviPlay := { this with demux := d }

/-- The growth of the index of a stream without a chunk. -/
def growTrack (track : ℕ) (d : DemuxAvi) (fuel : ℕ) : Option DemuxAvi :=
  if d.aindex track = [] then (idxGrow (audioPosStopper track 0) fuel d).map Prod.snd else some d

theorem growTrack_stable (track : ℕ) (d : DemuxAvi) : Stable (growTrack track d) := by
  unfold growTrack
  by_cases h : d.aindex track = []
  · simp only [if_pos h]
    exact (idxGrow_stable _ _).map Prod.snd
  · simp only [if_neg h]
    exact Stable.const _

theorem growTrack_extends {d d' : DemuxAvi} {fuel : ℕ} (h : growTrack track d fuel = some d') :
    d.Extends d' := by
  unfold growTrack at h
  split_ifs at h
  · obtain ⟨⟨retval, grown⟩, hgrow, rfl⟩ := Option.map_eq_some_iff.1 h
    exact idxGrow_extends hgrow
  · exact Option.some.inj h ▸ .refl d

theorem audioCurIndexEntry_first (hposc : this.audio_posc track = 0) (hempty : this.demux.aindex track = [])
    (fuel : ℕ) :
    this.audioCurIndexEntry fuel track =
      (idxGrow (audioPosStopper track 0) fuel this.demux).bind fun grown =>
        some (this.withDemux grown.2, if grown.1 < 0 then none else (grown.2.aindex track)[0]?) := by
  unfold audioCurIndexEntry
  dsimp only
  rw [hposc, hempty, List.length_nil, if_pos le_rfl]
  refine congrArg (Option.bind _) (funext fun grown => ?_)
  split_ifs <;> rfl

/-- The rest of the search for a stream, from the entry at its position. -/
def placeIn (D : Doubles) (track : ℕ) (video_pts audio_pts : ℤ) (found : AviPlay × Option AudioIndexEntry)
    (fuel : ℕ) : Option (AviPlay × ℤ) :=
  match found.2 with
  | some aie => posbSearch D track video_pts aie fuel found.1 audio_pts
  | none => some (found.1, audio_pts)

theorem placeIn_settles (audio_pts : ℤ) (found : AviPlay × Option AudioIndexEntry) :
    ∃ posb pts, Settles (placeIn D track video_pts audio_pts found)
      (some (found.1.setPosb track posb, pts)) := by
  obtain ⟨next, aie⟩ := found
  cases aie with
  | none => exact ⟨next.audio_posb track, audio_pts, setPosb_self ▸ Settles.const _⟩
  | some aie => exact posbSearch_settles aie next audio_pts

theorem seekTrack_eq (fuel : ℕ) :
    seekTrack D video_pts fuel (this, audio_pts) track =
      (audioSearch D track video_pts fuel this audio_pts 0 ((this.demux.aindex track).length - 1)).bind
        fun found => ((found.1.stepBack track video_pts found.2).audioCurIndexEntry fuel track).bind
          fun entry => placeIn D track video_pts found.2 entry fuel := rfl

theorem audioSearch_empty (hempty : this.demux.aindex track = []) (audio_pts : ℤ) :
    Settles (fun fuel =>
        audioSearch D track video_pts fuel this audio_pts 0 ((this.demux.aindex track).length - 1))
      (some (this, audio_pts)) := by
  refine Settles.succ (fun fuel => ?_) (Settles.const _)
  rw [audioSearch, hempty]
  exact if_neg (Nat.lt_irrefl 0)

theorem stepBack_first (hposc : this.audio_posc track = 0) :
    this.stepBack track video_pts audio_pts = this := if_neg fun h => h.2.ne' hposc

theorem seekTrack_fails (hposc : this.audio_posc track = 0)
    (hnone : ∀ fuel, growTrack track this.demux fuel = none) (audio_pts : ℤ) :
    Settles (fun fuel => seekTrack D video_pts fuel (this, audio_pts) track) none := by
  have hempty : this.demux.aindex track = [] := by
    by_contra h
    exact Option.some_ne_none _ ((if_neg h).symm.trans (hnone 0))
  have hgrow (fuel : ℕ) : idxGrow (audioPosStopper track 0) fuel this.demux = none :=
    Option.map_eq_none_iff.1 ((if_pos hempty).symm.trans (hnone fuel))
  simp only [seekTrack_eq]
  refine (audioSearch_empty hempty audio_pts).bind (fun h => absurd h (Option.some_ne_none _)) ?_
  intro found hfound
  cases hfound
  simp only [stepBack_first hposc, audioCurIndexEntry_first hposc hempty, hgrow, Option.bind_none]
  exact Settles.const none

theorem seekTrack_settles_empty (hposc : this.audio_posc track = 0)
    (hempty : this.demux.aindex track = []) {d : DemuxAvi}
    (hgrow : Settles (growTrack track this.demux) (some d)) (audio_pts : ℤ) :
    ∃ posb pts, Settles (fun fuel => seekTrack D video_pts fuel (this, audio_pts) track)
      (some ((this.withDemux d).setPosb track posb, pts)) := by
  have hmap : growTrack track this.demux = fun fuel =>
      (idxGrow (audioPosStopper track 0) fuel this.demux).map Prod.snd := funext fun _ => if_pos hempty
  rw [hmap] at hgrow
  obtain ⟨⟨retval, grown⟩, hidx⟩ | hnone := (idxGrow_stable (audioPosStopper track 0)
    this.demux).settles_or_none
  · obtain rfl := Option.some.inj (hgrow.unique (hidx.map Prod.snd))
    obtain ⟨posb, pts, hplace⟩ := @placeIn_settles D track video_pts audio_pts
      (this.withDemux d, if retval < 0 then none else (d.aindex track)[0]?)
    refine ⟨posb, pts, ?_⟩
    simp only [seekTrack_eq]
    refine (audioSearch_empty hempty audio_pts).bind (fun h => absurd h (Option.some_ne_none _)) ?_
    intro found hfound
    cases hfound
    simp only [stepBack_first hposc, audioCurIndexEntry_first hposc hempty, Option.bind_assoc,
      Option.bind_some]
    refine hidx.bind (fun h => absurd h (Option.some_ne_none _)) fun found hfound => ?_
    cases hfound
    exact hplace
  · simp only [hnone, Option.map_none] at hgrow
    exact absurd (hgrow.unique (Settles.const none)) (Option.some_ne_none d)

theorem seekTrack_settles_search (hposc : this.audio_posc track = 0)
    (hne : this.demux.aindex track ≠ []) (audio_pts : ℤ) :
    ∃ posc posb pts, Settles (fun fuel => seekTrack D video_pts fuel (this, audio_pts) track)
        (some ((this.setPosc track posc).setPosb track posb, pts)) ∧
      posc < (this.demux.aindex track).length ∧
      ((posc = 0 ∨ this.trackPts D track posc ≤ video_pts) ↔ this.TrackFits D track video_pts) := by
  obtain ⟨s, hreach, hend, hsearch⟩ :=
    (@rounds_audioSearch D this track _ video_pts rfl audio_pts).settles Sided.start fun _ _ => trivial
  have hs := Sided.reaches hreach
  have hlength := List.length_pos_iff.2 hne
  have hstart : this.setPosc track 0 = this := setPosc_self hposc
  generalize hpts : (s.last.map (this.trackPts D track)).getD audio_pts = pts at *
  have hle : stepped video_pts pts s.range.1 ≤ s.range.1 := stepped_le
  have hlt : stepped video_pts pts s.range.1 < (this.demux.aindex track).length := by
    have hordered := hs.ordered
    have hinside := hs.inside
    omega
  obtain ⟨posb, last, hplace⟩ := @placeIn_settles D track video_pts pts
    (this.setPosc track (stepped video_pts pts s.range.1),
      some (this.demux.aindex track)[stepped video_pts pts s.range.1])
  refine ⟨_, posb, last, ?_, hlt, ?_⟩
  · simp only [seekTrack_eq]
    refine Settles.bind (hstart ▸ hsearch) (fun h => absurd h (Option.some_ne_none _)) fun found hfound => ?_
    cases hfound
    simp only [stepBack_eq, audioCurIndexEntry_setPosc hlt, Option.bind_some]
    exact hplace
  · let Early k := video_pts < this.trackPts D track (k + 1) →
      k ≤ 1 ∨ this.trackPts D track (k - 1) ≤ video_pts
    have hcloses := forall_closes_iff (P := Early) hreach hend
    have hlands := @stepped_lands_iff _ video_pts audio_pts s (this.trackPts D track) hs (hs.next hend)
    rw [hpts] at hlands
    exact hlands.trans hcloses.symm

theorem trackFits_of_empty (hempty : this.demux.aindex track = []) : this.TrackFits D track video_pts := by
  intro r hr hcloses
  obtain ⟨s, hs, rfl⟩ := exists_look hr
  have hinside := (Sided.reaches hs).inside
  have hwide := hcloses.1
  rw [hempty, List.length_nil] at hinside
  omega

theorem seekTrack_settles (hposc : this.audio_posc track = 0) {d : DemuxAvi}
    (hgrow : Settles (growTrack track this.demux) (some d)) (audio_pts : ℤ) :
    ∃ posc posb pts, Settles (fun fuel => seekTrack D video_pts fuel (this, audio_pts) track)
        (some (((this.withDemux d).setPosc track posc).setPosb track posb, pts)) ∧
      (posc = 0 ∨ posc < (this.demux.aindex track).length) ∧
      ((posc = 0 ∨ this.trackPts D track posc ≤ video_pts) ↔ this.TrackFits D track video_pts) := by
  by_cases hempty : this.demux.aindex track = []
  · obtain ⟨posb, pts, hsettles⟩ := @seekTrack_settles_empty D _ _ video_pts hposc hempty _ hgrow audio_pts
    have hstay : (this.withDemux d).setPosc track 0 = this.withDemux d := setPosc_self hposc
    exact ⟨0, posb, pts, hstay.symm ▸ hsettles, .inl rfl,
      iff_of_true (.inl rfl) (trackFits_of_empty hempty)⟩
  · obtain ⟨posc, posb, pts, hsettles, hlt, hiff⟩ :=
      @seekTrack_settles_search D _ _ video_pts hposc hempty audio_pts
    have hsame : growTrack track this.demux = fun _ => some this.demux := funext fun _ => if_neg hempty
    rw [hsame] at hgrow
    obtain rfl := Option.some.inj (hgrow.unique (Settles.const _))
    exact ⟨posc, posb, pts, hsettles, .inr hlt, hiff⟩

end Xine.Avi.AviPlay

/-!
## Where a seek lands

All searches of `demux_avi_seek` behind each other. The index of a stream without a chunk is grown when its turn
comes, which may add to the indexes of the streams behind it.
-/

namespace Xine.Avi.AviPlay

open Fuel Narrowing Walks

variable {D : Doubles} {this : AviPlay} {start_pos start_time video_pts : ℤ} {d e : DemuxAvi} {n track k : ℕ}

/-! ## All streams -/

/-- The demuxer when the turn of a stream comes. -/
def tracksGrown (d : DemuxAvi) (n fuel : ℕ) : Option DemuxAvi :=
  (List.range n).foldlM (fun d track => growTrack track d fuel) d

/-- The searches for some streams. -/
def tracksSought (D : Doubles) (video_pts : ℤ) (this : AviPlay) (n fuel : ℕ) : Option (AviPlay × ℤ) :=
  (List.range n).foldlM (seekTrack D video_pts fuel) (this, 77777777)

theorem tracksGrown_succ (fuel : ℕ) :
    tracksGrown d (n + 1) fuel = (tracksGrown d n fuel).bind fun d => growTrack n d fuel := by
  unfold tracksGrown
  exact Loops.foldlM_range_succ _ d n

theorem tracksSought_succ (fuel : ℕ) :
    tracksSought D video_pts this (n + 1) fuel =
      (tracksSought D video_pts this n fuel).bind fun s => seekTrack D video_pts fuel s n := by
  unfold tracksSought
  exact Loops.foldlM_range_succ _ _ n

theorem tracksGrown_stable (d : DemuxAvi) (n : ℕ) : Stable (tracksGrown d n) := by
  induction n with
  | zero => exact Stable.const (some d)
  | succ n ih =>
    have hsucc : tracksGrown d (n + 1) = fun fuel => (tracksGrown d n fuel).bind fun d => growTrack n d fuel :=
      funext fun fuel => tracksGrown_succ fuel
    rw [hsucc]
    exact ih.bind fun d => growTrack_stable n d

theorem exists_tracksGrown (h : Settles (tracksGrown d (n + 1)) (some e)) :
    ∃ d', Settles (tracksGrown d n) (some d') ∧ Settles (growTrack n d') (some e) := by
  have hsucc : tracksGrown d (n + 1) = fun fuel => (tracksGrown d n fuel).bind fun d => growTrack n d fuel :=
    funext fun fuel => tracksGrown_succ fuel
  rw [hsucc] at h
  exact (tracksGrown_stable d n).exists_settles (fun d => growTrack_stable n d) h

/-- The positions of the audio streams. -/
def withAudio (this : AviPlay) (audio_posc : ℕ → ℕ) (audio_posb : ℕ → ℤ) : AviPlay :=
  { this with audio_posc := audio_posc, audio_posb := audio_posb }

theorem trackPts_extends (h : this.demux.Extends d) (hk : k < (this.demux.aindex track).length) :
    (this.withDemux d).trackPts D track k = this.trackPts D track k := by
  have hentry : (d.aindex track)[k]? = (this.demux.aindex track)[k]? :=
    (List.prefix_iff_getElem?.1 (h.aindex track) k hk).trans (List.getElem?_eq_getElem hk).symm
  unfold trackPts withDemux
  dsimp only
  rw [hentry, List.getElem?_eq_getElem hk]
  unfold entryPts getAudioPts
  dsimp only
  rw [h.align track]

/-- After the searches for some streams: each of these is at a chunk of its index, which is one that it should come
to if and only if it fits when its turn comes. The streams behind are at their first chunk. -/
structure Sought (D : Doubles) (video_pts : ℤ) (this : AviPlay) (n : ℕ) (d : DemuxAvi) (posc : ℕ → ℕ) :
    Prop where
  grown : this.demux.Extends d
  rest : ∀ j, n ≤ j → posc j = 0
  inside : ∀ j < n, posc j = 0 ∨ posc j < (d.aindex j).length
  lands : ∀ j < n, ∀ e, Settles (tracksGrown this.demux j) (some e) →
    ((posc j = 0 ∨ (this.withDemux d).trackPts D j (posc j) ≤ video_pts) ↔
      (this.withDemux e).TrackFits D j video_pts)

theorem Sought.succ {posc : ℕ → ℕ} (h : Sought D video_pts this n d posc)
    (hd : Settles (tracksGrown this.demux n) (some d)) (hextends : d.Extends e) {p : ℕ}
    (hinside : p = 0 ∨ p < (d.aindex n).length)
    (hlands : (p = 0 ∨ (this.withDemux d).trackPts D n p ≤ video_pts) ↔
      (this.withDemux d).TrackFits D n video_pts) :
    Sought D video_pts this (n + 1) e (Function.update posc n p) := by
  -- what is known of a place in the index is known of it in the grown one
  have hgrown (j k : ℕ) (hk : k = 0 ∨ k < (d.aindex j).length) :
      (k = 0 ∨ k < (e.aindex j).length) ∧ ((k = 0 ∨ (this.withDemux e).trackPts D j k ≤ video_pts) ↔
        (k = 0 ∨ (this.withDemux d).trackPts D j k ≤ video_pts)) := by
    obtain rfl | hlt := hk
    · exact ⟨.inl rfl, iff_of_true (.inl rfl) (.inl rfl)⟩
    · have hpts := @trackPts_extends D (this.withDemux d) e j k hextends hlt
      refine ⟨.inr (hlt.trans_le (hextends.aindex j).length_le), or_congr Iff.rfl ?_⟩
      rw [← hpts]
      exact Iff.rfl
  refine ⟨h.grown.trans hextends, fun j hj => ?_, fun j hj => ?_, fun j hj dj hdj => ?_⟩
  · rw [Function.update_of_ne (by omega)]
    exact h.rest j (by omega)
  · obtain hj | rfl := Nat.lt_succ_iff_lt_or_eq.1 hj
    · rw [Function.update_of_ne hj.ne]
      exact (hgrown j _ (h.inside j hj)).1
    · rw [Function.update_self]
      exact (hgrown j p hinside).1
  · obtain hj | rfl := Nat.lt_succ_iff_lt_or_eq.1 hj
    · rw [Function.update_of_ne hj.ne]
      exact (hgrown j _ (h.inside j hj)).2.trans (h.lands j hj dj hdj)
    · obtain rfl := Option.some.inj (hd.unique hdj)
      rw [Function.update_self]
      exact (hgrown j p hinside).2.trans hlands

theorem tracksSought_settles (hposc : ∀ j, this.audio_posc j = 0)
    (hgrow : Settles (tracksGrown this.demux n) (some d)) :
    ∃ posc posb pts, Settles (tracksSought D video_pts this n)
        (some ((this.withDemux d).withAudio posc posb, pts)) ∧ Sought D video_pts this n d posc := by
  induction n generalizing d with
  | zero =>
    obtain rfl := Option.some.inj (hgrow.unique (Settles.const (some this.demux)))
    exact ⟨this.audio_posc, this.audio_posb, 77777777, Settles.const _, .refl _, fun j _ => hposc j,
      fun j hj => absurd hj (Nat.not_lt_zero j), fun j hj => absurd hj (Nat.not_lt_zero j)⟩
  | succ n ih =>
    obtain ⟨d', hd', hone⟩ := exists_tracksGrown hgrow
    obtain ⟨posc, posb, pts, hsettles, hsought⟩ := ih hd'
    obtain ⟨p, b, last, htrack, hinside, hlands⟩ := @seekTrack_settles D
      ((this.withDemux d').withAudio posc posb) n video_pts (hsought.rest n le_rfl) d hone pts
    obtain ⟨fuel, hfuel⟩ := hone
    have hextends := growTrack_extends (hfuel fuel le_rfl)
    refine ⟨Function.update posc n p, Function.update posb n b, last, ?_,
      hsought.succ hd' hextends hinside hlands⟩
    have hsucc : tracksSought D video_pts this (n + 1) = fun fuel =>
        (tracksSought D video_pts this n fuel).bind fun s => seekTrack D video_pts fuel s n :=
      funext fun fuel => tracksSought_succ fuel
    rw [hsucc]
    refine hsettles.bind (fun h => absurd h (Option.some_ne_none _)) fun s hs => ?_
    cases hs
    exact htrack

theorem tracksGrown_or_none (hposc : ∀ j, this.audio_posc j = 0) (n : ℕ) :
    (∃ d, Settles (tracksGrown this.demux n) (some d)) ∨ Settles (tracksSought D video_pts this n) none := by
  induction n with
  | zero => exact .inl ⟨this.demux, Settles.const _⟩
  | succ n ih =>
    have hsucc : tracksSought D video_pts this (n + 1) = fun fuel =>
        (tracksSought D video_pts this n fuel).bind fun s => seekTrack D video_pts fuel s n :=
      funext fun fuel => tracksSought_succ fuel
    have hgrown : tracksGrown this.demux (n + 1) = fun fuel =>
        (tracksGrown this.demux n fuel).bind fun d => growTrack n d fuel :=
      funext fun fuel => tracksGrown_succ fuel
    rw [hsucc, hgrown]
    obtain ⟨d, hd⟩ | hnone := ih
    · obtain ⟨e, he⟩ | hnone := (growTrack_stable n d).settles_or_none
      · refine .inl ⟨e, hd.bind (fun h => absurd h (Option.some_ne_none _)) fun d' hd' => ?_⟩
        cases hd'
        exact he
      · obtain ⟨posc, posb, pts, hsettles, hsought⟩ := @tracksSought_settles D this video_pts d n hposc hd
        refine .inr (hsettles.bind (fun h => absurd h (Option.some_ne_none _)) fun s hs => ?_)
        cases hs
        exact @seekTrack_fails D ((this.withDemux d).withAudio posc posb) n video_pts
          (hsought.rest n le_rfl) hnone pts
    · exact .inr (hnone.bind (fun _ => rfl) fun s hs => absurd hs (Option.some_ne_none s).symm)

theorem exists_tracksGrown_le (h : Settles (tracksGrown d n) (some e)) (hle : k ≤ n) :
    ∃ e', Settles (tracksGrown d k) (some e') := by
  induction n generalizing e with
  | zero => exact ⟨e, Nat.eq_zero_of_le_zero hle ▸ h⟩
  | succ n ih =>
    obtain hle | rfl := Nat.le_succ_iff.1 hle
    · obtain ⟨d', hd', -⟩ := exists_tracksGrown h
      exact ih hd' hle
    · exact ⟨e, h⟩

/-- Each audio stream is at its first chunk, or at one that is not later than the video frame. -/
def AudioLands (D : Doubles) (this : AviPlay) (video_pts : ℤ) : Prop :=
  ∀ track < this.demux.audio.length, this.TrackLands D track video_pts

/-- The growth for the streams without a chunk ends, and each stream fits when its turn comes, unless there is no
audio. -/
def AudioFits (D : Doubles) (this : AviPlay) (video_pts : ℤ) : Prop :=
  this.no_audio = false →
    (∃ d, Settles (tracksGrown this.demux this.demux.audio.length) (some d)) ∧
      ∀ track < this.demux.audio.length, ∀ d, Settles (tracksGrown this.demux track) (some d) →
        (this.withDemux d).TrackFits D track video_pts

theorem seekAudio_eq (hstatus : this.status = .ok) (haudio : this.no_audio = false) :
    this.seekAudio D video_pts = fun fuel =>
      (tracksSought D video_pts this this.demux.audio.length fuel).map Prod.fst := by
  unfold seekAudio
  rw [hstatus, haudio]
  rfl

theorem seekAudio_silent (haudio : this.no_audio = true) :
    this.seekAudio D video_pts = fun _ => some this := by
  unfold seekAudio
  rw [haudio]
  rfl

theorem exists_seekAudio (hstatus : this.status = .ok) (hposc : ∀ j, this.audio_posc j = 0)
    (hfits : this.AudioFits D video_pts) : ∃ r, Settles (this.seekAudio D video_pts) (some r) := by
  cases haudio : this.no_audio with
  | true => exact ⟨this, seekAudio_silent haudio ▸ Settles.const _⟩
  | false =>
    obtain ⟨⟨d, hd⟩, -⟩ := hfits haudio
    obtain ⟨posc, posb, pts, hsettles, -⟩ := tracksSought_settles hposc hd
    rw [seekAudio_eq hstatus haudio]
    exact ⟨_, hsettles.map Prod.fst⟩

theorem seekAudio_spec (hstatus : this.status = .ok) (hposc : ∀ j, this.audio_posc j = 0) {r : AviPlay}
    (h : Settles (this.seekAudio D video_pts) (some r)) :
    r.video_posf = this.video_posf ∧ r.rate = this.rate ∧
      (r.AudioLands D video_pts ↔ this.AudioFits D video_pts) := by
  cases haudio : this.no_audio with
  | true =>
    rw [seekAudio_silent haudio] at h
    obtain rfl := Option.some.inj (h.unique (Settles.const _))
    refine ⟨rfl, rfl, iff_of_true (fun track _ => .inl (hposc track)) fun hfalse => ?_⟩
    exact absurd (haudio.symm.trans hfalse) Bool.false_ne_true.symm
  | false =>
    rw [seekAudio_eq hstatus haudio] at h
    obtain ⟨d, hd⟩ | hnone := @tracksGrown_or_none D this video_pts hposc this.demux.audio.length
    · obtain ⟨posc, posb, pts, hsettles, hsought⟩ := tracksSought_settles hposc hd
      obtain rfl := Option.some.inj (h.unique (hsettles.map Prod.fst))
      have hlength : d.audio.length = this.demux.audio.length := hsought.grown.length_audio
      refine ⟨rfl, rfl, ?_⟩
      unfold AudioFits
      rw [imp_iff_right haudio, and_iff_right ⟨d, hd⟩]
      constructor
      · intro hlands track htrack e he
        refine (hsought.lands track htrack e he).1 ?_
        exact (hlands track (hlength.symm ▸ htrack)).imp_right And.right
      · intro hfits track htrack
        have htrack : track < this.demux.audio.length := hlength ▸ htrack
        obtain ⟨e, he⟩ := exists_tracksGrown_le hd htrack.le
        have hposition := (hsought.lands track htrack e he).2 (hfits track htrack e he)
        obtain hzero | hlt := hsought.inside track htrack
        · exact .inl hzero
        · exact hposition.imp_right fun hpts => ⟨hlt, hpts⟩
    · exact absurd (h.unique (hnone.map Prod.fst)) (Option.some_ne_none r)

/-! ## The whole seek -/

/-- At the start of a seek the positions are the first ones. -/
def started (this : AviPlay) : AviPlay := aviSeekStart { this with status := .ok }

/-- A seek comes to an end. The video frame is the last keyframe at or before the one that the search selects in
the index, which has been grown for the target, and no audio stream is later than it, unless at its first chunk. -/
def Seeks (D : Doubles) (this : AviPlay) (start_pos start_time : ℤ) : Prop :=
  ∃ grown r, Settles (this.started.growForStart D start_pos start_time) (some grown) ∧
    Settles (this.demuxAviSeek D start_pos start_time) (some r) ∧
      grown.Lands D start_pos start_time r.video_posf ∧ r.AudioLands D (r.getVideoPts D r.video_posf)

/-- The growth of the index for the target ends, the search for the frame closes between two that are alike, and
those for the audio streams fit. -/
def SeekFits (D : Doubles) (this : AviPlay) (start_pos start_time : ℤ) : Prop :=
  ∃ grown, Settles (this.started.growForStart D start_pos start_time) (some grown) ∧
    grown.VideoFits D start_pos start_time ∧
      ∀ last, grown.Lands D start_pos start_time last → grown.AudioFits D (grown.getVideoPts D last)

theorem lastKeyframe_unique {j : ℕ} (h : LastKeyframe d k n) (h' : LastKeyframe d k j) : n = j := by
  obtain ⟨hle, hkey, hnone⟩ := h
  obtain ⟨hle', hkey', hnone'⟩ := h'
  obtain hlt | rfl | hlt := Nat.lt_trichotomy n j
  · exact absurd (hkey'.symm.trans (hnone j hlt hle')) Bool.false_ne_true.symm
  · rfl
  · exact absurd (hkey.symm.trans (hnone' n hlt hle)) Bool.false_ne_true.symm

theorem selected_unique {j : ℕ} (h : this.Selected D start_pos start_time k)
    (h' : this.Selected D start_pos start_time j) : k = j := by
  unfold Selected at h h'
  split_ifs at h h'
  · obtain ⟨first, -, hpast, hnone, rfl⟩ := h
    obtain ⟨first', -, hpast', hnone', rfl⟩ := h'
    obtain hlt | rfl | hlt := Nat.lt_trichotomy first first'
    · exact absurd (hpast.symm.trans (hnone' first hlt)) Bool.false_ne_true.symm
    · rfl
    · exact absurd (hpast'.symm.trans (hnone first' hlt)) Bool.false_ne_true.symm
  · exact h.trans h'.symm

theorem lands_unique {j : ℕ} (h : this.Lands D start_pos start_time k)
    (h' : this.Lands D start_pos start_time j) : k = j := by
  obtain ⟨i, hi, hk⟩ := h
  obtain ⟨i', hi', hj⟩ := h'
  obtain rfl := selected_unique hi hi'
  exact lastKeyframe_unique hk hj

theorem growForStart_eq {grown : AviPlay} {fuel : ℕ}
    (h : this.growForStart D start_pos start_time fuel = some grown) : grown = this.withDemux grown.demux := by
  unfold growForStart at h
  split_ifs at h
  · obtain ⟨found, -, rfl⟩ := Option.map_eq_some_iff.1 h
    rfl
  · obtain ⟨pts, -, h⟩ := Option.bind_eq_some_iff.1 h
    obtain ⟨found, -, rfl⟩ := Option.map_eq_some_iff.1 h
    rfl
  · exact Option.some.inj h ▸ rfl

theorem demuxAviSeek_eq (hstreaming : this.streaming = false) :
    this.demuxAviSeek D start_pos start_time = fun fuel =>
      (this.started.growForStart D start_pos start_time fuel).bind fun grown =>
        if (start_pos ≠ 0 ∨ start_time ≠ 0) ∧ grown.demux.vindex = [] then
          some { grown with status := .finished }
        else
          (grown.seekVideo D start_pos start_time fuel).bind fun next =>
            next.seekAudio D (next.getVideoPts D next.video_posf) fuel := by
  have hgo : ¬this.streaming = true := Bool.eq_false_iff.1 hstreaming
  funext fuel
  unfold demuxAviSeek
  exact if_neg hgo

/-- For an index that can be searched, and a target in range, a seek lands where it should if and only if the
growth of the indexes ends, and the searches close between places that do no harm. -/
theorem demuxAviSeek_lands_iff (D : Doubles) (this : AviPlay) (start_pos start_time : ℤ)
    (hstreaming : this.streaming = false)
    (hindex : ∀ grown, Settles (this.started.growForStart D start_pos start_time) (some grown) →
      grown.demux.Searchable ∧ grown.InRange D start_pos start_time) :
    this.Seeks D start_pos start_time ↔ this.SeekFits D start_pos start_time := by
  unfold Seeks SeekFits
  rw [demuxAviSeek_eq hstreaming]
  -- behind the growth there are the search for the frame and those for the streams
  have hrest {grown : AviPlay}
      (hgrown : Settles (this.started.growForStart D start_pos start_time) (some grown)) :
      ∃ posf, Settles (grown.seekVideo D start_pos start_time) (some (grown.atFrame posf)) ∧
        (grown.Lands D start_pos start_time posf ↔ grown.VideoFits D start_pos start_time) ∧
        grown.status = .ok ∧ (∀ j, grown.audio_posc j = 0) ∧ grown.demux.vindex ≠ [] := by
    obtain ⟨hsearchable, hrange⟩ := hindex grown hgrown
    obtain ⟨fuel, hfuel⟩ := hgrown
    have heq := growForStart_eq (hfuel fuel le_rfl)
    obtain ⟨posf, hvideo, hiff⟩ := seekVideo_settles hsearchable hrange
    have hfirst : grown.atFrame 0 = grown := by
      rw [heq]
      rfl
    rw [hfirst] at hvideo
    exact ⟨posf, hvideo, hiff, heq ▸ rfl, fun j => heq ▸ rfl, hsearchable.nonempty⟩
  constructor
  · rintro ⟨grown, r, hgrown, hseek, hlands, haudio⟩
    obtain ⟨posf, hvideo, hiff, hstatus, hposc, hne⟩ := hrest hgrown
    have hsearch := hgrown.of_bind hseek
    simp only [hne, and_false, if_false] at hsearch
    obtain ⟨hposf, hrate, haudio'⟩ := @seekAudio_spec D (grown.atFrame posf) _ hstatus hposc r
      (hvideo.of_bind hsearch)
    have hposf : r.video_posf = posf := hposf
    have hpts : r.getVideoPts D r.video_posf = grown.getVideoPts D posf := by
      unfold getVideoPts
      rw [hrate, hposf]
      rfl
    rw [hposf] at hlands
    refine ⟨grown, hgrown, hiff.1 hlands, fun last hlast => ?_⟩
    obtain rfl := lands_unique hlands hlast
    rw [hpts] at haudio
    exact haudio'.1 haudio
  · rintro ⟨grown, hgrown, hfits, haudio⟩
    obtain ⟨posf, hvideo, hiff, hstatus, hposc, hne⟩ := hrest hgrown
    have hlands := hiff.2 hfits
    have hfits' := haudio posf hlands
    obtain ⟨r, hr⟩ := @exists_seekAudio D (grown.atFrame posf) _ hstatus hposc hfits'
    obtain ⟨hposf, hrate, haudio'⟩ := @seekAudio_spec D (grown.atFrame posf) _ hstatus hposc r hr
    have hposf : r.video_posf = posf := hposf
    have hpts : r.getVideoPts D r.video_posf = grown.getVideoPts D posf := by
      unfold getVideoPts
      rw [hrate, hposf]
      rfl
    refine ⟨grown, r, hgrown, ?_, hposf.symm ▸ hlands, hpts.symm ▸ haudio'.2 hfits'⟩
    refine hgrown.bind (fun h => absurd h (Option.some_ne_none _)) fun found hfound => ?_
    cases hfound
    simp only [hne, and_false, if_false]
    refine hvideo.bind (fun h => absurd h (Option.some_ne_none _)) fun found hfound => ?_
    cases hfound
    exact hr

/-- A film of five frames, every other one of which is a keyframe. -/
def reel : AviPlay where
  demux := {
    input := ⟨[], 0⟩
    nexttagoffset := 0
    video_tag := (48, 48)
    video_type := .other
    vindex := [⟨10, 10, 16⟩, ⟨20, 10, 0⟩, ⟨30, 10, 16⟩, ⟨40, 10, 0⟩, ⟨50, 10, 16⟩]
    audio := [] }
  streaming := false
  no_audio := false
  status := .ok
  rate := ⟨0, 1, 25⟩
  audio_rate _ := ⟨0, 1, 1⟩
  video_posf := 0
  video_posb := 0
  audio_posc _ := 0
  audio_posb _ := 0

theorem reel_searchable : reel.demux.Searchable := ⟨by decide, by decide, by decide⟩

theorem reel_inRange : reel.InRange Doubles.exact 35 0 :=
  fun _ => ⟨⟨3, by decide, by decide⟩, fun h => absurd h (by decide)⟩

theorem demuxAviSeek_lands_iff_reel :
    reel.streaming = false ∧ (reel.Seeks Doubles.exact 35 0 ↔ reel.SeekFits Doubles.exact 35 0) := by
  have hidx : idxGrow (startPosStopper 35) 1 reel.demux = some (1, reel.demux) := by decide
  have hgrow : Settles (reel.started.growForStart Doubles.exact 35 0) (some reel.started) :=
    ((idxGrow_stable _ _).settles hidx).map fun grown : ℤ × DemuxAvi => reel.started.withDemux grown.2
  refine ⟨rfl, demuxAviSeek_lands_iff Doubles.exact reel 35 0 rfl fun grown h => ?_⟩
  obtain rfl := Option.some.inj (h.unique hgrow)
  exact ⟨reel_searchable, reel_inRange⟩

/-- The frame in front of position 35 is a keyframe, but the seek comes to the first one. -/
theorem demuxAviSeek_not_lands :
    reel.demux.Searchable ∧ reel.InRange Doubles.exact 35 0 ∧
      (reel.demuxAviSeek Doubles.exact 35 0 8).map AviPlay.video_posf = some 0 ∧
        reel.Selected Doubles.exact 35 0 2 ∧ LastKeyframe reel.demux 2 2 ∧
          ¬reel.Lands Doubles.exact 35 0 0 := by
  have hselected : reel.Selected Doubles.exact 35 0 2 := ⟨3, by decide, by decide, by decide, rfl⟩
  have hlast : LastKeyframe reel.demux 2 2 := .self (by decide)
  refine ⟨reel_searchable, reel_inRange, by decide, hselected, hlast, fun hlands => ?_⟩
  exact absurd (lands_unique hlands ⟨2, hselected, hlast⟩) (by decide)

end Xine.Avi.AviPlay
