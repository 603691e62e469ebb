import Xine.Qt.SendChunk

/-!
# The durations of frames

The time that is borrowed for frames without a duration of their own is paid back with the next one that has one.
-/

namespace Xine.Qt

open Runs

variable {t : FrameTable} {this that : DemuxQt} {trak : PlayTrak} {i j : ℕ} {start_pos start_time : ℤ}
  {rounds : ℕ}

/-- The time of a frame. -/
def FrameTable.pts (t : FrameTable) (i : ℕ) : ℤ := t.key QtFrame.pts i

/-- The time of a frame is not that of the frame before it. -/
def FrameTable.Differs (t : FrameTable) (i : ℕ) : Prop := i = 0 ∨ t.pts (i - 1) ≠ t.pts i

/-- The times do not go back. -/
def FrameTable.Ordered (t : FrameTable) : Prop := ∀ i, i + 1 < t.frame_count → t.pts i ≤ t.pts (i + 1)

/-- The durations of consecutive frames add up to the difference of the times of the first and of the next one
behind them, if both differ from the frames before them. -/
def AddUp (t : FrameTable) (sent : List Sent) : Prop :=
  ∀ before part behind i, sent = before ++ part ++ behind → part ≠ [] →
    part.map Sent.frame = List.range' i part.length → i + part.length < t.frame_count → t.Differs i →
      t.Differs (i + part.length) → (part.map Sent.frame_duration).sum = t.pts (i + part.length) - t.pts i

/-- The durations are positive and add up. -/
def DurationsRight (t : FrameTable) (sent : List Sent) : Prop :=
  (∀ s ∈ sent, 0 < s.frame_duration) ∧ AddUp t sent

/-- The frame can be sent with its duration: the time that is owed is less than what there is up to the next frame,
which is the time of an `int`, and none is owed if the frame differs from the one before it. -/
structure FrameFits (t : FrameTable) (edit_list_compensation : ℤ) (i : ℕ) : Prop where
  next : i + 1 < t.frame_count → t.pts (i + 1) - t.pts i < 2 ^ 31
  counts : i + 1 < t.frame_count → t.pts i = t.pts (i + 1) → edit_list_compensation + 1 < 2 ^ 31
  pays : i + 1 < t.frame_count → t.pts i ≠ t.pts (i + 1) → edit_list_compensation < t.pts (i + 1) - t.pts i
  last : i + 1 = t.frame_count → edit_list_compensation < 12000
  clean : t.Differs i → edit_list_compensation = 0

/-- The next call sends the current frame of the video trak. -/
def DemuxQt.Sends (this : DemuxQt) (trak : PlayTrak) : Prop :=
  this.chosen_reference = none ∧ DemuxQt.dispatchAudio this.video_trak this.audio_trak = some (some false) ∧
    this.video_trak = some trak

/-- The condition on a call. -/
def QtCall.Fits (this : DemuxQt) : QtCall → Prop
  | .seek .. => True
  | .sendChunk => ∀ trak, this.Sends trak → ∀ frame, trak.currentFrame = some frame →
    frame.media_id = trak.media_id → FrameFits trak.table this.edit_list_compensation trak.current_frame

/-! ## What a call does -/

/-- The video trak and what has been sent stay as they are, but for the current frame. -/
structure Keeps (this that : DemuxQt) : Prop where
  table : that.video_trak.map PlayTrak.table = this.video_trak.map PlayTrak.table
  edit_list_compensation : that.edit_list_compensation = this.edit_list_compensation
  sent : that.sent = this.sent

theorem Keeps.refl (this : DemuxQt) : Keeps this this := ⟨rfl, rfl, rfl⟩

theorem seekTrak_table {found : PlayTrak}
    (h : DemuxQt.seekTrak trak start_pos start_time rounds = some (some found)) : found.table = trak.table := by
  unfold DemuxQt.seekTrak at h
  obtain ⟨sought, -, h⟩ := Option.bind_eq_some_iff.1 h
  cases sought with
  | finished => exact absurd (Option.some.inj h).symm (Option.some_ne_none found)
  | ok current_frame =>
    obtain rfl := Option.some.inj (Option.some.inj h)
    rfl

theorem seekBack_keeps (h : this.seekBack = some that) : Keeps this that := by
  unfold DemuxQt.seekBack at h
  cases hvideo : this.video_trak with
  | none =>
    simp only [hvideo] at h
    cases h
    exact .refl _
  | some video_trak =>
    simp only [hvideo] at h
    obtain ⟨key, -, h⟩ := Option.bind_eq_some_iff.1 h
    cases haudio : this.audio_trak with
    | none =>
      simp only [haudio] at h
      cases h
      exact ⟨by rw [hvideo]; rfl, rfl, rfl⟩
    | some audio_trak =>
      simp only [haudio] at h
      obtain ⟨frame, -, h⟩ := Option.bind_eq_some_iff.1 h
      obtain ⟨before, -, h⟩ := Option.bind_eq_some_iff.1 h
      cases h
      exact ⟨by rw [hvideo]; rfl, rfl, rfl⟩

theorem seekAudio_keeps (h : this.seekAudio start_pos start_time rounds = some that) : Keeps this that := by
  unfold DemuxQt.seekAudio at h
  cases haudio : this.audio_trak with
  | none =>
    simp only [haudio] at h
    obtain ⟨back, hback, h⟩ := Option.bind_eq_some_iff.1 h
    cases h
    obtain ⟨htable, howed, hsent⟩ := seekBack_keeps hback
    exact ⟨htable, howed, hsent⟩
  | some audio_trak =>
    simp only [haudio] at h
    obtain ⟨found, -, h⟩ := Option.bind_eq_some_iff.1 h
    cases found with
    | none =>
      cases h
      exact ⟨rfl, rfl, rfl⟩
    | some found =>
      obtain ⟨back, hback, h⟩ := Option.bind_eq_some_iff.1 h
      cases h
      obtain ⟨htable, howed, hsent⟩ := seekBack_keeps hback
      exact ⟨htable, howed, hsent⟩

theorem seek_keeps (h : this.seek start_pos start_time rounds = some that) : Keeps this that := by
  unfold DemuxQt.seek at h
  split_ifs at h
  · cases h
    exact ⟨rfl, rfl, rfl⟩
  · cases hvideo : this.video_trak with
    | none =>
      simp only [hvideo] at h
      exact seekAudio_keeps h
    | some video_trak =>
      simp only [hvideo] at h
      obtain ⟨found, hfound, h⟩ := Option.bind_eq_some_iff.1 h
      cases found with
      | none =>
        cases h
        exact ⟨by rw [hvideo], rfl, rfl⟩
      | some found =>
        obtain ⟨htable, howed, hsent⟩ := seekAudio_keeps h
        refine ⟨?_, howed, hsent⟩
        rw [htable, hvideo]
        exact congrArg some (seekTrak_table hfound)

/-- A call that sends a frame of the video trak sends it with its duration if it has the media id in use. -/
structure SendsFrame (this that : DemuxQt) (trak : PlayTrak) (frame_duration : ℤ) : Prop where
  frame : ∃ frame, trak.currentFrame = some frame ∧ frame.media_id = trak.media_id
  duration : trak.frameDuration trak.current_frame = some frame_duration
  table : that.video_trak.map PlayTrak.table = some trak.table
  edit_list_compensation : that.edit_list_compensation =
    (DemuxQt.compensate frame_duration this.edit_list_compensation).2
  sent : that.sent = this.sent ++
    [⟨trak.current_frame, (DemuxQt.compensate frame_duration this.edit_list_compensation).1⟩]

theorem sendVideo_cases (hvideo : this.video_trak = some trak) (h : this.sendVideo trak = some that) :
    Keeps this that ∨ ∃ frame_duration, SendsFrame this that trak frame_duration := by
  obtain ⟨frame, hframe, h⟩ := Option.bind_eq_some_iff.1 h
  dsimp only at h
  split_ifs at h with hmedia
  · cases h
    exact .inl ⟨by rw [hvideo]; rfl, rfl, rfl⟩
  · obtain ⟨frame_duration, hduration, h⟩ := Option.bind_eq_some_iff.1 h
    cases h
    exact .inr ⟨frame_duration, ⟨frame, hframe, not_not.1 hmedia⟩, hduration, rfl, rfl, rfl⟩

theorem dispatch_cases (h : this.dispatch = some that) :
    Keeps this that ∨ ∃ trak frame_duration, DemuxQt.dispatchAudio this.video_trak this.audio_trak =
      some (some false) ∧ this.video_trak = some trak ∧ SendsFrame this that trak frame_duration := by
  obtain ⟨choice, hchoice, h⟩ := Option.bind_eq_some_iff.1 h
  match choice with
  | none =>
    cases h
    exact .inl ⟨rfl, rfl, rfl⟩
  | some true =>
    obtain ⟨audio_trak, -, h⟩ := Option.bind_eq_some_iff.1 h
    cases h
    exact .inl ⟨rfl, rfl, rfl⟩
  | some false =>
    obtain ⟨trak, hvideo, h⟩ := Option.bind_eq_some_iff.1 h
    obtain hkeeps | ⟨frame_duration, hsends⟩ := sendVideo_cases hvideo h
    · exact .inl hkeeps
    · exact .inr ⟨trak, frame_duration, hchoice, hvideo, hsends⟩

theorem sendChunk_cases (h : this.sendChunk = some that) :
    Keeps this that ∨ ∃ trak frame_duration, this.Sends trak ∧ SendsFrame this that trak frame_duration := by
  unfold DemuxQt.sendChunk at h
  by_cases href : this.chosen_reference.isSome
  · rw [if_pos href] at h
    cases h
    exact .inl ⟨rfl, rfl, rfl⟩
  · rw [if_neg href] at h
    have href : this.chosen_reference = none := Option.not_isSome_iff_eq_none.1 href
    cases hor : this.audio_trak.or this.video_trak with
    | none =>
      simp only [hor] at h
      cases h
      exact .inl ⟨rfl, rfl, rfl⟩
    | some first =>
      simp only [hor] at h
      split_ifs at h
      · obtain ⟨frame, -, h⟩ := Option.bind_eq_some_iff.1 h
        obtain ⟨htable, howed, hsent⟩ | ⟨trak, frame_duration, hchoice, hvideo, hsends⟩ := dispatch_cases h
        · exact .inl ⟨htable, howed, hsent⟩
        · obtain ⟨hframe, hduration, htable, howed, hsent⟩ := hsends
          exact .inr ⟨trak, frame_duration, ⟨href, hchoice, hvideo⟩, hframe, hduration, htable, howed, hsent⟩
      · obtain hkeeps | ⟨trak, frame_duration, hchoice, hvideo, hsends⟩ := dispatch_cases h
        · exact .inl hkeeps
        · exact .inr ⟨trak, frame_duration, ⟨href, hchoice, hvideo⟩, hsends⟩

/-! ## Borrowed time -/

theorem pts_of_frame {frame : QtFrame} (h : t.frames[i]? = some frame) : t.pts i = frame.pts := by
  unfold FrameTable.pts FrameTable.key
  rw [h]
  rfl

theorem frameDuration_eq {frame_duration : ℤ} (hordered : trak.table.Ordered) (hi : i + 1 < trak.table.frame_count)
    (hlt : trak.table.pts (i + 1) - trak.table.pts i < 2 ^ 31) (h : trak.frameDuration i = some frame_duration) :
    frame_duration = trak.table.pts (i + 1) - trak.table.pts i := by
  unfold PlayTrak.frameDuration at h
  rw [if_pos hi] at h
  obtain ⟨next, hnext, h⟩ := Option.bind_eq_some_iff.1 h
  obtain ⟨frame, hframe, h⟩ := Option.bind_eq_some_iff.1 h
  have hle := hordered i hi
  rw [pts_of_frame hnext, pts_of_frame hframe] at hlt hle ⊢
  cases h
  unfold toInt
  rw [Int.bmod_sub_bmod, Int.bmod_eq_of_le (by omega) (by omega)]

theorem compensate_spec {owed frame_duration : ℤ} (hordered : trak.table.Ordered) (howed : 0 ≤ owed)
    (hi : i + 1 < trak.table.frame_count) (hfits : FrameFits trak.table owed i)
    (h : trak.frameDuration i = some frame_duration) :
    0 < (DemuxQt.compensate frame_duration owed).1 ∧ 0 ≤ (DemuxQt.compensate frame_duration owed).2 ∧
      (DemuxQt.compensate frame_duration owed).1 =
        trak.table.pts (i + 1) - trak.table.pts i + (DemuxQt.compensate frame_duration owed).2 - owed ∧
      (trak.table.pts i ≠ trak.table.pts (i + 1) → (DemuxQt.compensate frame_duration owed).2 = 0) := by
  have hlt := hfits.next hi
  have hle := hordered i hi
  obtain rfl := frameDuration_eq hordered hi hlt h
  unfold DemuxQt.compensate toInt
  by_cases hzero : trak.table.pts (i + 1) - trak.table.pts i = 0
  · have hcounts := hfits.counts hi (by omega)
    rw [if_pos hzero, Int.bmod_eq_of_le (by omega) (by omega)]
    dsimp only
    omega
  · have hpays := hfits.pays hi (by omega)
    rw [if_neg hzero, Int.bmod_eq_of_le (by omega) (by omega)]
    dsimp only
    omega

theorem compensate_last {owed frame_duration : ℤ} (howed : 0 ≤ owed) (hi : i + 1 = trak.table.frame_count)
    (hfits : FrameFits trak.table owed i) (h : trak.frameDuration i = some frame_duration) :
    0 < (DemuxQt.compensate frame_duration owed).1 ∧ 0 ≤ (DemuxQt.compensate frame_duration owed).2 := by
  have hlast := hfits.last hi
  unfold PlayTrak.frameDuration at h
  rw [if_neg (by omega)] at h
  cases h
  unfold DemuxQt.compensate toInt
  rw [if_neg (by decide), Int.bmod_eq_of_le (by omega) (by omega)]
  exact ⟨by dsimp only; omega, le_rfl⟩

/-- What has been sent is right, but for what is owed. -/
structure Lent (t : FrameTable) (this : DemuxQt) : Prop where
  table : this.video_trak.map PlayTrak.table = some t
  nonneg : 0 ≤ this.edit_list_compensation
  right : DurationsRight t this.sent
  lent : ∀ before part i, this.sent = before ++ part → part ≠ [] →
    part.map Sent.frame = List.range' i part.length → i + part.length < t.frame_count → t.Differs i →
      (part.map Sent.frame_duration).sum = t.pts (i + part.length) - t.pts i + this.edit_list_compensation

theorem Lent.keeps (h : Lent t this) (hkeeps : Keeps this that) : Lent t that where
  table := hkeeps.table.trans h.table
  nonneg := hkeeps.edit_list_compensation ▸ h.nonneg
  right := hkeeps.sent ▸ h.right
  lent := by
    rw [hkeeps.sent, hkeeps.edit_list_compensation]
    exact h.lent

theorem part_concat {sent before part : List Sent} {x : Sent} (h : sent ++ [x] = before ++ part) (hne : part ≠ [])
    (hpart : part.map Sent.frame = List.range' i part.length) :
    ∃ front, part = front ++ [x] ∧ sent = before ++ front ∧
      front.map Sent.frame = List.range' i front.length ∧ x.frame = i + front.length := by
  obtain rfl | ⟨front, last, rfl⟩ := List.eq_nil_or_concat part
  · exact absurd rfl hne
  · rw [List.concat_eq_append, ← List.append_assoc] at h
    obtain ⟨rfl, hlast⟩ := List.append_inj' h rfl
    obtain rfl := List.singleton_inj.1 hlast
    rw [List.concat_eq_append, List.map_append, List.length_append, List.length_singleton,
      List.range'_1_concat] at hpart
    obtain ⟨hfront, hframe⟩ := List.append_inj' hpart rfl
    exact ⟨front, List.concat_eq_append .., rfl, hfront, List.singleton_inj.1 hframe⟩

theorem Lent.sends (h : Lent t this) (hordered : t.Ordered) {frame_duration : ℤ} (htrak : this.Sends trak)
    (hsends : SendsFrame this that trak frame_duration)
    (hfits : FrameFits trak.table this.edit_list_compensation trak.current_frame) : Lent t that := by
  obtain ⟨⟨frame, hframe, -⟩, hduration, htable, howed, hsent⟩ := hsends
  obtain rfl : trak.table = t := by
    have hvideo := h.table
    rw [htrak.2.2] at hvideo
    exact Option.some.inj hvideo
  have hcurrent : trak.current_frame < trak.table.frame_count := (List.getElem?_eq_some_iff.1 hframe).1
  -- with what is sent the last frames are paid for, but for what is owed then
  have hlent (before part : List Sent) (i : ℕ) (hall : that.sent = before ++ part) (hne : part ≠ [])
      (hpart : part.map Sent.frame = List.range' i part.length)
      (hend : i + part.length < trak.table.frame_count) (hclean : trak.table.Differs i) :
      (part.map Sent.frame_duration).sum =
          trak.table.pts (i + part.length) - trak.table.pts i + that.edit_list_compensation ∧
        (trak.table.Differs (i + part.length) → that.edit_list_compensation = 0) := by
    obtain ⟨front, rfl, hbefore, hfront, hlast⟩ := part_concat (hsent ▸ hall) hne hpart
    dsimp only at hlast
    rw [List.length_append, List.length_singleton, ← Nat.add_assoc, ← hlast] at hend ⊢
    obtain ⟨-, -, hpaid, hback⟩ := compensate_spec hordered h.nonneg hend hfits hduration
    rw [List.map_append, List.sum_append, List.map_singleton, List.sum_singleton, howed]
    dsimp only
    rw [hpaid]
    refine ⟨?_, fun hdiffers => hback ?_⟩
    · by_cases hnil : front = []
      · rw [hnil, List.length_nil, Nat.add_zero] at hlast
        have hzero := hfits.clean (hlast ▸ hclean)
        rw [hnil, hzero, List.map_nil, List.sum_nil, ← hlast]
        omega
      · have hpaid' := h.lent before front i hbefore hnil hfront (by omega) hclean
        rw [hpaid', ← hlast]
        omega
    · obtain hfirst | hne := hdiffers
      · exact absurd hfirst (Nat.succ_ne_zero _)
      · exact hne
  refine ⟨htable, ?_, ⟨?_, ?_⟩, fun before part i hall hne hpart hend hclean =>
    (hlent before part i hall hne hpart hend hclean).1⟩
  · rw [howed]
    obtain hi | hi := Nat.lt_or_eq_of_le (Nat.succ_le_of_lt hcurrent)
    · exact (compensate_spec hordered h.nonneg hi hfits hduration).2.1
    · exact (compensate_last h.nonneg hi hfits hduration).2
  · rw [hsent]
    refine List.forall_mem_append.2 ⟨h.right.1, List.forall_mem_singleton.2 ?_⟩
    obtain hi | hi := Nat.lt_or_eq_of_le (Nat.succ_le_of_lt hcurrent)
    · exact (compensate_spec hordered h.nonneg hi hfits hduration).1
    · exact (compensate_last h.nonneg hi hfits hduration).1
  · intro before part behind i hall hne hpart hend hclean hdiffers
    obtain rfl | ⟨rest, last, rfl⟩ := List.eq_nil_or_concat behind
    · rw [List.append_nil] at hall
      obtain ⟨hsum, hback⟩ := hlent before part i hall hne hpart hend hclean
      rw [hsum, hback hdiffers, add_zero]
    · rw [hsent, List.concat_eq_append, ← List.append_assoc] at hall
      obtain ⟨hrest, -⟩ := List.append_inj' hall rfl
      exact h.right.2 before part rest i hrest hne hpart hend hclean hdiffers

theorem Lent.step (h : Lent t this) (hordered : t.Ordered) {call : QtCall} (hfits : call.Fits this)
    (hstep : this.step call = some that) : Lent t that := by
  cases call with
  | seek start_pos start_time rounds => exact h.keeps (seek_keeps hstep)
  | sendChunk =>
    obtain hkeeps | ⟨trak, frame_duration, htrak, hsends⟩ := sendChunk_cases hstep
    · exact h.keeps hkeeps
    · obtain ⟨frame, hframe, hmedia⟩ := hsends.frame
      exact h.sends hordered htrak hsends (hfits trak htrak frame hframe hmedia)

/-- A demuxer with a video trak that has sent nothing yet. -/
structure DemuxQt.Started (t : FrameTable) (this : DemuxQt) : Prop where
  table : this.video_trak.map PlayTrak.table = some t
  edit_list_compensation : this.edit_list_compensation = 0
  sent : this.sent = []

/-- In every run in which all frames that are sent fit, the durations are positive and add up. -/
theorem durationsRight_of_fits (t : FrameTable) (hordered : t.Ordered) (start last : DemuxQt)
    (calls : List QtCall) (hstart : start.Started t)
    (hfits : Guarded DemuxQt.step (fun this call => call.Fits this) start calls)
    (hrun : run DemuxQt.step start calls = some last) : DurationsRight t last.sent := by
  have hlent : Lent t start := by
    refine ⟨hstart.table, hstart.edit_list_compensation.ge, ?_, fun before part i hall hne => ?_⟩
    · rw [hstart.sent]
      refine ⟨fun s hs => absurd hs List.not_mem_nil, fun before part behind i hall hne => ?_⟩
      exact absurd (List.append_eq_nil_iff.1 (List.append_eq_nil_iff.1 hall.symm).1).2 hne
    · rw [hstart.sent] at hall
      exact absurd (List.append_eq_nil_iff.1 hall.symm).2 hne
  exact (guarded_invariant (fun _ _ _ h hfits hstep => h.step hordered hfits hstep) hlent hfits hrun).right

/-- Three frames, the first two at the same time. -/
def pair : FrameTable where
  frames := [⟨40, 10, 0, true, 1⟩, ⟨50, 10, 0, false, 1⟩, ⟨60, 10, 3000, false, 1⟩]
  length_le := by decide

/-- A demuxer at the first frame of a video trak, with no audio trak. -/
def FrameTable.player (t : FrameTable) : DemuxQt where
  chosen_reference := none
  video_trak := some ⟨t, 1, 0⟩
  audio_trak := none
  seekable := true
  seek_flag := false
  edit_list_compensation := 0
  finished := false
  sent := []

theorem durationsRight_of_fits_pair : pair.Ordered ∧ pair.player.Started pair ∧
    Guarded DemuxQt.step (fun this call => call.Fits this) pair.player [.sendChunk] ∧
      ∀ last, run DemuxQt.step pair.player [.sendChunk] = some last → DurationsRight pair last.sent := by
  have hordered : pair.Ordered := by
    intro i hi
    match i, hi with
    | 0, _ => decide
    | 1, _ => decide
    | i + 2, hi => exact absurd hi (by have hcount : pair.frame_count = 3 := rfl; omega)
  have hstarted : pair.player.Started pair := ⟨rfl, rfl, rfl⟩
  have hfits : Guarded DemuxQt.step (fun this call => call.Fits this) pair.player [.sendChunk] := by
    refine ⟨fun trak hsends frame hframe hmedia => ?_, fun _ _ => trivial⟩
    cases hsends.2.2
    exact ⟨by decide, by decide, by decide, by decide, fun _ => rfl⟩
  exact ⟨hordered, hstarted, hfits, fun last hrun =>
    durationsRight_of_fits pair hordered pair.player last [.sendChunk] hstarted hfits hrun⟩

/-- Three frames at the same time, and one that is not late enough for them. -/
def burst : FrameTable where
  frames := [⟨40, 10, 0, true, 1⟩, ⟨50, 10, 0, false, 1⟩, ⟨60, 10, 0, false, 1⟩, ⟨70, 10, 1, false, 1⟩]
  length_le := by decide

/-- The third frame is sent with a negative duration. -/
theorem burst_not_durationsRight : burst.Ordered ∧ burst.player.Started burst ∧
    (run DemuxQt.step burst.player [.sendChunk, .sendChunk, .sendChunk]).map DemuxQt.sent =
      some [⟨0, 1⟩, ⟨1, 1⟩, ⟨2, -1⟩] ∧ ¬DurationsRight burst [⟨0, 1⟩, ⟨1, 1⟩, ⟨2, -1⟩] := by
  refine ⟨fun i hi => ?_, ⟨rfl, rfl, rfl⟩, by decide, fun hright => ?_⟩
  · match i, hi with
    | 0, _ => decide
    | 1, _ => decide
    | 2, _ => decide
    | i + 3, hi => exact absurd hi (by have hcount : burst.frame_count = 4 := rfl; omega)
  · exact absurd (hright.1 ⟨2, -1⟩ (by decide)) (by decide)

end Xine.Qt
